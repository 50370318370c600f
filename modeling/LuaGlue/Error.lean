import LuaGlue.Document.Value
import LuaGlue.TypeExpr.Parser

/-!
# Errors

Every way in which a run can fail is a cause of one of these types, and each has one function that
words it.

* `EntryCause`: an entry of a document is malformed.
* `BindError`: a specification breaks a rule of the bound model.
* `ConversionError`: a type has no spelling or no conversion.
* `Misfit`: a value has a shape that no rule provides for.
* `SystemError`: the file system or the formatter refuses an operation.
* `Error`: any of these.
-/

namespace LuaGlue

open Document (Value)

/-! ## Documents -/

/-- Why an entry of a document is malformed. -/
inductive EntryCause where
  /-- The mixed information stands in two documents. -/
  | givenTwice
  /-- Two documents declare the entry. -/
  | declaredTwice
  /-- The table is a mapping in one document and something else in another. -/
  | conflictingShapes
  | listExpected
  | tableExpected
  | typeExpected (got : Value)
  | malformedType (e : SyntaxError)
  | functionExpected (got : Value)
  | entryExpected (got : Value)
  | badArity (got : Value)
  | valuesExpected
  | signatureExpected
  | resultNotAllowed
  | getterExpected
  | unreadable
  | mappingExpected

def EntryCause.message : EntryCause → String
  | .givenTwice => "may only be given once"
  | .declaredTwice => "declared more than once"
  | .conflictingShapes => "conflicting table shapes across documents"
  | .listExpected => "expected a list"
  | .tableExpected => "expected a dict"
  | .typeExpected got => "expected a type string, got " ++ got.kindName
  | .malformedType e => e.message
  | .functionExpected got => "expected a function type, got " ++ got.literal
  | .entryExpected got => "expected a mapping, got " ++ got.kindName
  | .badArity got => "arity must be a count or \"*\", got " ++ got.literal
  | .valuesExpected => "values must be a list or a mapping"
  | .signatureExpected => "expected a signature string or a mapping"
  | .resultNotAllowed => "constructors may not declare a return type"
  | .getterExpected => "getter must be a string"
  | .unreadable => "not a valid YAML document"
  | .mappingExpected => "top level must be a mapping"

/-! ## Binding -/

/-- The rule of the bound model that a specification breaks. -/
inductive BindError where
  /-- The name of a declared entity holds an underscore. -/
  | illegalName (name : String)
  | duplicateType (name : String)
  | unknownType (name : String)
  | unknownTemplate (name : String)
  | wrongArity (template : String) (arity got : Nat)
  | missingType
  | reservedParam (name : String)
  | reservedMethod (owner method : String)
  | unknownBase (owner base : String)
  /-- The base names an entity of the kind `kind`, not a class. -/
  | baseNotClass (owner base kind : String)
  | resultNotAllowed
  /-- These classes have no base-less ancestor. -/
  | baseLoop (names : List String)
  | duplicateMethod (owner method : String)
  | iterTaken (owner : String)
  | sharedInheritance (owner : String)
  /-- The callback of an asynchronous function is no function without a result. -/
  | callbackNotVoid (got : String)
  | callbackArity (got : String)
  | callbackError (got : String)
  /-- The error arises at the named part of the specification. -/
  | within (part : String) (e : BindError)
  deriving DecidableEq, Repr

def BindError.message : BindError → String
  | .illegalName name => "Illegal type name '" ++ name ++ "': '_' is not allowed."
  | .duplicateType name => "duplicate type name: " ++ name
  | .unknownType name => "no such type: " ++ name
  | .unknownTemplate name => "no such template: " ++ name
  | .wrongArity template arity got =>
    "template " ++ template ++ " takes " ++ toString arity ++ " args, got " ++ toString got
  | .missingType => "not a type spec: None"
  | .reservedParam name => "argument \"" ++ name ++ "\" starts with a '_', but that is reserved"
  | .reservedMethod owner method =>
    "method \"" ++ owner ++ "." ++ method ++ "\" starts with a '_', but that is reserved"
  | .unknownBase owner base => owner ++ " has unknown base " ++ base
  | .baseNotClass owner base kind =>
    "Bases must be classes, but " ++ base ++ " (base of " ++ owner ++ ") is a " ++ kind
  | .resultNotAllowed => "constructors may not declare a return type"
  | .baseLoop names => "base class loop detected on " ++ ", ".intercalate names
  | .duplicateMethod owner method =>
    owner ++ " has duplicate method " ++ method ++ "; add a suffix to overloads"
  | .iterTaken owner => owner ++ " is iterable, so it may not declare a method named iter"
  | .sharedInheritance owner =>
    owner ++ " is shared_ptr wrapped, which is not supported with inheritance"
  | .callbackNotVoid got => "AsyncCallback must wrap a void function, got " ++ got
  | .callbackArity got =>
    "AsyncCallback function must take (error) or (result, error), got " ++ got
  | .callbackError got =>
    "Last arg to AsyncCallback must be one of util::Optional<AppError>, util::Optional<Status>, "
      ++ "Status, Nullable<std::error_code> or Nullable<std::exception_ptr>, but got " ++ got
  | .within part e => part ++ ": " ++ e.message

/-! ## Conversion -/

/-- Why a type has no spelling or no conversion. -/
inductive ConversionError where
  | unexpectedPrimitive (name : String)
  | unknownTemplate (name : String)
  /-- A value of the type only ever goes from native code to the host. -/
  | notFromHost (name : String)
  | mixedNeedsModel
  /-- A class that is owned through shared handles stands outside of one. -/
  | bareShared (name : String)
  | asyncResult
  | wrapsNoFunction (type : String)
  | functionSpelling (type : String)
  | unannotated (template : String)
  | callbackWrapsNoFunction (method : String)
  deriving DecidableEq, Repr

def ConversionError.message : ConversionError → String
  | .unexpectedPrimitive name => "unexpected primitive type '" ++ name ++ "'"
  | .unknownTemplate name => "unknown template " ++ name
  | .notFromHost name => name ++ " cannot be converted from Lua"
  | .mixedNeedsModel => "Mixed conversion needs the bound spec"
  | .bareShared name =>
    "should not directly convert from " ++ name ++ " without shared_ptr wrapper"
  | .asyncResult => "AsyncResult only exists in transformed signatures and has no C++ spelling"
  | .wrapsNoFunction type => type ++ " must wrap exactly one function type"
  | .functionSpelling type =>
    "Cannot convert function types to C++ type names: " ++ type
      ++ ". Use cpp_function_type() to get a signature type."
  | .unannotated template => "no LuaCATS spelling for template " ++ template
  | .callbackWrapsNoFunction method =>
    method ++ ": async callback does not wrap a function type"

/-! ## Shapes -/

/-- A value has a shape that no rule provides for. -/
inductive Misfit where
  /-- A table of entries is something else. -/
  | tableExpected
  /-- A number, a day or a moment stands where a sequence is gone through. -/
  | sequenceExpected
  /-- A list, a set or a mapping stands for a name. -/
  | keyExpected
  /-- A default holds a value that has no JSON text. -/
  | jsonExpected
  /-- The name of an entity is no text. -/
  | nameExpected
  /-- The name of a member is no text. -/
  | memberNameExpected
  /-- A header is no text. -/
  | headerExpected
  /-- A name that is no text has to be spelled. -/
  | spellingExpected
  /-- A template has no argument, or a callback no parameter. -/
  | argumentExpected
  /-- A template of keys and values has other than two arguments. -/
  | pairExpected
  /-- The type is not declared by name. -/
  | entityExpected
  /-- A type is made of itself without end. -/
  | endlessType
  /-- An option is written without a value. -/
  | settingExpected
  /-- A path or a word of a command holds the null character. -/
  | nullCharacter
  /-- A quotation in a command is not closed. -/
  | openQuotation
  /-- A command ends in an escape. -/
  | danglingEscape
  deriving DecidableEq, Repr

/-! ## Runs -/

/-- What the operating system answers to an operation that it refuses. -/
inductive SystemCode where
  | notFound
  | permissionDenied
  | alreadyExists
  | notDirectory
  | isDirectory
  | nameTooLong
  deriving DecidableEq, Repr

namespace SystemCode

/-- The number of the answer. -/
def number : SystemCode → Nat
  | .notFound => 2
  | .permissionDenied => 13
  | .alreadyExists => 17
  | .notDirectory => 20
  | .isDirectory => 21
  | .nameTooLong => 36

def text : SystemCode → String
  | .notFound => "No such file or directory"
  | .permissionDenied => "Permission denied"
  | .alreadyExists => "File exists"
  | .notDirectory => "Not a directory"
  | .isDirectory => "Is a directory"
  | .nameTooLong => "File name too long"

end SystemCode

/-- A refused operation on a path, or on a path and its new place. -/
structure SystemError where
  code : SystemCode
  path : String
  target : Option String := none
  deriving DecidableEq, Repr

def SystemError.message (e : SystemError) : String :=
  "[Errno " ++ toString e.code.number ++ "] " ++ e.code.text ++ ": " ++ Text.quoted e.path
    ++ match e.target with
      | some target => " -> " ++ Text.quoted target
      | none => ""

/-- Why a formatter run fails. -/
inductive FormatterCause where
  /-- The command cannot be started. -/
  | system (e : SystemError)
  /-- The command ends with a status other than zero. -/
  | status (command : List String) (code : Nat)
  deriving DecidableEq, Repr

def FormatterCause.message : FormatterCause → String
  | .system e => e.message
  | .status command code =>
    "Command '[" ++ ", ".intercalate (command.map Text.quoted) ++ "]' returned non-zero exit status "
      ++ toString code ++ "."

/-- Why a run of the generator fails as a whole. -/
inductive RunCause where
  | noSpecification
  /-- The run asks for a backend that is none of `known`. -/
  | unknownBackend (name : String) (known : List String)
  | formatter (cause : FormatterCause)
  deriving DecidableEq, Repr

def RunCause.message : RunCause → String
  | .noSpecification => "no specification files given"
  | .unknownBackend name known =>
    "unknown backend " ++ Text.quoted name ++ "; expected one of " ++ ", ".intercalate known
  | .formatter cause => "formatter failed: " ++ cause.message

/-- Any failure of the program. -/
inductive Error where
  | malformed (e : SyntaxError)
  /-- An entry of a document is malformed. The path is the key of its table, or the keys that lead to
  it joined by dots. -/
  | entry (path : Value) (cause : EntryCause)
  | bind (e : BindError)
  | conversion (e : ConversionError)
  | run (cause : RunCause)
  | system (e : SystemError)
  | misfit (m : Misfit)

/-- The words of a failure; a misfit has none. -/
def Error.message? : Error → Option String
  | .malformed e => some e.message
  | .entry path cause => some (path.text ++ ": " ++ cause.message)
  | .bind e => some e.message
  | .conversion e => some e.message
  | .run cause => some cause.message
  | .system e => some e.message
  | .misfit _ => none

end LuaGlue
