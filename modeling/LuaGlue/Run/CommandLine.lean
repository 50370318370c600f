import LuaGlue.Model.Describe
import LuaGlue.Run.Generator
import LuaGlue.Text.DecimalDigit

/-!
# The command line

* `parseArguments`: the options that arguments give. An option may be shortened to any start that no other
  option has, and its value may follow an equals sign, where two dashes stand for no value. Help is given as
  soon as it is asked for; a missing value, an argument that is no option, or no specification at all is an
  error.
* `run`: the whole program, from its arguments to its exit status.
-/

namespace LuaGlue.Run

/-! ## Options -/

inductive Flag where
  | help
  | spec
  | output
  | module
  | backend
  | formatter
  | dumpModel
  deriving DecidableEq, Repr

namespace Flag

def all : List Flag := [.help, .spec, .output, .module, .backend, .formatter, .dumpModel]

/-- The option as it is written out. -/
def text : Flag → String
  | .help => "--help"
  | .spec => "--spec"
  | .output => "--output"
  | .module => "--module"
  | .backend => "--backend"
  | .formatter => "--formatter"
  | .dumpModel => "--dump-model"

/-- The option is followed by a value. -/
def takesValue : Flag → Bool
  | .help | .dumpModel => false
  | _ => true

/-- The option that an argument writes out. -/
def ofText? (s : String) : Option Flag :=
  if s == "-h" then some .help else all.find? (·.text == s)

/-- The options that an argument may be short for. -/
def startingWith (s : List Char) : List Flag := all.filter fun f => s.isPrefixOf f.text.toList

end Flag

/-- What an argument is. -/
inductive Argument where
  /-- An option, with the value that follows its equals sign. -/
  | flag (f : Flag) (value : Option String)
  /-- Letters that follow the short form of help. -/
  | helpLetters (letters : List Char)
  /-- Something that may be the value of an option. -/
  | plain (s : String)
  /-- Something that looks like an option and is none. -/
  | unknown
  /-- A start that several options have. -/
  | ambiguous
  /-- The mark after which no argument is an option. -/
  | stop

/-- The characters without a line end after them. -/
def dropLineEnd (cs : List Char) : List Char :=
  if cs.getLast? == some '\n' then cs.dropLast else cs

/-- A negative number, which is no option. Its digits are those of any script, and a line end may follow
it. -/
def isNegativeNumber : List Char → Bool
  | '-' :: cs =>
    let digits := dropLineEnd cs
    let whole := digits.takeWhile Text.isDecimalDigit
    match digits.dropWhile Text.isDecimalDigit with
    | [] => !whole.isEmpty
    | '.' :: fraction => !fraction.isEmpty && fraction.all Text.isDecimalDigit
    | _ => false
  | _ => false

/-- An argument up to its first equals sign, and what follows that. -/
def splitValue (cs : List Char) : List Char × Option String :=
  match cs.dropWhile (· != '=') with
  | [] => (cs, none)
  | _ :: value => (cs.takeWhile (· != '='), some (String.ofList value))

/-- What an argument is that starts with a dash and is no option written out. -/
def classifyDashed (s : String) : Argument :=
  let (name, value) := splitValue s.toList
  let other : Argument :=
    if isNegativeNumber s.toList || s.toList.contains ' ' then .plain s else .unknown
  match s.toList with
  | '-' :: '-' :: _ =>
    match Flag.startingWith name with
    | [f] => .flag f value
    | [] => other
    | _ => .ambiguous
  | '-' :: 'h' :: '=' :: letters => .helpLetters letters
  | '-' :: 'h' :: letters => .helpLetters letters
  | _ => other

/-- What an argument is. -/
def classify (s : String) : Argument :=
  if s == "--" then .stop
  else if s.toList.head? != some '-' || s == "-" then .plain s
  else
    match Flag.ofText? s with
    | some f => .flag f none
    | none => classifyDashed s

/-- What the options ask for. -/
structure Options where
  specs : List Setting := []
  output : Setting := .text "gen"
  module : Setting := .text "bindings"
  backends : List Setting := []
  formatter : Option String := none
  dumpModel : Bool := false

namespace Options

/-- The options with a value for one of them. A formatter that says nothing is none. -/
def set (o : Options) (f : Flag) (value : Setting) : Options :=
  match f with
  | .spec => { o with specs := o.specs ++ [value] }
  | .output => { o with output := value }
  | .module => { o with module := value }
  | .backend => { o with backends := o.backends ++ [value] }
  | .formatter =>
    match value with
    | .text command => { o with formatter := some command }
    | .empty => { o with formatter := none }
  | .help | .dumpModel => o

/-- The run that the options ask for. -/
def config (o : Options) : Config :=
  { specPaths := o.specs, outputDir := o.output, module := o.module, formatter := o.formatter
    backends := if o.backends.isEmpty then [.text "lua", .text "luacats"] else o.backends }

end Options

/-- The program ends without a run: help was asked for, or the arguments are in error. -/
inductive Usage where
  | help
  | error
  deriving DecidableEq, Repr

/-- The exit status. -/
def Usage.status : Usage → Nat
  | .help => 0
  | .error => 2

/-- The setting that is written after an equals sign. -/
def settingOf (value : String) : Setting := if value == "--" then .empty else .text value

/-- Takes the arguments in order; `stray` tells that one of them was no option and no value. -/
def takeArguments (o : Options) (stray : Bool) : List Argument → Except Usage Options
  | [] => if stray || o.specs.isEmpty then .error .error else .ok o
  | .flag f (some value) :: rest =>
    if f.takesValue then takeArguments (o.set f (settingOf value)) stray rest else .error .error
  | .flag f none :: rest =>
    if f.takesValue then
      match rest with
      | .plain value :: rest => takeArguments (o.set f (.text value)) stray rest
      | _ => .error .error
    else if f == .help then .error .help
    else takeArguments { o with dumpModel := true } stray rest
  | .helpLetters letters :: _ =>
    if !letters.isEmpty && letters.all (· == 'h') then .error .help else .error .error
  | .ambiguous :: _ => .error .error
  | .stop :: _ => .error .error
  | .plain _ :: rest => takeArguments o true rest
  | .unknown :: rest => takeArguments o true rest

/-- The options that the arguments give. -/
def parseArguments (args : List String) : Except Usage Options :=
  let before := args.takeWhile (· != "--")
  let classified := args.map classify
  if before.any (fun s => match classify s with | .ambiguous => true | _ => false) then .error .error
  else takeArguments {} false classified

/-! ## The program -/

/-- How the program ends. -/
inductive Outcome where
  /-- Before any run. -/
  | usage (u : Usage)
  /-- With an exit status; a model is given where it was asked for. -/
  | done (status : Nat) (errors : List String) (model : Option Document.Value)
  /-- With a value that no rule provides for. -/
  | failed (m : Misfit)

/-- The outcome of a failed run: its message is an error of the program, but a misfit has none. -/
def outcomeOf : Error → Outcome
  | .misfit m => .failed m
  | e => .done 1 ["ERROR " ++ e.message?.getD ""] none

/-- Runs the program in a workspace. -/
def run (args : List String) (w : Workspace) : Outcome × State :=
  let start : State := { workspace := w }
  match parseArguments args with
  | .error u => (.usage u, start)
  | .ok o =>
    if o.dumpModel then
      let described : Action Document.Value := do
        pureStep (← bind o.config).describe
      match described.run start with
      | (.ok v, s) => (.done 0 [] (some v), s)
      | (.error e, s) => (outcomeOf e, s)
    else
      match (generate o.config).run start with
      | (.ok _, s) => (.done 0 [] none, s)
      | (.error e, s) => (outcomeOf e, s)

end LuaGlue.Run
