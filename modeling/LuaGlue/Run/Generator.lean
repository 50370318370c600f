import LuaGlue.Annotations.Module
import LuaGlue.Document.Merge
import LuaGlue.Lua.Module
import LuaGlue.Model.Bind
import LuaGlue.Run.Command
import LuaGlue.Run.Workspace
import LuaGlue.Spec.Reader

/-!
# Generator runs

A run loads the specification files of its `Config`, binds them, renders every backend and only then
writes: each output first beside its place, and once all are written each is moved into place. What the run
does to the workspace and what it prints are its `State`.

* `load`, `bind`: the specification and its model.
* `generate`: the whole run; gives the paths written.
-/

namespace LuaGlue.Run

open Document (Value Entries)

/-- What an option says: a text, or nothing where one was expected. -/
inductive Setting where
  | text (s : String)
  | empty
  deriving DecidableEq, Repr

namespace Setting

/-- The setting inside other text. -/
def shown : Setting → String
  | .text s => s
  | .empty => "[]"

/-- The text of a setting that has to have one. -/
def get : Setting → Except Error String
  | .text s => .ok s
  | .empty => .error (.misfit .settingExpected)

end Setting

/-- What a run is asked to do. -/
structure Config where
  specPaths : List Setting
  outputDir : Setting := .text "gen"
  module : Setting := .text "bindings"
  backends : List Setting := [.text "lua", .text "luacats"]
  /-- The command run over generated C++ files. -/
  formatter : Option String := none

/-- The workspace and the lines printed so far. -/
structure State where
  workspace : Workspace
  printed : List String := []

/-- A run, which may fail after it has changed the workspace. -/
abbrev Action := ExceptT Error (StateM State)

/-! ## Effects -/

/-- A computation without effects as part of a run. -/
def pureStep {α : Type} (result : Except Error α) : Action α := ExceptT.mk (pure result)

/-- Prints a line. -/
def print (line : String) : Action Unit :=
  modify fun s => { s with printed := s.printed ++ [line] }

/-- Changes the workspace, or fails with the system's answer for a path. -/
def change (path : String) (target : Option String)
    (op : Workspace → Except SystemCode Workspace) : Action Unit := do
  match op (← get).workspace with
  | .ok w => modify fun s => { s with workspace := w }
  | .error code => throw (.system ⟨code, path, target⟩)

/-- Refuses a path with the null character. -/
def checkPath (path : String) : Except Error Unit :=
  if path.toList.contains '\x00' then .error (.misfit .nullCharacter) else .ok ()

/-- Makes a directory unless there is one. -/
def ensureDirectory (path : String) : Action Unit := do
  pureStep (checkPath path)
  match (← get).workspace.makeDirectory path with
  | .ok w => modify fun s => { s with workspace := w }
  | .error code =>
    if (← get).workspace.hasDirectory path then return ()
    else throw (.system ⟨code, path, none⟩)

/-- An action that may find something else where it makes a directory. -/
def allowExisting (action : Action Unit) : Action Unit :=
  tryCatch action fun
    | .system ⟨.alreadyExists, _, _⟩ => return ()
    | e => throw e

/-- Makes a directory, given the paths on the way to it, innermost first. If the innermost is missing it is
made first, and nothing is left to do for a path that ends in `.` there. -/
def makeThrough (path : String) : List String → Action Unit
  | [] => ensureDirectory path
  | above :: outer => do
    if (← get).workspace.has above then ensureDirectory path
    else
      allowExisting (makeThrough above outer)
      if lastStep? path == some "." then return () else ensureDirectory path

/-- Makes a directory with those on the way to it, as far as they are missing. -/
def makeDirectories (path : String) : Action Unit := makeThrough path (waypoints path).reverse

/-! ## Loading -/

/-- The document that a file holds, if it holds one. -/
def documentIn? (w : Workspace) : Content → Option Value
  | .document v => some v
  | .unreadable => none
  | .text s => w.documents s

/-- The entries of the document that a file holds; an empty one has none. -/
def documentOf (w : Workspace) (path : String) (content : Content) : Except Error Entries :=
  match documentIn? w content with
  | some .null => .ok []
  | some (.map entries) => .ok entries
  | some _ => .error (.entry (.str path) .mappingExpected)
  | none => .error (.entry (.str path) .unreadable)

/-- Reads one specification file. -/
def loadDocument (w : Workspace) (spec : Setting) : Except Error Entries := do
  let path ← spec.get
  checkPath path
  match w.read path with
  | .ok content => documentOf w path content
  | .error code => .error (.system ⟨code, path, none⟩)

/-- Reads the specification files as one specification. -/
def loadSpec (config : Config) (w : Workspace) : Except Error Spec := do
  if config.specPaths.isEmpty then .error (.run .noSpecification)
  else
    let docs ← config.specPaths.mapM (loadDocument w)
    Spec.ofDocument (← Document.merge docs)

/-- Loads the specification of a run. -/
def load (config : Config) : Action Spec := do
  pureStep (loadSpec config (← get).workspace)

/-- Loads and binds the specification of a run. -/
def bind (config : Config) : Action Model := do
  let spec ← load config
  pureStep (Model.ofSpec spec)

/-! ## Rendering -/

/-- A kind of output. -/
inductive Backend where
  | lua
  | annotations
  deriving DecidableEq, Repr

namespace Backend

def all : List Backend := [.lua, .annotations]

def name : Backend → String
  | .lua => "lua"
  | .annotations => "luacats"

def ofName? (name : String) : Option Backend := all.find? (·.name == name)

/-- The name of the output file. -/
def fileName (module : String) : Backend → String
  | .lua => module ++ ".cpp"
  | .annotations => module ++ ".lua"

/-- The text of the output. The function that opens a Lua module, the last of its unit, needs the name of
the module to be a text. -/
def render (module : Setting) (model : Model) : Backend → Except Error String
  | .lua => do
    let text ← Lua.render module.shown model
    let _ ← module.get
    return text
  | .annotations => Annotations.render module.shown model

/-- The output is C++, which the formatter is run over. -/
def isCpp : Backend → Bool
  | .lua => true
  | .annotations => false

end Backend

/-- The outputs with one more; an output that is there already keeps its place. -/
def putOutput (outputs : List (String × String)) (file text : String) : List (String × String) :=
  if outputs.any (·.1 == file) then
    outputs.map fun o => if o.1 == file then (file, text) else o
  else outputs ++ [(file, text)]

/-- Renders one backend, given by its name. -/
def renderBackend (module : Setting) (model : Model) (outputs : List (String × String))
    (backend : Setting) : Except Error (List (String × String)) := do
  let name ← backend.get
  match Backend.ofName? name with
  | some b => return putOutput outputs (b.fileName module.shown) (← b.render module model)
  | none => .error (.run (.unknownBackend name (Backend.all.map (·.name))))

/-- The texts of the output files by their names, in the order of the backends. -/
def renderAll (module : Setting) (backends : List Setting) (model : Model) :
    Except Error (List (String × String)) :=
  backends.foldlM (renderBackend module model) []

/-! ## Writing -/

/-- The path that an output is first written to. -/
def stagedPath (path : String) : String := path ++ ".tmp"

/-- Removes the staged files that are there. -/
def removeStaged : List String → Action Unit
  | [] => return ()
  | path :: paths => do
    if (← get).workspace.has (stagedPath path) then
      change (stagedPath path) none (·.remove (stagedPath path))
      removeStaged paths
    else removeStaged paths

/-- Writes the outputs beside their places. When one cannot be written, it and those before it, which
are `staged`, are removed again. -/
def stageAll (staged : List String) : List (String × String) → Action Unit
  | [] => return ()
  | (path, text) :: outputs => do
    pureStep (checkPath (stagedPath path))
    match (← get).workspace.write (stagedPath path) text with
    | .ok w =>
      modify fun s => { s with workspace := w }
      stageAll (staged ++ [path]) outputs
    | .error code =>
      removeStaged (staged ++ [path])
      throw (.system ⟨code, stagedPath path, none⟩)

/-- Moves the staged outputs into place. -/
def moveAll : List String → Action Unit
  | [] => return ()
  | path :: paths => do
    change (stagedPath path) (some path) (·.move (stagedPath path) path)
    moveAll paths

/-- Writes all outputs, given by path and text. -/
def writeAll (outputs : List (String × String)) : Action Unit := do
  stageAll [] outputs
  moveAll (outputs.map (·.1))

/-! ## Formatting -/

/-- Looks for a program that cannot be started, which is named by a path if it holds a slash. No file of the
workspace can be started, and neither can a directory; a name without characters or of dots stands for a
directory of the search path. -/
def missingProgram (w : Workspace) (program : String) : SystemCode :=
  if program.toList.contains '/' then
    match w.locate program with
    | .error code => code
    | .ok place =>
      match w.node? place with
      | some (.file _) =>
        if program.toList.getLast? == some '/' then .notDirectory else .permissionDenied
      | some .directory => .permissionDenied
      | none => .notFound
  else if program == "" || program == "." || program == ".." then .permissionDenied
  else if program.utf8ByteSize > 255 then .nameTooLong
  else .notFound

/-- Starts a program and takes its exit status for an answer. -/
def startProgram (w : Workspace) (command : List String) (program : String) :
    Except FormatterCause Unit :=
  match w.programs.lookup program with
  | some 0 => .ok ()
  | some status => .error (.status command status)
  | none => .error (.system ⟨missingProgram w program, program, none⟩)

/-- Runs the formatter over the paths; without a command or a path there is nothing to run. -/
def format (formatter : Option String) (paths : List String) (w : Workspace) :
    Except Error Unit :=
  match formatter with
  | none => .ok ()
  | some command =>
    if command == "" || paths.isEmpty then .ok ()
    else
      match commandWords command with
      | .error m => .error (.misfit m)
      | .ok words =>
        match words ++ paths with
        | [] => .ok ()
        | program :: args => do
          (program :: args).forM checkPath
          (startProgram w (program :: args) program).mapError fun c => .run (.formatter c)

/-! ## The run -/

/-- Runs the generator and gives the paths written. -/
def generate (config : Config) : Action (List String) := do
  print "=== Generating bindings:"
  let model ← bind config
  let outputs ← pureStep (renderAll config.module config.backends model)
  let outputDir ← pureStep config.outputDir.get
  makeDirectories outputDir
  let placed := outputs.map fun o => (joinPath outputDir o.1, o.2)
  writeAll placed
  let written := placed.map (·.1)
  written.forM fun path =>
    print ("  " ++ ", ".intercalate (config.specPaths.map (·.shown)) ++ " => " ++ path)
  let cppPaths := config.backends.filterMap fun backend =>
    match Backend.ofName? backend.shown with
    | some b => if b.isCpp then some (joinPath outputDir (b.fileName config.module.shown)) else none
    | none => none
  pureStep (format config.formatter cppPaths (← get).workspace)
  return written

end LuaGlue.Run
