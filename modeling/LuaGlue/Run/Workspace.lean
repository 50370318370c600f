import LuaGlue.Error

/-!
# The workspace of a run

A `Workspace` is the part of a file system that a run can see: files and directories, the working
directory among them, the programs that can be started, and the accesses that are denied for reasons of their
own, such as missing permission or a full disk. Every operation either takes effect as a whole or is
refused and changes nothing. How documents are written as texts is no matter of a run, so what a text is read
as is given with the workspace.

Paths are texts, as they stand in messages. The steps of a path are what lies between slashes, but for
empty ones; the step `.` stays in its directory and `..` leads one directory up, where the root is above
itself. An absolute path starts with a slash and leads from the root, any other from the working directory. A
name of more than 255 bytes and a path of 4096 or more are refused.
-/

namespace LuaGlue.Run

open Document (Value)

/-- What a file holds: a document, something that is no document, or plain text. -/
inductive Content where
  | document (v : Value)
  | unreadable
  | text (s : String)

inductive Node where
  | file (content : Content)
  | directory

/-- A place as seen from the root: the names of the directories on the way down, and its own. -/
abbrev Place := List String

/-- An access to a path. -/
inductive Access where
  | read (path : String)
  | makeDirectory (path : String)
  | write (path : String)
  | remove (path : String)
  | move (path target : String)
  deriving DecidableEq, Repr

structure Workspace where
  nodes : List (Place × Node) := []
  /-- The working directory. -/
  origin : Place := []
  /-- The document that a text is read as, if it is one. -/
  documents : String → Option Value := fun _ => none
  /-- The programs that can be started, by their names or paths, with their exit statuses. -/
  programs : List (String × Nat) := []
  denied : Access → Option SystemCode := fun _ => none

/-! ## Paths -/

/-- The parts of a text between slashes; there is always at least one. -/
def splitSlashes : List Char → List (List Char)
  | [] => [[]]
  | c :: cs =>
    if c == '/' then [] :: splitSlashes cs
    else
      match splitSlashes cs with
      | part :: rest => (c :: part) :: rest
      | [] => [[c]]

/-- The steps of a path. -/
def pathSteps (path : String) : List String :=
  ((splitSlashes path.toList).map String.ofList).filter (· != "")

/-- The last step of a path. -/
def lastStep? (path : String) : Option String := (pathSteps path).getLast?

/-- The place that one step leads to. -/
def Place.enter (here : Place) (step : String) : Place :=
  if step == "." then here
  else if step == ".." then here.dropLast
  else here ++ [step]

/-- The path leads from the root. -/
def isAbsolute (path : String) : Bool := path.toList.head? == some '/'

/-- A path inside a directory. An absolute path stays as it is. -/
def joinPath (directory path : String) : String :=
  if isAbsolute path then path
  else if directory == "" || directory.toList.getLast? == some '/' then directory ++ path
  else directory ++ "/" ++ path

/-- The paths of the directories on the way to a path, outermost first. `before` holds the characters
passed, nearest first. -/
def waypointsFrom (before : List Char) : List Char → List String
  | [] => []
  | c :: cs =>
    if c == '/' && !before.isEmpty && before.head? != some '/' && cs.any (· != '/') then
      String.ofList before.reverse :: waypointsFrom (c :: before) cs
    else waypointsFrom (c :: before) cs

/-- The paths of the directories on the way to a path, outermost first. -/
def waypoints (path : String) : List String := waypointsFrom [] path.toList

/-- The paths of the directories on the way to a path, and the path. -/
def withWaypoints (path : String) : List String := waypoints path ++ [path]

namespace Workspace

/-- What stands at a place; the working directory and those above it are always there. -/
def node? (w : Workspace) (place : Place) : Option Node :=
  if place.isPrefixOf w.origin then some .directory else w.nodes.lookup place

/-- The workspace with something else at a place. -/
def put (w : Workspace) (place : Place) (node : Node) : Workspace :=
  if (w.nodes.lookup place).isSome then
    { w with nodes := w.nodes.map fun e => if e.1 == place then (place, node) else e }
  else { w with nodes := w.nodes ++ [(place, node)] }

/-- The workspace with nothing at a place. -/
def erase (w : Workspace) (place : Place) : Workspace :=
  { w with nodes := w.nodes.filter (·.1 != place) }

/-- The place that steps lead to from `here`. All but the last must lead to directories. -/
def walk (w : Workspace) (here : Place) : List String → Except SystemCode Place
  | [] => .ok here
  | step :: rest =>
    let next := here.enter step
    if step.utf8ByteSize > 255 then .error .nameTooLong
    else if rest.isEmpty then .ok next
    else
      match w.node? next with
      | some .directory => walk w next rest
      | some (.file _) => .error .notDirectory
      | none => .error .notFound

/-- Where the steps of a path start. -/
def start (w : Workspace) (path : String) : Place := if isAbsolute path then [] else w.origin

/-- The place that a path leads to. The empty path leads nowhere. -/
def locate (w : Workspace) (path : String) : Except SystemCode Place :=
  if path.utf8ByteSize ≥ 4096 then .error .nameTooLong
  else if path == "" then .error .notFound
  else w.walk (w.start path) (pathSteps path)

/-- What stands at a path. -/
def at? (w : Workspace) (path : String) : Option Node :=
  match w.locate path with
  | .ok place => w.node? place
  | .error _ => none

/-- Something stands at the path. -/
def has (w : Workspace) (path : String) : Bool := (w.at? path).isSome

/-- A directory stands at the path. -/
def hasDirectory (w : Workspace) (path : String) : Bool :=
  match w.at? path with
  | some .directory => true
  | _ => false

/-- Refuses a denied access. -/
def permit (w : Workspace) (a : Access) : Except SystemCode Unit :=
  match w.denied a with
  | some code => .error code
  | none => .ok ()

/-- What the file at a path holds. -/
def read (w : Workspace) (path : String) : Except SystemCode Content := do
  w.permit (.read path)
  match w.node? (← w.locate path) with
  | none => .error .notFound
  | some .directory => .error .isDirectory
  | some (.file content) =>
    if path.toList.getLast? == some '/' then .error .notDirectory else .ok content

/-- Makes one directory. -/
def makeDirectory (w : Workspace) (path : String) : Except SystemCode Workspace := do
  w.permit (.makeDirectory path)
  let place ← w.locate path
  match w.node? place with
  | some _ => .error .alreadyExists
  | none => .ok (w.put place .directory)

/-- Writes a file, in place of one that stands there. -/
def write (w : Workspace) (path text : String) : Except SystemCode Workspace := do
  w.permit (.write path)
  let place ← w.locate path
  match w.node? place with
  | some .directory => .error .isDirectory
  | _ => .ok (w.put place (.file (.text text)))

/-- Removes a file. -/
def remove (w : Workspace) (path : String) : Except SystemCode Workspace := do
  w.permit (.remove path)
  let place ← w.locate path
  match w.node? place with
  | none => .error .notFound
  | some .directory => .error .isDirectory
  | some (.file _) => .ok (w.erase place)

/-- Moves a file, in place of one that stands at its target. -/
def move (w : Workspace) (path target : String) : Except SystemCode Workspace := do
  w.permit (.move path target)
  let source ← w.locate path
  let place ← w.locate target
  match w.node? source, w.node? place with
  | none, _ => .error .notFound
  | some .directory, _ => .error .isDirectory
  | some (.file _), some .directory => .error .isDirectory
  | some (.file content), _ => .ok ((w.erase source).put place (.file content))

/-- The workspace with something at the end of the steps from `here`, and directories on the way to it. -/
def plantFrom (w : Workspace) (node : Node) (here : Place) : List String → Workspace
  | [] => w
  | [step] => if (here.enter step).isPrefixOf w.origin then w else w.put (here.enter step) node
  | step :: rest =>
    let next := here.enter step
    match w.node? next with
    | some _ => plantFrom w node next rest
    | none => plantFrom (w.put next .directory) node next rest

/-- The workspace with something at a path and directories on the way to it. -/
def plant (w : Workspace) (path : String) (node : Node) : Workspace :=
  w.plantFrom node (w.start path) (pathSteps path)

/-- The paths of all files below the working directory, and of all directories with a slash at their end,
in ascending order. -/
def paths (w : Workspace) : List (String × Node) :=
  let listed := (w.nodes.filter fun e => w.origin.isPrefixOf e.1).map fun (place, node) =>
    let path := "/".intercalate (place.drop w.origin.length)
    match node with
    | .file _ => (path, node)
    | .directory => (path ++ "/", node)
  listed.mergeSort fun a b => a.1 ≤ b.1

end Workspace

end LuaGlue.Run
