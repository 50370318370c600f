import LuaGlue.Document.Reader
import LuaGlue.Document.Yaml
import LuaGlue.Run.CommandLine

/-!
# The program

Surveys the paths that a run may touch, runs the generator in a workspace made of them, and then prints and
writes what the run left there. Specifications are read by `Value.ofText?`, and no program can be started
from the workspace, so a formatter is reported as missing.
-/

namespace LuaGlue

open Document Run

/-- The paths that a run may touch. -/
def touchedPaths (config : Config) : List String :=
  let outputDir := config.outputDir.shown
  let outputs := Backend.all.map fun b => joinPath outputDir (b.fileName config.module.shown)
  config.specPaths.flatMap (fun spec => withWaypoints spec.shown) ++ withWaypoints outputDir
    ++ outputs.flatMap fun path => withWaypoints path ++ [stagedPath path]

/-- What stands at a path on the disk. -/
def survey (path : String) : IO (Option Node) := do
  let isDirectory ← try (← IO.FS.realPath path).isDir catch _ => pure false
  if isDirectory then return some .directory
  else
    try return some (.file (.text (← IO.FS.readFile path)))
    catch _ => return none

/-- The workspace with what stands at a path on the disk. -/
def surveyInto (w : Workspace) (path : String) : IO Workspace := do
  match w.locate path, ← survey path with
  | .ok place, some node => return if place.isPrefixOf w.origin then w else w.put place node
  | _, _ => return w

/-- The workspace before anything in it is known. -/
def emptyWorkspace : IO Workspace := do
  let directory := (← IO.currentDir).toString
  return { origin := pathSteps directory, documents := Value.ofText? }

/-- The workspace of a run. -/
def surveyAll (config : Config) : IO Workspace := do
  (touchedPaths config).foldlM surveyInto (← emptyWorkspace)

/-- The absolute path of a place. -/
def absolutePath (place : Place) : String := "/" ++ "/".intercalate place

/-- Brings the disk from one workspace to another. -/
def writeChanges (before after : Workspace) : IO Unit := do
  for (place, node) in after.nodes do
    let path := absolutePath place
    match node, before.node? place with
    | .directory, none => IO.FS.createDirAll path
    | .file (.text s), some (.file (.text old)) => if s != old then IO.FS.writeFile path s
    | .file (.text s), _ => IO.FS.writeFile path s
    | _, _ => pure ()
  for (place, _) in before.nodes do
    unless (after.node? place).isSome do
      IO.FS.removeFile (absolutePath place)

/-- How the program is called. -/
def usageText : String :=
  "usage: luaglue [-h] --spec FILE [--output DIR] [--module NAME] [--backend NAME] " ++
    "[--formatter COMMAND] [--dump-model]"

/-- Prints how the program ended and gives its exit status. -/
def report : Outcome → IO UInt32
  | .usage .help => do
    IO.println usageText
    return 0
  | .usage .error => do
    IO.eprintln usageText
    return 2
  | .done status errors model => do
    errors.forM IO.eprintln
    if let some v := model then
      IO.print v.yaml
    return status.toUInt32
  | .failed _ => do
    IO.eprintln "ERROR a value has a shape that no rule provides for"
    return 1

end LuaGlue

open LuaGlue Run in
/-- Runs the program with the given arguments and gives its exit status. -/
def main (args : List String) : IO UInt32 := do
  let before ← match parseArguments args with
    | .ok o => surveyAll o.config
    | .error _ => emptyWorkspace
  let (outcome, state) := run args before
  state.printed.forM IO.println
  writeChanges before state.workspace
  report outcome
