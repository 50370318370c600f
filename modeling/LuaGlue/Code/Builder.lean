import LuaGlue.Text.Lines

/-!
# Building indented text

Generated code is a list of `Step`s. A `Builder` takes them one after the other: it holds the lines
written so far, the level of indentation, and the footers of the blocks that are open. A level is four
blanks deep, and an empty line stays empty.
-/

namespace LuaGlue.Code

/-- One step of writing code. -/
inductive Step where
  | line (text : String)
  | indent
  | dedent
  /-- Writes the header and goes one level deeper. -/
  | openBlock (header footer : String)
  /-- Leaves the innermost block: one level back, and its footer. -/
  | closeBlock
  deriving DecidableEq, Repr

/-- Text in the making. -/
structure Builder where
  lines : Array String := #[]
  level : Nat := 0
  /-- The footers of the open blocks, innermost first. -/
  footers : List String := []

/-- A line at a level of indentation. -/
def indented (level : Nat) (text : String) : String :=
  if text == "" then "" else String.ofList (List.replicate (4 * level) ' ') ++ text

namespace Builder

/-- Writes a line at the current level. -/
def line (b : Builder) (text : String) : Builder :=
  { b with lines := b.lines.push (indented b.level text) }

/-- Takes one step. There is no level below the first, and nothing to close when no block is open. -/
def step (b : Builder) : Step → Builder
  | .line text => b.line text
  | .indent => { b with level := b.level + 1 }
  | .dedent => { b with level := b.level - 1 }
  | .openBlock header footer =>
    { b.line header with level := b.level + 1, footers := footer :: b.footers }
  | .closeBlock =>
    match b.footers with
    | [] => b
    | footer :: rest => { b with level := b.level - 1, footers := rest }.line footer

/-- Takes the steps in order. -/
def run (b : Builder) (steps : List Step) : Builder := steps.foldl step b

/-- The text written so far. -/
def output (b : Builder) : String := "\n".intercalate b.lines.toList

end Builder

/-- One step for each line of a text. -/
def lines (text : String) : List Step := (Text.lines text).map .line

/-- An empty line. -/
def blank : Step := .line ""

/-- The steps inside a block that a brace closes. -/
def block (header : String) (body : List Step) : List Step :=
  .openBlock header "\x7d" :: body ++ [.closeBlock]

/-- The text that the steps write. -/
def render (steps : List Step) : String := (Builder.run {} steps).output

end LuaGlue.Code
