import LuaGlue.Code.Builder

/-!
# Runs of a builder

`Builder.Appends`: the steps append lines and leave the level of indentation and the open blocks as they
were. It goes along sequences of steps, one level deeper and into blocks.
-/

namespace LuaGlue.Code.Builder

variable {b : Builder} {steps steps' : List Step} {ls ls' : List String}

/-- All that the steps do to the builder is to append the lines. -/
def Appends (b : Builder) (steps : List Step) (ls : List String) : Prop :=
  b.run steps = { b with lines := b.lines ++ ls.toArray }

namespace Appends

theorem nil : b.Appends [] [] := by simp [Appends, run]

theorem append (h : b.Appends steps ls) (h' : { b with lines := b.lines ++ ls.toArray }.Appends steps' ls') :
    b.Appends (steps ++ steps') (ls ++ ls') := by
  have hsteps : b.run (steps ++ steps') = (b.run steps).run steps' := List.foldl_append
  rw [Appends, hsteps, h, h']
  simp [Array.append_assoc]

theorem line (text : String) : b.Appends [.line text] [indented b.level text] := by
  simp [Appends, run, step, Builder.line]

/-- What stands one level deeper. -/
theorem deeper (h : (b.step .indent).Appends steps ls) : b.Appends (.indent :: steps ++ [.dedent]) ls := by
  have hsteps : b.run (.indent :: steps ++ [.dedent]) = ((b.step .indent).run steps).step .dedent := by
    simp [run]
  rw [Appends, hsteps, h]
  simp [step]

/-- A block with its header and footer, both at the level in front of it. -/
theorem openBlock {header footer : String} (h : (b.step (.openBlock header footer)).Appends steps ls) :
    b.Appends (.openBlock header footer :: steps ++ [.closeBlock])
      (indented b.level header :: ls ++ [indented b.level footer]) := by
  have hsteps : b.run (.openBlock header footer :: steps ++ [.closeBlock]) =
      ((b.step (.openBlock header footer)).run steps).step .closeBlock := by
    simp [run]
  rw [Appends, hsteps, h]
  simp [step, Builder.line]

end Appends

end LuaGlue.Code.Builder
