import LuaGlue.Proofs.Code.Runs
import LuaGlue.Proofs.Text.Nesting

/-!
# Nested brackets in generated code

- **Steps** (`Nests`): what is open in front of the texts that the steps write, and behind them. The steps
  leave the level of indentation and the blocks as they were.
- **Blocks** (`NestedSteps.block`): a header that opens a brace stands in front of nested steps, and the
  footer closes it.
- **Rendering** (`NestedSteps.nested_render`): the text of nested steps is nested, and the level is back at
  the first one.
-/

namespace LuaGlue.Code

open Text (Nested Leads Pending marks)

variable {steps steps' : List Step} {k k' k'' : Pending} {t : String}

/-- The brackets of the texts, one text after the other. -/
def marksOf (texts : List String) : List Text.Mark := texts.flatMap fun t => marks t.toList

/-- The steps append texts that lead from what is open in front of them to what is open behind them, and
leave the level and the open blocks as they were. -/
def Nests (steps : List Step) (k k' : Pending) : Prop :=
  ∀ b : Builder, ∃ texts : List String, b.run steps = { b with lines := b.lines ++ texts.toArray } ∧
    (marksOf texts).foldl Pending.after k = k'

/-- Every bracket that the steps write is closed by them. -/
def NestedSteps (steps : List Step) : Prop := Nests steps (some []) (some [])

theorem marks_indented (n : Nat) (t : String) : marks (indented n t).toList = marks t.toList := by
  rw [indented]
  split
  · rename_i ht
    rw [beq_iff_eq.mp ht]
  · rw [String.toList_append, Text.marks_append, String.toList_ofList, Text.marks_eq_nil, List.nil_append]
    intro c hc
    rw [List.eq_of_mem_replicate hc]
    rfl

namespace Nests

theorem nil : Nests [] k k := fun _ => ⟨[], Builder.Appends.nil, rfl⟩

theorem append (h : Nests steps k k') (h' : Nests steps' k' k'') : Nests (steps ++ steps') k k'' := by
  intro b
  obtain ⟨texts, hrun, hmarks⟩ := h b
  obtain ⟨texts', hrun', hmarks'⟩ := h' { b with lines := b.lines ++ texts.toArray }
  refine ⟨texts ++ texts', Builder.Appends.append hrun hrun', ?_⟩
  rw [marksOf, List.flatMap_append, List.foldl_append]
  rw [marksOf] at hmarks hmarks'
  rw [hmarks, hmarks']

theorem line (h : Leads t k k') : Nests [.line t] k k' := by
  intro b
  refine ⟨[indented b.level t], Builder.Appends.line t, ?_⟩
  rw [marksOf, List.flatMap_singleton, marks_indented]
  exact h

theorem cons (ht : Leads t k k') (h : Nests steps k' k'') : Nests (.line t :: steps) k k'' :=
  (line ht).append h

/-- What stands one level deeper. -/
theorem deeper (h : Nests steps k k') : Nests (.indent :: steps ++ [.dedent]) k k' := by
  intro b
  obtain ⟨texts, hrun, hmarks⟩ := h (b.step .indent)
  exact ⟨texts, Builder.Appends.deeper hrun, hmarks⟩

/-- A text of several lines. -/
theorem lines (h : Leads t k k') : Nests (Code.lines t) k k' := by
  have hmap (ls : List String) (k : Pending) :
      Nests (ls.map .line) k ((marksOf ls).foldl Pending.after k) := by
    induction ls generalizing k with
    | nil => exact nil
    | cons l ls ih =>
      have hall := cons (t := l) rfl (ih (Text.scan l k))
      rwa [Text.scan, ← List.foldl_append] at hall
  have hmarks : marksOf (Text.lines t) = marks t.toList := by
    rw [marksOf, Text.lines, List.flatMap_map, ← Text.marks_splitLines]
    simp only [String.toList_ofList]
  have hlines := hmap (Text.lines t) k
  rw [hmarks, ← Text.scan, h] at hlines
  exact hlines

/-- A block whose header and footer are as given. -/
theorem openBlock {header footer : String} (hheader : Leads header k k') (h : Nests steps k' k'')
    {after : Pending} (hfooter : Leads footer k'' after) :
    Nests (.openBlock header footer :: steps ++ [.closeBlock]) k after := by
  intro b
  obtain ⟨texts, hrun, hmarks⟩ := h (b.step (.openBlock header footer))
  refine ⟨indented b.level header :: texts ++ [indented b.level footer], Builder.Appends.openBlock hrun, ?_⟩
  simp only [marksOf, List.cons_append, List.flatMap_cons, List.flatMap_append, List.flatMap_nil,
    List.append_nil, List.foldl_append, marks_indented]
  rw [marksOf] at hmarks
  rw [show (marks header.toList).foldl Pending.after k = k' from hheader, hmarks]
  exact hfooter

end Nests

namespace NestedSteps

/-- Nested steps may stand anywhere. -/
theorem nests (h : NestedSteps steps) (k : Pending) : Nests steps k k := by
  intro b
  obtain ⟨texts, hrun, hmarks⟩ := h b
  exact ⟨texts, hrun, Text.foldl_after_eq hmarks k⟩

theorem nil : NestedSteps [] := Nests.nil

theorem append (h : NestedSteps steps) (h' : NestedSteps steps') : NestedSteps (steps ++ steps') :=
  Nests.append h h'

theorem line (h : Nested t) : NestedSteps [.line t] := Nests.line h

theorem cons (ht : Nested t) (h : NestedSteps steps) : NestedSteps (.line t :: steps) := Nests.cons ht h

theorem blank : NestedSteps [Code.blank] := line rfl

theorem lines (h : Nested t) : NestedSteps (Code.lines t) := Nests.lines h

theorem flatMap {α : Type} {l : List α} {f : α → List Step} (h : ∀ x ∈ l, NestedSteps (f x)) :
    NestedSteps (l.flatMap f) := by
  induction l with
  | nil => exact nil
  | cons x l ih =>
    rw [List.forall_mem_cons] at h
    exact h.1.append (ih h.2)

theorem flatten {l : List (List Step)} (h : ∀ x ∈ l, NestedSteps x) : NestedSteps l.flatten := by
  simpa [List.flatMap_id] using flatMap (f := id) h

theorem of_forall (h : ∀ x ∈ steps, NestedSteps [x]) : NestedSteps steps := by
  have hall := flatMap h
  rwa [List.flatMap_singleton'] at hall

theorem map {α : Type} {l : List α} {f : α → String} (h : ∀ x ∈ l, Nested (f x)) :
    NestedSteps (l.map fun x => .line (f x)) := by
  rw [List.map_eq_flatMap]
  exact flatMap fun x hx => line (h x hx)

/-- A header that opens a brace, nested steps, and the brace that closes it. -/
theorem block {header : String} (hheader : Leads header (some []) (some [.curly]))
    (h : NestedSteps steps) : NestedSteps (Code.block header steps) :=
  Nests.openBlock hheader (h.nests _) rfl

/-- **Rendering.** The text of nested steps is nested, and no block is left open. -/
theorem nested_render (h : NestedSteps steps) :
    Nested (render steps) ∧ (Builder.run {} steps).level = 0 ∧ (Builder.run {} steps).footers = [] := by
  obtain ⟨texts, hrun, hmarks⟩ := h {}
  rw [hrun]
  refine ⟨?_, rfl, rfl⟩
  rw [Nested, Text.scan, render, hrun, Builder.output, Text.marks_intercalate_break]
  simpa [marksOf] using hmarks

end NestedSteps

end LuaGlue.Code
