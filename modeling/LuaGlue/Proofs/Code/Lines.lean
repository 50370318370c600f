import LuaGlue.Proofs.Code.Runs
import LuaGlue.Proofs.Text.Lines

/-!
# Lines of generated code

What a list of steps writes, line by line.

- **Writing** (`Writes`): at a level of indentation the steps append certain lines, whatever has been
  written before, and leave no block open. It goes along sequences and into blocks.
- **Inner lines** (`Inside`): what is written below the first level is empty or begins with a blank.
-/

namespace LuaGlue.Code

open Text (OneLine)

/-! ## Writing -/

variable {k : Nat} {steps steps' : List Step} {ls ls' : List String}

/-- At the level the steps append the lines, and leave the level and the open blocks as they were. A text
that a single step writes may be of several lines. -/
def Writes (k : Nat) (steps : List Step) (ls : List String) : Prop :=
  ∃ texts : List String, texts.flatMap Text.lines = ls ∧
    ∀ b : Builder, b.level = k → b.run steps = { b with lines := b.lines ++ texts.toArray }

@[simp] theorem indented_zero (t : String) : indented 0 t = t := by
  rw [indented]
  split <;> simp_all

namespace Writes

theorem nil : Writes k [] [] := ⟨[], rfl, fun _ _ => Builder.Appends.nil⟩

/-- Steps in sequence write their lines in sequence, at the same level. -/
theorem append (h : Writes k steps ls) (h' : Writes k steps' ls') :
    Writes k (steps ++ steps') (ls ++ ls') := by
  obtain ⟨texts, rfl, hrun⟩ := h
  obtain ⟨texts', rfl, hrun'⟩ := h'
  exact ⟨texts ++ texts', by simp, fun b hb => Builder.Appends.append (hrun b hb) (hrun' _ hb)⟩

theorem flatMap {α : Type} {l : List α} {f : α → List Step} {g : α → List String}
    (h : ∀ x ∈ l, Writes k (f x) (g x)) : Writes k (l.flatMap f) (l.flatMap g) := by
  induction l with
  | nil => exact nil
  | cons x l ih =>
    rw [List.forall_mem_cons] at h
    exact h.1.append (ih h.2)

/-- A line that holds line breaks is written as several lines, of which only the first is indented. -/
theorem text (t : String) : Writes k [.line t] (Text.lines (indented k t)) := by
  refine ⟨[indented k t], by simp, fun b hb => ?_⟩
  rw [← hb]
  exact Builder.Appends.line t

theorem oneLine_indented {t : String} (h : OneLine t) : OneLine (indented k t) := by
  rw [indented]
  split
  · decide
  · simpa [OneLine] using h

/-- A text of one line is written indented, as one line. -/
theorem line {t : String} (h : OneLine t) : Writes k [.line t] [indented k t] := by
  have htext := text (k := k) t
  rwa [Text.lines_of_oneLine (oneLine_indented h)] at htext

theorem map_line {ts : List String} (h : ∀ t ∈ ts, OneLine t) :
    Writes k (ts.map .line) (ts.map (indented k)) := by
  rw [List.map_eq_flatMap, List.map_eq_flatMap]
  exact flatMap fun t ht => line (h t ht)

/-- `Code.lines` takes a text apart, so each of its lines is indented. -/
theorem lines (t : String) : Writes k (Code.lines t) ((Text.lines t).map (indented k)) :=
  map_line fun _ => Text.oneLine_of_mem_lines

/-- The steps inside a block with any footer write one level deeper, between header and footer at the level `k`.
-/
theorem openBlock {header footer : String} (hheader : OneLine header) (hfooter : OneLine footer)
    (h : Writes (k + 1) steps ls) :
    Writes k (.openBlock header footer :: steps ++ [.closeBlock])
      (indented k header :: ls ++ [indented k footer]) := by
  obtain ⟨texts, rfl, hrun⟩ := h
  refine ⟨indented k header :: texts ++ [indented k footer], ?_, fun b hb => ?_⟩
  · simp [Text.lines_of_oneLine (oneLine_indented hheader), Text.lines_of_oneLine (oneLine_indented hfooter)]
  · rw [← hb]
    exact Builder.Appends.openBlock (hrun _ (by simp [Builder.step, hb]))

/-- A block of braces, the form that functions have. -/
theorem block {header : String} (hheader : OneLine header) (h : Writes (k + 1) steps ls) :
    Writes k (Code.block header steps) (indented k header :: ls ++ [indented k "\x7d"]) :=
  openBlock hheader (by decide) h

/-- Indented steps without a header, as the cases of a `switch` are written. -/
theorem deeper (h : Writes (k + 1) steps ls) : Writes k (.indent :: steps ++ [.dedent]) ls := by
  obtain ⟨texts, rfl, hrun⟩ := h
  exact ⟨texts, rfl, fun b hb => Builder.Appends.deeper (hrun _ (by simp [Builder.step, hb]))⟩

end Writes

/-- The lines of the text that the steps write. -/
def writtenLines (steps : List Step) : List String := Text.lines (render steps)

theorem writtenLines_eq_flatMap (h : (Builder.run {} steps).lines.toList ≠ []) :
    writtenLines steps = (Builder.run {} steps).lines.toList.flatMap Text.lines :=
  Text.lines_intercalate h

/-- The text that steps write at the first level has the lines they append, as long as there are any: an empty
text has one line. -/
theorem Writes.writtenLines_eq (h : Writes 0 steps ls) (hne : ls ≠ []) : writtenLines steps = ls := by
  obtain ⟨texts, rfl, hrun⟩ := h
  have hlines : (Builder.run {} steps).lines.toList = texts := by simp [hrun {} rfl]
  rw [writtenLines_eq_flatMap, hlines]
  rw [hlines]
  rintro rfl
  exact hne rfl

/-! ## Inner lines -/

/-- The line is empty or begins with a blank. -/
def Inner (l : String) : Prop := ∀ c ∈ l.toList.head?, c = ' '

theorem inner_indented (k : Nat) (t : String) : Inner (indented (k + 1) t) := by
  rw [Inner, indented]
  split
  · simp
  · simp [Nat.mul_add, List.replicate_succ]

/-- Below the first level the steps write inner lines only. -/
def Inside (steps : List Step) : Prop := ∀ k, ∃ ls, Writes (k + 1) steps ls ∧ ∀ l ∈ ls, Inner l

namespace Inside

theorem nil : Inside [] := fun _ => ⟨[], .nil, by simp⟩

theorem append (h : Inside steps) (h' : Inside steps') : Inside (steps ++ steps') := by
  intro k
  obtain ⟨ls, hw, hinner⟩ := h k
  obtain ⟨ls', hw', hinner'⟩ := h' k
  exact ⟨ls ++ ls', hw.append hw', List.forall_mem_append.mpr ⟨hinner, hinner'⟩⟩

theorem flatMap {α : Type} {l : List α} {f : α → List Step} (h : ∀ x ∈ l, Inside (f x)) :
    Inside (l.flatMap f) := by
  induction l with
  | nil => exact nil
  | cons x l ih =>
    rw [List.forall_mem_cons] at h
    exact h.1.append (ih h.2)

theorem flatten {l : List (List Step)} (h : ∀ x ∈ l, Inside x) : Inside l.flatten := by
  simpa [List.flatMap_id] using flatMap (f := id) h

theorem map_line {ts : List String} (h : ∀ t ∈ ts, OneLine t) : Inside (ts.map .line) := by
  intro k
  refine ⟨_, .map_line h, List.forall_mem_map.mpr fun t _ => inner_indented k t⟩

theorem line {t : String} (h : OneLine t) : Inside [.line t] := by
  have hone : Inside ([t].map .line) := map_line (by simpa using h)
  exact hone

theorem cons {t : String} (ht : OneLine t) (h : Inside steps) : Inside (.line t :: steps) :=
  (line ht).append h

theorem lines (t : String) : Inside (Code.lines t) := map_line fun _ => Text.oneLine_of_mem_lines

/-- A block inside a function is made of inner lines: its header, its brace and what lies between. -/
theorem block {header : String} (hheader : OneLine header) (h : Inside steps) :
    Inside (Code.block header steps) := by
  intro k
  obtain ⟨ls, hw, hinner⟩ := h (k + 1)
  refine ⟨_, .block hheader hw, ?_⟩
  simp only [List.cons_append, List.forall_mem_cons, List.forall_mem_append]
  exact ⟨inner_indented k _, hinner, inner_indented k _, by simp⟩

theorem deeper (h : Inside steps) : Inside (.indent :: steps ++ [.dedent]) := by
  intro k
  obtain ⟨ls, hw, hinner⟩ := h (k + 1)
  exact ⟨ls, hw.deeper, hinner⟩

end Inside

end LuaGlue.Code
