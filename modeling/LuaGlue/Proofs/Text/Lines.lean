import LuaGlue.Text.Lines
import LuaGlue.Text.Name
import Mathlib.Data.List.Basic

/-!
# Lines of a text

- **Texts of one line** (`OneLine`): joining texts and taking names into snake case or making identifiers of
  them brings in no line break.
- **Splitting** (`lines_append_break`, `lines_intercalate`): the lines of a text that is joined by line breaks
  are those of its parts.
-/

namespace LuaGlue.Text

/-! ## Texts of one line -/

/-- The text holds no line break. -/
def OneLine (s : String) : Prop := '\n' ∉ s.toList

instance : DecidablePred OneLine := fun s => inferInstanceAs (Decidable ('\n' ∉ s.toList))

theorem OneLine.literal {cs : List Char} (h : '\n' ∉ cs) : OneLine (String.ofList cs) := by
  simpa [OneLine] using h

@[simp] theorem oneLine_append {a b : String} : OneLine (a ++ b) ↔ OneLine a ∧ OneLine b := by
  simp [OneLine]

theorem oneLine_intercalate {sep : String} {l : List String} (hsep : OneLine sep)
    (h : ∀ s ∈ l, OneLine s) : OneLine (sep.intercalate l) := by
  induction l with
  | nil => simp [OneLine]
  | cons a l ih =>
    rw [List.forall_mem_cons] at h
    cases l with
    | nil => simpa using h.1
    | cons b l =>
      rw [String.intercalate_cons_of_ne_nil (by simp)]
      simp only [oneLine_append]
      exact ⟨⟨h.1, hsep⟩, ih h.2⟩

theorem oneLine_toString (n : Nat) : OneLine (toString n) := by
  intro h
  rw [Nat.toString_eq_repr, Nat.toList_repr] at h
  have hdigit := Nat.isDigit_of_mem_toDigits (by decide) (by decide) h
  exact absurd hdigit (by decide)

theorem oneLine_toString_int (i : Int) : OneLine (toString i) := by
  cases i with
  | ofNat n => exact oneLine_toString n
  | negSucc n =>
    have hsigned : OneLine ("-" ++ toString (n + 1)) := oneLine_append.mpr ⟨by decide, oneLine_toString _⟩
    exact hsigned

/-! ## Names -/

theorem mem_breakRun {c : Char} {run rest : List Char} (h : c ∈ breakRun run rest) : c ∈ run ∨ c = '_' := by
  rw [breakRun] at h
  split at h
  · rcases List.mem_append.mp h with h | h
    · exact .inl (List.dropLast_subset _ h)
    · rcases List.mem_cons.mp h with rfl | h
      · exact .inr rfl
      · exact .inl (List.mem_of_mem_drop h)
  · exact .inl h

/-- The passes of snake case bring in underscores and no other character. -/
theorem mem_splitRuns {c : Char} {cs : List Char} (h : c ∈ splitRuns cs) : c ∈ cs ∨ c = '_' := by
  fun_induction splitRuns cs with
  | case1 => exact .inl h
  | case2 d cs hd ih =>
    rcases List.mem_append.mp h with h | h
    · rcases mem_breakRun h with h | h
      · rcases List.mem_cons.mp h with rfl | h
        · simp
        · exact .inl (List.mem_cons_of_mem _ ((List.takeWhile_sublist _).subset h))
      · exact .inr h
    · rcases ih h with h | h
      · exact .inl (List.mem_cons_of_mem _ ((List.dropWhile_sublist _).subset h))
      · exact .inr h
  | case3 d cs hd ih =>
    rcases List.mem_cons.mp h with rfl | h
    · simp
    · rcases ih h with h | h
      · exact .inl (List.mem_cons_of_mem _ h)
      · exact .inr h

theorem mem_splitHumps {c : Char} {cs : List Char} (h : c ∈ splitHumps cs) : c ∈ cs ∨ c = '_' := by
  fun_induction splitHumps cs with
  | case1 a b rest _ ih => grind
  | case2 a b rest _ ih => grind
  | case3 cs => exact .inl h

/-- No capital has the line break for its small letter: the runs of capitals that shift downwards do not come
that far. -/
theorem lowerChar_ne_break {c : Char} (hc : c ≠ '\n') : lowerChar c ≠ '\n' := by
  have hruns : ∀ r ∈ capitalRuns, (10 : Int) < r.first + r.shift := by decide +kernel
  rw [lowerChar]
  split
  · rename_i r hr
    have hmem := hruns r (List.mem_of_find?_eq_some hr)
    have hfirst := List.find?_some hr
    simp only [Bool.and_eq_true, decide_eq_true_eq] at hfirst
    intro heq
    by_cases hvalid : (c.toNat + r.shift).toNat.isValidChar
    · have hchar : Char.ofNat (c.toNat + r.shift).toNat = Char.ofNatAux _ hvalid := dif_pos hvalid
      have hnat : (c.toNat + r.shift).toNat = 10 := congrArg Char.toNat (hchar.symm.trans heq)
      omega
    · have hchar : Char.ofNat (c.toNat + r.shift).toNat = '\x00' := dif_neg hvalid
      exact absurd (hchar.symm.trans heq) (by decide)
  · exact hc

theorem break_notMem_lowerFrom {before cs : List Char} (h : '\n' ∉ cs) : '\n' ∉ lowerFrom before cs := by
  induction cs generalizing before with
  | nil => simp [lowerFrom]
  | cons c cs ih =>
    rw [List.mem_cons, not_or] at h
    rw [lowerFrom]
    rw [List.mem_append, not_or]
    refine ⟨?_, ih h.2⟩
    have hc := (lowerChar_ne_break (Ne.symm h.1)).symm
    split
    · split <;> decide
    · split
      · decide
      · simpa using hc

/-- Snake case splits words and lowers characters, and neither brings in a line break. -/
theorem oneLine_snakeCase {name : String} (h : OneLine name) : OneLine (snakeCase name) := by
  have hchars : '\n' ∉ splitHumps (splitRuns name.toList) := by
    intro hmem
    rcases mem_splitHumps hmem with hmem | hmem
    · rcases mem_splitRuns hmem with hmem | hmem
      · exact h hmem
      · exact absurd hmem (by decide)
    · exact absurd hmem (by decide)
  simpa [OneLine, snakeCase, lower] using break_notMem_lowerFrom hchars

theorem mem_joinWords {c : Char} {gap : Bool} {cs : List Char} (h : c ∈ joinWords gap cs) :
    c ∈ cs ∨ c = '_' := by
  fun_induction joinWords gap cs <;> grind

theorem oneLine_identifier {name : String} (h : OneLine name) : OneLine (identifier name) := by
  intro hmem
  rw [identifier, String.toList_ofList, trimUnderscores, List.mem_reverse] at hmem
  have hjoined := (List.dropWhile_sublist _).subset
    (List.mem_reverse.mp ((List.dropWhile_sublist _).subset hmem))
  rcases mem_joinWords hjoined with hmem | hmem
  · exact h hmem
  · exact absurd hmem (by decide)

/-! ## Splitting -/

theorem splitLines_ne_nil (cs : List Char) : splitLines cs ≠ [] := by
  cases cs with
  | nil => simp [splitLines]
  | cons c cs =>
    rw [splitLines]
    split
    · simp
    · split <;> simp

theorem splitLines_cons_of_ne {c : Char} {cs line : List Char} {rest : List (List Char)} (hc : c ≠ '\n')
    (h : splitLines cs = line :: rest) : splitLines (c :: cs) = (c :: line) :: rest := by
  simp [splitLines, hc, h]

theorem splitLines_of_notMem {cs : List Char} (h : '\n' ∉ cs) : splitLines cs = [cs] := by
  induction cs with
  | nil => rfl
  | cons c cs ih =>
    rw [List.mem_cons, not_or] at h
    exact splitLines_cons_of_ne (Ne.symm h.1) (ih h.2)

/-- A line break ends the lines of what stands before it, by induction over the characters before it. -/
theorem splitLines_append_break (a b : List Char) :
    splitLines (a ++ '\n' :: b) = splitLines a ++ splitLines b := by
  induction a with
  | nil => simp [splitLines]
  | cons c a ih =>
    by_cases hc : c = '\n'
    · subst hc
      simp [splitLines, ih]
    · obtain ⟨line, rest, ha⟩ := List.exists_cons_of_ne_nil (splitLines_ne_nil a)
      rw [ha, List.cons_append] at ih
      rw [splitLines_cons_of_ne hc ha, List.cons_append, splitLines_cons_of_ne hc ih]
      rfl

theorem notMem_of_mem_splitLines {cs line : List Char} (h : line ∈ splitLines cs) : '\n' ∉ line := by
  induction cs generalizing line with
  | nil => simp_all [splitLines]
  | cons c cs ih =>
    by_cases hc : c = '\n'
    · subst hc
      simp only [splitLines, beq_self_eq_true, if_true, List.mem_cons] at h
      rcases h with rfl | h
      · simp
      · exact ih h
    · obtain ⟨first, rest, hcs⟩ := List.exists_cons_of_ne_nil (splitLines_ne_nil cs)
      rw [splitLines_cons_of_ne hc hcs, List.mem_cons] at h
      rcases h with rfl | h
      · rw [List.mem_cons, not_or]
        exact ⟨Ne.symm hc, ih (by simp [hcs])⟩
      · exact ih (by simp [hcs, h])

theorem lines_of_oneLine {s : String} (h : OneLine s) : lines s = [s] := by
  simp [lines, splitLines_of_notMem h]

theorem lines_append_break (a b : String) : lines (a ++ "\n" ++ b) = lines a ++ lines b := by
  have hlists : (a ++ "\n" ++ b).toList = a.toList ++ '\n' :: b.toList := by simp
  rw [lines, hlists, splitLines_append_break, List.map_append]
  rfl

theorem oneLine_of_mem_lines {s line : String} (h : line ∈ lines s) : OneLine line := by
  obtain ⟨cs, hcs, rfl⟩ := List.mem_map.mp h
  simpa [OneLine] using notMem_of_mem_splitLines hcs

/-- Texts joined by line breaks have the lines of all of them. Joining no texts gives the empty text, which has
one line, so the list is not empty. -/
theorem lines_intercalate {ls : List String} (h : ls ≠ []) :
    lines ("\n".intercalate ls) = ls.flatMap lines := by
  induction ls with
  | nil => exact absurd rfl h
  | cons a ls ih =>
    cases ls with
    | nil => simp
    | cons b ls =>
      rw [String.intercalate_cons_of_ne_nil (by simp), lines_append_break, ih (by simp)]
      rfl

end LuaGlue.Text
