import LuaGlue.Proofs.Text.Lines

/-!
# Nested brackets

A text is nested when each bracket in it is closed by one of its kind, inside the brackets around it.

- **Reading** (`scan`): a reader keeps the brackets that are open, innermost first, and gives up at a closing
  bracket of another kind. Only the brackets of a text matter (`marks`).
- **Inserting** (`Nested.scan_eq`): a nested text leaves the reader where it was, so it may stand anywhere in
  another text.
- **Made of pieces** (`Leads`): fixed texts are read as they are, and nested ones are passed over.
- **Names** (`nested_snakeCase`, `nested_identifier`): snake case keeps the brackets of a name, and an
  identifier has none.
-/

namespace LuaGlue.Text

/-! ## Reading -/

inductive Bracket where
  | round
  | square
  | curly
  deriving DecidableEq, Repr

/-- A bracket in a text. -/
inductive Mark where
  | opening (b : Bracket)
  | closing (b : Bracket)
  deriving DecidableEq, Repr

def mark? : Char → Option Mark
  | '(' => some (.opening .round)
  | ')' => some (.closing .round)
  | '[' => some (.opening .square)
  | ']' => some (.closing .square)
  | '\x7b' => some (.opening .curly)
  | '\x7d' => some (.closing .curly)
  | _ => none

/-- The brackets of a text. -/
def marks (cs : List Char) : List Mark := cs.filterMap mark?

/-- The brackets that are open, innermost first; none after a bracket that closes no open one. -/
abbrev Pending := Option (List Bracket)

/-- What is open after a bracket. -/
def Pending.after (k : Pending) : Mark → Pending
  | .opening b => k.map (b :: ·)
  | .closing b => k.bind fun
    | [] => none
    | b' :: rest => if b = b' then some rest else none

/-- What is open after the text. -/
def scan (s : String) (k : Pending) : Pending := (marks s.toList).foldl Pending.after k

/-- Every bracket in the text is closed in it. -/
def Nested (s : String) : Prop := scan s (some []) = some []

instance : DecidablePred Nested := fun s => inferInstanceAs (Decidable (scan s (some []) = some []))

@[simp] theorem marks_nil : marks [] = [] := rfl

@[simp] theorem marks_append (a b : List Char) : marks (a ++ b) = marks a ++ marks b := List.filterMap_append

theorem marks_cons (c : Char) (cs : List Char) : marks (c :: cs) = (mark? c).toList ++ marks cs := by
  cases h : mark? c <;> simp [marks, h]

/-- The reader goes on where it stopped: texts in sequence are read in sequence. -/
@[simp] theorem scan_append (a b : String) (k : Pending) : scan (a ++ b) k = scan b (scan a k) := by
  simp [scan, List.foldl_append]

theorem scan_ofList (cs : List Char) (k : Pending) :
    scan (String.ofList cs) k = (marks cs).foldl Pending.after k := by
  simp [scan]

/-! ## Inserting -/

theorem foldl_after_none (ms : List Mark) : ms.foldl Pending.after none = none := by
  induction ms with
  | nil => rfl
  | cons m ms ih => cases m <;> exact ih

/-- What is open around a text is not touched as long as the text closes its own brackets: the reader never
looks below what it opened itself. -/
theorem foldl_after_append {ms : List Mark} {inner inner' : List Bracket} (outer : List Bracket)
    (h : ms.foldl Pending.after (some inner) = some inner') :
    ms.foldl Pending.after (some (inner ++ outer)) = some (inner' ++ outer) := by
  induction ms generalizing inner with
  | nil =>
    cases h
    rfl
  | cons m ms ih =>
    cases m with
    | opening b => exact ih h
    | closing b =>
      cases inner with
      | nil => rw [List.foldl_cons, show Pending.after (some []) (.closing b) = none from rfl,
          foldl_after_none] at h; cases h
      | cons b' rest =>
        by_cases hb : b = b'
        · simp only [List.foldl_cons, Pending.after, Option.bind_some, hb, if_true, List.cons_append] at h ⊢
          exact ih h
        · simp only [List.foldl_cons, Pending.after, Option.bind_some, hb, if_false] at h
          rw [foldl_after_none] at h
          cases h

theorem foldl_after_eq {ms : List Mark} (h : ms.foldl Pending.after (some []) = some []) (k : Pending) :
    ms.foldl Pending.after k = k := by
  cases k with
  | none => exact foldl_after_none ms
  | some outer => exact foldl_after_append outer h

/-- **A nested text may stand anywhere.** It leaves the reader with the brackets that were open before it,
whatever they are. -/
theorem Nested.scan_eq {s : String} (h : Nested s) (k : Pending) : scan s k = k := foldl_after_eq h k

/-! ## Made of pieces -/

/-- From what is open in front of it, the text leads to what is open behind it. -/
def Leads (s : String) (k k' : Pending) : Prop := scan s k = k'

variable {s t : String} {cs : List Char} {k k' k'' : Pending}

namespace Leads

/-- A fixed text is read, which `rfl` or `decide` evaluates when the text is given. -/
theorem literal : Leads (String.ofList cs) k ((marks cs).foldl Pending.after k) := scan_ofList cs k

theorem append (h : Leads s k k') (h' : Leads t k' k'') : Leads (s ++ t) k k'' := by
  rw [Leads, scan_append, h]
  exact h'

/-- A fixed text behind others. Proofs chain `text` and `insert` in the order in which a rule writes. -/
theorem text (h : Leads s k k') : Leads (s ++ String.ofList cs) k ((marks cs).foldl Pending.after k') :=
  h.append literal

/-- A nested text leads back to where it starts. -/
theorem of_nested (h : Nested s) : Leads s k k := h.scan_eq k

/-- A nested text behind others leaves open what they left open. -/
theorem insert (h : Leads s k k') (ht : Nested t) : Leads (s ++ t) k k' := h.append (of_nested ht)

theorem nested (h : Leads s (some []) k) (hk : k = some []) : Nested s := Eq.trans h hk

theorem trans (h : Leads s k k') (hk : k' = k'') : Leads s k k'' := Eq.trans h hk

end Leads

namespace Nested

theorem literal (h : (marks cs).foldl Pending.after (some []) = some []) : Nested (String.ofList cs) :=
  Leads.literal.nested h

theorem append (h : Nested s) (h' : Nested t) : Nested (s ++ t) := ((Leads.of_nested h).insert h').nested rfl

theorem join {l : List String} (h : ∀ s ∈ l, Nested s) : Nested (String.join l) := by
  induction l with
  | nil => rfl
  | cons s l ih =>
    rw [List.forall_mem_cons] at h
    rw [String.join_cons]
    exact h.1.append (ih h.2)

/-- Nested texts with a nested one between them, by induction over the list. -/
theorem intercalate {sep : String} {l : List String} (hsep : Nested sep) (h : ∀ s ∈ l, Nested s) :
    Nested (sep.intercalate l) := by
  induction l with
  | nil => rfl
  | cons a l ih =>
    rw [List.forall_mem_cons] at h
    cases l with
    | nil => simpa using h.1
    | cons b l =>
      rw [String.intercalate_cons_of_ne_nil (by simp)]
      exact (h.1.append hsep).append (ih h.2)

/-- A text without brackets, such as a name or a number. -/
theorem of_marks (h : marks s.toList = []) : Nested s := by
  rw [Nested, scan, h]
  rfl

end Nested

/-! ## Numbers and names -/

theorem marks_eq_nil {cs : List Char} (h : ∀ c ∈ cs, mark? c = none) : marks cs = [] :=
  List.filterMap_eq_nil_iff.mpr h

/-- A test that the six brackets pass is passed by every character with a mark. So a statement about brackets
needs six evaluations. -/
theorem test_of_mark? {c : Char} (p : Char → Bool) (hp : ['(', ')', '[', ']', '\x7b', '\x7d'].all p)
    (h : mark? c ≠ none) : p c := by
  unfold mark? at h
  split at h
  all_goals simp_all

theorem nested_toString (n : Nat) : Nested (toString n) := by
  refine .of_marks (marks_eq_nil fun c hc => ?_)
  rw [Nat.toString_eq_repr, Nat.toList_repr] at hc
  have hdigit := Nat.isDigit_of_mem_toDigits (by decide) (by decide) hc
  by_contra hmark
  have hbracket := test_of_mark? (fun b => !b.isDigit) (by decide) hmark
  simp [hdigit] at hbracket

theorem nested_toString_int (i : Int) : Nested (toString i) := by
  cases i with
  | ofNat n => exact nested_toString n
  | negSucc n =>
    have hsigned : Nested ("-" ++ toString (n + 1)) := (Nested.literal (by decide)).append (nested_toString _)
    exact hsigned

/-- Snake case works on runs of capitals. Breaking one inserts an underscore, which is no bracket. -/
theorem marks_breakRun (run rest : List Char) : marks (breakRun run rest) = marks run := by
  rw [breakRun]
  split
  · have hsplit : run.dropLast ++ run.drop (run.length - 1) = run := by
      rw [List.dropLast_eq_take, List.take_append_drop]
    rw [marks_append, marks_cons]
    conv_rhs => rw [← hsplit, marks_append]
    rfl
  · rfl

theorem marks_splitRuns (cs : List Char) : marks (splitRuns cs) = marks cs := by
  fun_induction splitRuns cs with
  | case1 => rfl
  | case2 c cs _ ih =>
    rw [marks_append, marks_breakRun, ih, ← marks_append, List.cons_append, List.takeWhile_append_dropWhile]
  | case3 c cs _ ih => rw [marks_cons, ih, ← marks_cons]

theorem marks_splitHumps (cs : List Char) : marks (splitHumps cs) = marks cs := by
  fun_induction splitHumps cs with
  | case1 a b rest _ ih =>
    rw [marks_cons, marks_cons, ih, marks_cons a]
    rfl
  | case2 a b rest _ ih => rw [marks_cons, ih, ← marks_cons]
  | case3 cs => rfl

/-- No bracket is a capital, and none is the small letter of one. -/
theorem mark?_lowerChar (c : Char) : mark? (lowerChar c) = mark? c := by
  -- no run of capitals, and no run of their small letters, reaches the code of a bracket
  have hruns : ∀ r ∈ capitalRuns, ∀ n ∈ [40, 41, 91, 93, 123, 125],
      ¬(r.first ≤ n ∧ n ≤ r.last) ∧ ¬((r.first : Int) + r.shift ≤ n ∧ (n : Int) ≤ r.last + r.shift) := by
    decide +kernel
  have hcodes {d : Char} (hd : mark? d ≠ none) : d.toNat ∈ [40, 41, 91, 93, 123, 125] := by
    have hall := test_of_mark? (fun b => [40, 41, 91, 93, 123, 125].contains b.toNat) (by decide) hd
    exact List.contains_iff_mem.mp hall
  rw [lowerChar]
  split
  · rename_i r hr
    have hmem := List.mem_of_find?_eq_some hr
    have hrange := List.find?_some hr
    simp only [Bool.and_eq_true, decide_eq_true_eq] at hrange
    have hcapital : mark? c = none := by
      by_contra hmark
      exact (hruns r hmem _ (hcodes hmark)).1 hrange.1
    rw [hcapital]
    by_contra hmark
    by_cases hvalid : (c.toNat + r.shift).toNat.isValidChar
    · have hchar : Char.ofNat (c.toNat + r.shift).toNat = Char.ofNatAux _ hvalid := dif_pos hvalid
      rw [hchar] at hmark
      have hcode : (c.toNat + r.shift).toNat ∈ [40, 41, 91, 93, 123, 125] := hcodes hmark
      have hpositive : ∀ n ∈ [40, 41, 91, 93, 123, 125], 0 < n := by decide
      have hbound := hpositive _ hcode
      apply (hruns r hmem _ hcode).2
      omega
    · have hchar : Char.ofNat (c.toNat + r.shift).toNat = '\x00' := dif_neg hvalid
      rw [hchar] at hmark
      exact hmark rfl
  · rfl

/-- Lowering looks at the characters around each one, but gives one character for one, and brackets for brackets
alone. -/
theorem marks_lowerFrom (before cs : List Char) : marks (lowerFrom before cs) = marks cs := by
  induction cs generalizing before with
  | nil => rfl
  | cons c cs ih =>
    rw [lowerFrom, marks_append, ih, marks_cons]
    congr 1
    split
    · rename_i hc
      rw [beq_iff_eq.mp hc]
      split <;> rfl
    · split
      · rename_i hc
        rw [beq_iff_eq.mp hc]
        rfl
      · rw [marks_cons, mark?_lowerChar, marks_nil, List.append_nil]

/-- Snake case keeps the brackets of a name: each of its passes keeps `marks`. -/
theorem nested_snakeCase {name : String} (h : Nested name) : Nested (snakeCase name) := by
  have hmarks : marks (snakeCase name).toList = marks name.toList := by
    rw [snakeCase, String.toList_ofList, lower, marks_lowerFrom, marks_splitHumps, marks_splitRuns]
  rw [Nested, scan, hmarks]
  exact h

theorem isWord_of_mem_joinWords {c : Char} {gap : Bool} {cs : List Char} (h : c ∈ joinWords gap cs) :
    isWord c ∨ c = '_' := by
  fun_induction joinWords gap cs <;> grind

/-- An identifier has no brackets, whatever the text that it is made from. -/
theorem nested_identifier (name : String) : Nested (identifier name) := by
  refine .of_marks (marks_eq_nil fun c hc => ?_)
  rw [identifier, String.toList_ofList, trimUnderscores, List.mem_reverse] at hc
  have hjoined := (List.dropWhile_sublist _).subset
    (List.mem_reverse.mp ((List.dropWhile_sublist _).subset hc))
  by_contra hmark
  have hbracket := test_of_mark? (fun b => !isWord b && b != '_') (by decide +kernel) hmark
  rcases isWord_of_mem_joinWords hjoined with hword | hline
  · simp [hword] at hbracket
  · simp [hline] at hbracket

/-! ## Lines -/

/-- Line breaks are no brackets, so the lines of a text have its brackets in order. -/
theorem marks_splitLines (cs : List Char) : (splitLines cs).flatMap marks = marks cs := by
  induction cs with
  | nil => rfl
  | cons c cs ih =>
    obtain ⟨line, rest, hcs⟩ := List.exists_cons_of_ne_nil (splitLines_ne_nil cs)
    rw [hcs, List.flatMap_cons] at ih
    by_cases hc : c = '\n'
    · subst hc
      simp [splitLines, hcs, ih, marks_cons]
      rfl
    · rw [splitLines_cons_of_ne hc hcs, List.flatMap_cons, marks_cons, marks_cons, List.append_assoc, ih]

theorem marks_intercalate_break (l : List String) :
    marks ("\n".intercalate l).toList = l.flatMap fun t => marks t.toList := by
  induction l with
  | nil => rfl
  | cons a l ih =>
    cases l with
    | nil => simp
    | cons b l =>
      rw [String.intercalate_cons_of_ne_nil (by simp), List.flatMap_cons, ← ih]
      simp only [String.toList_append, marks_append]
      rw [show marks "\n".toList = [] from rfl, List.append_nil]

namespace Leads

/-- A line in front of others, which are read from where the line leads. -/
theorem lines_cons {l : List String} (h : Leads s k k') (h' : Leads ("\n".intercalate l) k' k'') :
    Leads ("\n".intercalate (s :: l)) k k'' := by
  rw [Leads, scan, marks_intercalate_break] at h' ⊢
  rw [Leads, scan] at h
  rw [List.flatMap_cons, List.foldl_append, h, h']

theorem lines_singleton (h : Leads s k k') : Leads ("\n".intercalate [s]) k k' := lines_cons h rfl

/-- Nested lines in front of others change nothing for them. -/
theorem lines_append {l l' : List String} (hl : ∀ s ∈ l, Nested s)
    (h : Leads ("\n".intercalate l') k k') : Leads ("\n".intercalate (l ++ l')) k k' := by
  induction l with
  | nil => exact h
  | cons s l ih =>
    rw [List.forall_mem_cons] at hl
    exact lines_cons (of_nested hl.1) (ih hl.2)

end Leads

end LuaGlue.Text
