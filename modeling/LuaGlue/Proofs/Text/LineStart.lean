import LuaGlue.Proofs.Text.Lines

/-!
# Words at the start of a line

Texts are read for a word that no line of them may begin with. The reader stands at the start of a line,
inside a line that does not begin with the word, or in between, where what is still missing of the word
is expected (`Cursor`). `Reads` follows it through a text that never begins a line with the word, piece by
piece, so that the lines of a text that is made of many pieces need not be known (`not_prefix_of_reads`).
-/

namespace LuaGlue.Text

/-- Where the reader stands: inside a line that does not begin with the word, or where the line begins with
the word if the rest of it follows. -/
inductive Cursor where
  | inside
  | expects (rest : List Char)
  deriving DecidableEq

variable {word : List Char}

/-- Reads one character; there is no next position when it completes the word. -/
def Cursor.next (word : List Char) (k : Cursor) (c : Char) : Option Cursor :=
  if c = '\n' then some (.expects word)
  else
    match k with
    | .inside => some .inside
    | .expects rest =>
      match rest with
      | [] => some .inside
      | [x] => if c = x then none else some .inside
      | x :: rest => if c = x then some (.expects rest) else some .inside

/-- From the first position the text leads to the second, and no line in it begins with the word. -/
def Reads (word : List Char) (k : Cursor) (s : String) (k' : Cursor) : Prop :=
  s.toList.foldlM (Cursor.next word) k = some k'

namespace Reads

variable {k k' k'' : Cursor} {s t : String}

theorem empty : Reads word k "" k := rfl

/-- A fixed text is run. -/
theorem literal {cs : List Char} (h : cs.foldlM (Cursor.next word) k = some k') :
    Reads word k (String.ofList cs) k' := by
  rw [Reads, String.toList_ofList]
  exact h

theorem append (h : Reads word k s k') (h' : Reads word k' t k'') : Reads word k (s ++ t) k'' := by
  rw [Reads, String.toList_append, List.foldlM_append, h]
  exact h'

theorem join {l : List String} (h : ∀ s ∈ l, Reads word k s k) : Reads word k (String.join l) k := by
  induction l with
  | nil => exact empty
  | cons s l ih =>
    rw [List.forall_mem_cons] at h
    rw [String.join_cons]
    exact h.1.append (ih h.2)

theorem intercalate {sep : String} {l : List String} (hsep : Reads word k sep k)
    (h : ∀ s ∈ l, Reads word k s k) : Reads word k (sep.intercalate l) k := by
  induction l with
  | nil => exact empty
  | cons a l ih =>
    rw [List.forall_mem_cons] at h
    cases l with
    | nil => simpa using h.1
    | cons b l =>
      rw [String.intercalate_cons_of_ne_nil (by simp)]
      exact (h.1.append hsep).append (ih h.2)

/-- A text without line breaks does not leave the line. -/
theorem of_oneLine (h : OneLine s) : Reads word .inside s .inside := by
  rw [OneLine] at h
  rw [Reads]
  generalize s.toList = cs at h
  induction cs with
  | nil => rfl
  | cons c cs ih =>
    rw [List.mem_cons, not_or] at h
    have hnext : Cursor.next word .inside c = some .inside := by simp [Cursor.next, Ne.symm h.1]
    rw [List.foldlM_cons, hnext]
    exact ih h.2

theorem foldlM_inside {cs : List Char} (h : cs.foldlM (Cursor.next word) k = some .inside) :
    cs.foldlM (Cursor.next word) .inside = some .inside := by
  induction cs generalizing k with
  | nil => rfl
  | cons c cs ih =>
    rw [List.foldlM_cons] at h ⊢
    obtain ⟨k', hnext, h⟩ := Option.bind_eq_some_iff.mp h
    by_cases hc : c = '\n'
    · -- past a line break it does not matter where the reader stood
      have hsame : Cursor.next word .inside c = some k' := by rw [← hnext]; simp [Cursor.next, hc]
      rw [hsame]
      exact h
    · have hstay : Cursor.next word .inside c = some .inside := by simp [Cursor.next, hc]
      rw [hstay]
      exact ih h

/-- What may stand at the start of a line may stand inside one. -/
theorem toInside (h : Reads word k s .inside) : Reads word .inside s .inside := foldlM_inside h

end Reads

/-- Reading from a position gives lines that do not begin with the word, and a first line that does not
complete it. -/
theorem exists_splitLines_of_foldlM {k k' : Cursor} {cs : List Char}
    (h : cs.foldlM (Cursor.next word) k = some k') (hword : word ≠ []) :
    ∃ line rest, splitLines cs = line :: rest ∧ (∀ l ∈ rest, ¬word <+: l) ∧
      ∀ w, k = .expects w → w ≠ [] → ¬w <+: line := by
  induction cs generalizing k with
  | nil => exact ⟨[], [], rfl, by simp, fun w _ hw hprefix => hw (List.prefix_nil.mp hprefix)⟩
  | cons c cs ih =>
    rw [List.foldlM_cons] at h
    obtain ⟨mid, hnext, h⟩ := Option.bind_eq_some_iff.mp h
    obtain ⟨line, rest, hsplit, hrest, hline⟩ := ih h
    by_cases hc : c = '\n'
    · have hmid : mid = .expects word := by simpa [Cursor.next, hc] using hnext.symm
      refine ⟨[], line :: rest, by simp [splitLines, hc, hsplit], ?_, ?_⟩
      · exact List.forall_mem_cons.mpr ⟨hline word hmid hword, hrest⟩
      · exact fun w _ hw hprefix => hw (List.prefix_nil.mp hprefix)
    · refine ⟨c :: line, rest, splitLines_cons_of_ne hc hsplit, hrest, fun w hk hw hprefix => ?_⟩
      obtain ⟨x, w, rfl⟩ := List.exists_cons_of_ne_nil hw
      obtain ⟨rfl, htail⟩ := List.cons_prefix_cons.mp hprefix
      -- the character is the expected one, so the rest of the word is expected next
      cases w with
      | nil => simp [Cursor.next, hk, hc] at hnext
      | cons y w =>
        have hmid : mid = .expects (y :: w) := by simpa [Cursor.next, hk, hc] using hnext.symm
        exact hline _ hmid (by simp) htail

/-- No line begins with the word, if the text can be read from the start of a line. -/
theorem not_prefix_of_reads {k : Cursor} {s : String} (h : Reads word (.expects word) s k)
    (hword : word ≠ []) : ∀ l ∈ lines s, ¬word <+: l.toList := by
  obtain ⟨line, rest, hsplit, hrest, hline⟩ := exists_splitLines_of_foldlM h hword
  intro l hl
  rw [lines, hsplit, List.mem_map] at hl
  obtain ⟨cs, hcs, rfl⟩ := hl
  rw [String.toList_ofList]
  rcases List.mem_cons.mp hcs with rfl | hcs
  · exact hline word rfl hword
  · exact hrest cs hcs

end LuaGlue.Text
