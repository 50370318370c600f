import LuaGlue.Text.Name

/-!
# Names that meet in snake case

Snake case maps many names to one: `fooBar` and `foo_bar`, `readURL` and `readUrl`.

- **Plain names** (`isPlain`): words in camel case joined by underscores, as an overload and its suffix are.
- **Their snake case** (`snakeCase_of_isPlain`): every capital is written small after an underscore.
- **When they meet** (`snakeCase_eq_iff`): two plain names have one snake case exactly when they have one
  camel case, in which a capital stands for every underscore and the letter after it.
-/

namespace LuaGlue.Text

/-- No two of the names have the same snake case. -/
def Unambiguous (names : List String) : Prop :=
  ∀ a ∈ names, ∀ b ∈ names, snakeCase a = snakeCase b → a = b

instance (names : List String) : Decidable (Unambiguous names) :=
  inferInstanceAs (Decidable (∀ a ∈ names, ∀ b ∈ names, snakeCase a = snakeCase b → a = b))

/-- Where a character of a name stands. -/
inductive Place where
  | wordStart
  | inWord
  | afterCapital
  deriving DecidableEq

/-- What may follow at a place of a plain name: a word starts with a small letter, and no capital follows
another. -/
def isPlainFrom : Place → List Char → Bool
  | p, [] => p != .wordStart
  | p, c :: cs =>
    if isSmall c then isPlainFrom .inWord cs
    else if isDigit c then p != .wordStart && isPlainFrom .inWord cs
    else if c == '_' then p != .wordStart && isPlainFrom .wordStart cs
    else isCapital c && p == .inWord && isPlainFrom .afterCapital cs

/-- A name of words in camel case joined by underscores. -/
def isPlain (name : String) : Bool := isPlainFrom .wordStart name.toList

/-- The characters with a capital for every underscore and the letter after it. -/
def joinHumps : List Char → List Char
  | '_' :: c :: cs => c.toUpper :: joinHumps cs
  | c :: cs => c :: joinHumps cs
  | [] => []

/-- A plain name in camel case: `insertAny_withIndex` is `insertAnyWithIndex`. -/
def camelCase (name : String) : String := String.ofList (joinHumps name.toList)

/-! ## Characters -/

theorem isCapital_iff {c : Char} : isCapital c ↔ 65 ≤ c.toNat ∧ c.toNat ≤ 90 := by
  simp only [isCapital, Bool.and_eq_true, decide_eq_true_eq, Char.le_def, UInt32.le_iff_toNat_le]
  exact Iff.rfl

theorem isSmall_iff {c : Char} : isSmall c ↔ 97 ≤ c.toNat ∧ c.toNat ≤ 122 := by
  simp only [isSmall, Bool.and_eq_true, decide_eq_true_eq, Char.le_def, UInt32.le_iff_toNat_le]
  exact Iff.rfl

theorem isDigit_iff {c : Char} : isDigit c ↔ 48 ≤ c.toNat ∧ c.toNat ≤ 57 := by
  simp only [isDigit, Bool.and_eq_true, decide_eq_true_eq, Char.le_def, UInt32.le_iff_toNat_le]
  exact Iff.rfl

/-- A capital and its small letter. -/
theorem lowerChar_of_isCapital {c : Char} (h : isCapital c) :
    isSmall (lowerChar c) ∧ (lowerChar c).toUpper = c := by
  have hall : ∀ n < 91, 65 ≤ n →
      isSmall (lowerChar (Char.ofNat n)) ∧ (lowerChar (Char.ofNat n)).toUpper = Char.ofNat n := by
    decide +kernel
  obtain ⟨hfirst, hlast⟩ := isCapital_iff.mp h
  simpa using hall c.toNat (by omega) hfirst

/-- A small letter and its capital. -/
theorem toUpper_of_isSmall {c : Char} (h : isSmall c) : isCapital c.toUpper ∧ lowerChar c.toUpper = c := by
  have hall : ∀ n < 123, 97 ≤ n →
      isCapital (Char.ofNat n).toUpper ∧ lowerChar (Char.ofNat n).toUpper = Char.ofNat n := by
    decide +kernel
  obtain ⟨hfirst, hlast⟩ := isSmall_iff.mp h
  simpa using hall c.toNat (by omega) hfirst

/-- A character that words are made of, but for capitals, or an underscore between words. -/
def isLow (c : Char) : Bool := isSmall c || isDigit c || c == '_'

theorem not_isCapital_of_isLow {c : Char} (h : isLow c) : ¬isCapital c := by
  simp only [isLow, Bool.or_eq_true, beq_iff_eq, isSmall_iff, isDigit_iff] at h
  rw [isCapital_iff]
  rcases h with (h | h) | rfl
  · omega
  · omega
  · decide

theorem toNat_of_isLow {c : Char} (h : isLow c) : c.toNat ≤ 122 := by
  simp only [isLow, Bool.or_eq_true, beq_iff_eq, isSmall_iff, isDigit_iff] at h
  rcases h with (h | h) | rfl
  · omega
  · omega
  · decide

theorem lowerChar_of_isLow {c : Char} (h : isLow c) : lowerChar c = c := by
  have hall : ∀ n < 123, isLow (Char.ofNat n) → lowerChar (Char.ofNat n) = Char.ofNat n := by decide +kernel
  have hlast := toNat_of_isLow h
  simpa using hall c.toNat (by omega) (by simpa using h)

/-- Below the first exceptions of lower case, each character is written small by itself. -/
theorem lowerFrom_cons {before cs : List Char} {c : Char} (h : c.toNat < 128) :
    lowerFrom before (c :: cs) = lowerChar c :: lowerFrom (c :: before) cs := by
  have hsigma : c ≠ 'Σ' := by rintro rfl; exact absurd h (by decide)
  have hdotted : c ≠ 'İ' := by rintro rfl; exact absurd h (by decide)
  simp [lowerFrom, hsigma, hdotted]

/-! ## Plain names -/

/-- The characters that a plain name may go on with, and the place behind each: all of `isPlainFrom` in one
disjunction. -/
theorem isPlainFrom_cons {p : Place} {c : Char} {cs : List Char} (h : isPlainFrom p (c :: cs)) :
    (isSmall c || isDigit c) ∧ isPlainFrom .inWord cs ∨ c = '_' ∧ isPlainFrom .wordStart cs ∨
      isCapital c ∧ p = .inWord ∧ isPlainFrom .afterCapital cs := by
  unfold isPlainFrom at h
  split at h
  · simp_all
  · split at h
    · simp_all
    · split at h <;> simp_all

theorem exists_of_wordStart {cs : List Char} (h : isPlainFrom .wordStart cs) :
    ∃ c rest, cs = c :: rest ∧ isSmall c ∧ isPlainFrom .inWord rest := by
  cases cs with
  | nil => cases h
  | cons c rest =>
    refine ⟨c, rest, rfl, ?_⟩
    unfold isPlainFrom at h
    split at h <;> simp_all

/-- The characters with an underscore before every capital. -/
def breakHumps (cs : List Char) : List Char := cs.flatMap fun c => if isCapital c then ['_', c] else [c]

/-- The characters with every capital written small after an underscore. -/
def snakeChars (cs : List Char) : List Char :=
  cs.flatMap fun c => if isCapital c then ['_', lowerChar c] else [c]

section Cons

variable {c : Char} {cs : List Char}

theorem breakHumps_capital (h : isCapital c) : breakHumps (c :: cs) = '_' :: c :: breakHumps cs := by
  simp [breakHumps, h]

theorem breakHumps_low (h : isLow c) : breakHumps (c :: cs) = c :: breakHumps cs := by
  simp [breakHumps, not_isCapital_of_isLow h]

theorem snakeChars_capital (h : isCapital c) : snakeChars (c :: cs) = '_' :: lowerChar c :: snakeChars cs := by
  simp [snakeChars, h]

theorem snakeChars_low (h : isLow c) : snakeChars (c :: cs) = c :: snakeChars cs := by
  simp [snakeChars, not_isCapital_of_isLow h]

end Cons

theorem isLow_underscore : isLow '_' := by decide

theorem isLow_of_isSmallOrDigit {c : Char} (h : isSmall c || isDigit c) : isLow c := by
  rw [isLow, h, Bool.true_or]

/-! ## Snake case of plain names -/

/-- A plain name has no run of capitals, so the first pass of snake case leaves it as it is. -/
theorem splitRuns_of_isPlainFrom {p : Place} {cs : List Char} (h : isPlainFrom p cs) : splitRuns cs = cs := by
  induction cs generalizing p with
  | nil => rw [splitRuns]
  | cons c cs ih =>
    rw [splitRuns]
    rcases isPlainFrom_cons h with ⟨hc, hcs⟩ | ⟨rfl, hcs⟩ | ⟨hc, -, hcs⟩
    · rw [if_neg (not_isCapital_of_isLow (isLow_of_isSmallOrDigit hc)), ih hcs]
    · rw [if_neg (not_isCapital_of_isLow isLow_underscore), ih hcs]
    · -- the run ends at once, because no capital follows
      have hnext : cs.takeWhile isCapital = [] ∧ cs.dropWhile isCapital = cs := by
        cases cs with
        | nil => exact ⟨rfl, rfl⟩
        | cons d ds =>
          have hd : ¬isCapital d := by
            rcases isPlainFrom_cons hcs with ⟨hd, -⟩ | ⟨rfl, -⟩ | ⟨-, hplace, -⟩
            · exact not_isCapital_of_isLow (isLow_of_isSmallOrDigit hd)
            · decide
            · cases hplace
          simp [hd]
      rw [if_pos hc, hnext.1, hnext.2, ih hcs]
      simp [breakRun]

/-- Every capital of a plain name starts a word, so the second pass is `breakHumps`. -/
theorem splitHumps_of_isPlainFrom {p : Place} {a : Char} {cs : List Char}
    (ha : p = .inWord → isSmall a || isDigit a) (h : isPlainFrom p cs) :
    splitHumps (a :: cs) = a :: breakHumps cs := by
  induction cs generalizing p a with
  | nil => simp [splitHumps, breakHumps]
  | cons c cs ih =>
    rw [splitHumps]
    rcases isPlainFrom_cons h with ⟨hc, hcs⟩ | ⟨rfl, hcs⟩ | ⟨hc, hplace, hcs⟩
    · have hlow := isLow_of_isSmallOrDigit hc
      rw [if_neg (by simp [not_isCapital_of_isLow hlow]), ih (fun _ => hc) hcs, breakHumps_low hlow]
    · rw [if_neg (by simp [not_isCapital_of_isLow isLow_underscore]), ih (by simp) hcs,
        breakHumps_low isLow_underscore]
    · rw [if_pos (by rw [ha hplace, hc]; rfl), ih (by simp) hcs, breakHumps_capital hc]

theorem lowerFrom_low {before cs : List Char} {c : Char} (h : isLow c) :
    lowerFrom before (c :: cs) = c :: lowerFrom (c :: before) cs := by
  have hlast := toNat_of_isLow h
  rw [lowerFrom_cons (by omega), lowerChar_of_isLow h]

/-- Lower case keeps the underscores and makes capitals small, which gives `snakeChars`. By induction along the
plain name. -/
theorem lowerFrom_breakHumps {p : Place} {before cs : List Char} (h : isPlainFrom p cs) :
    lowerFrom before (breakHumps cs) = snakeChars cs := by
  induction cs generalizing p before with
  | nil => rfl
  | cons c cs ih =>
    rcases isPlainFrom_cons h with ⟨hc, hcs⟩ | ⟨rfl, hcs⟩ | ⟨hc, -, hcs⟩
    · have hlow := isLow_of_isSmallOrDigit hc
      rw [breakHumps_low hlow, snakeChars_low hlow, lowerFrom_low hlow, ih hcs]
    · rw [breakHumps_low isLow_underscore, snakeChars_low isLow_underscore, lowerFrom_low isLow_underscore,
        ih hcs]
    · have hlast := (isCapital_iff.mp hc).2
      rw [breakHumps_capital hc, snakeChars_capital hc, lowerFrom_low isLow_underscore,
        lowerFrom_cons (by omega), ih hcs]

/-- **Snake case of plain names.** Every capital is written small after an underscore. -/
theorem snakeCase_of_isPlain {name : String} (h : isPlain name) :
    snakeCase name = String.ofList (snakeChars name.toList) := by
  obtain ⟨c, cs, hname, hc, hcs⟩ := exists_of_wordStart h
  have hlow : isLow c := isLow_of_isSmallOrDigit (by simp [hc])
  have hsplit : splitHumps (c :: cs) = breakHumps (c :: cs) := by
    rw [splitHumps_of_isPlainFrom (fun _ => by simp [hc]) hcs, breakHumps_low hlow]
  rw [isPlain, hname] at h
  rw [snakeCase, hname, splitRuns_of_isPlainFrom h, hsplit, lower, lowerFrom_breakHumps h]

/-! ## When plain names meet -/

theorem joinHumps_cons {c : Char} {cs : List Char} (h : c ≠ '_') : joinHumps (c :: cs) = c :: joinHumps cs := by
  rw [joinHumps]
  intro _ _ hc _
  exact h hc

theorem ne_underscore_of_isSmallOrDigit {c : Char} (h : isSmall c || isDigit c) : c ≠ '_' := by
  rintro rfl
  exact absurd h (by decide)

theorem ne_underscore_of_isCapital {c : Char} (h : isCapital c) : c ≠ '_' := by
  rintro rfl
  exact absurd h (by decide)

/-- Snake case does not change the camel case of a name: each capital becomes an underscore and a letter, which
`joinHumps` puts together again. -/
theorem joinHumps_snakeChars {p : Place} {cs : List Char} (h : isPlainFrom p cs) :
    joinHumps (snakeChars cs) = joinHumps cs := by
  induction cs generalizing p with
  | nil => rfl
  | cons c cs ih =>
    rcases isPlainFrom_cons h with ⟨hc, hcs⟩ | ⟨rfl, hcs⟩ | ⟨hc, -, hcs⟩
    · have hne := ne_underscore_of_isSmallOrDigit hc
      rw [snakeChars_low (isLow_of_isSmallOrDigit hc), joinHumps_cons hne, joinHumps_cons hne, ih hcs]
    · -- the letter after the underscore is taken along, so the hypothesis is used one character on
      obtain ⟨d, ds, rfl, hd, -⟩ := exists_of_wordStart hcs
      have hdigit : isSmall d || isDigit d := by rw [hd, Bool.true_or]
      have hne := ne_underscore_of_isSmallOrDigit hdigit
      have hrest := ih hcs
      rw [snakeChars_low (isLow_of_isSmallOrDigit hdigit), joinHumps_cons hne, joinHumps_cons hne] at hrest
      rw [snakeChars_low isLow_underscore, snakeChars_low (isLow_of_isSmallOrDigit hdigit), joinHumps, joinHumps,
        (List.cons.inj hrest).2]
    · rw [snakeChars_capital hc, joinHumps, (lowerChar_of_isCapital hc).2, ih hcs,
        joinHumps_cons (ne_underscore_of_isCapital hc)]

/-- Camel case does not change the snake case of a name, since a word starts with a small letter and no
underscore is lost. -/
theorem snakeChars_joinHumps {p : Place} {cs : List Char} (h : isPlainFrom p cs) :
    snakeChars (joinHumps cs) = snakeChars cs := by
  induction cs generalizing p with
  | nil => rfl
  | cons c cs ih =>
    rcases isPlainFrom_cons h with ⟨hc, hcs⟩ | ⟨rfl, hcs⟩ | ⟨hc, -, hcs⟩
    · have hlow := isLow_of_isSmallOrDigit hc
      rw [joinHumps_cons (ne_underscore_of_isSmallOrDigit hc), snakeChars_low hlow, snakeChars_low hlow, ih hcs]
    · obtain ⟨d, ds, rfl, hd, -⟩ := exists_of_wordStart hcs
      have hdigit : isSmall d || isDigit d := by rw [hd, Bool.true_or]
      have hlow := isLow_of_isSmallOrDigit hdigit
      have hrest := ih hcs
      rw [joinHumps_cons (ne_underscore_of_isSmallOrDigit hdigit), snakeChars_low hlow, snakeChars_low hlow]
        at hrest
      obtain ⟨hupper, hlower⟩ := toUpper_of_isSmall hd
      rw [joinHumps, snakeChars_capital hupper, hlower, snakeChars_low isLow_underscore, snakeChars_low hlow,
        (List.cons.inj hrest).2]
    · rw [joinHumps_cons (ne_underscore_of_isCapital hc), snakeChars_capital hc, snakeChars_capital hc, ih hcs]

/-- **Plain names that meet.** Two plain names have one snake case exactly when they have one camel case. -/
theorem snakeCase_eq_iff {a b : String} (ha : isPlain a) (hb : isPlain b) :
    snakeCase a = snakeCase b ↔ camelCase a = camelCase b := by
  rw [snakeCase_of_isPlain ha, snakeCase_of_isPlain hb, camelCase, camelCase, String.ofList_inj,
    String.ofList_inj]
  constructor
  · intro h
    rw [← joinHumps_snakeChars ha, ← joinHumps_snakeChars hb, h]
  · intro h
    rw [← snakeChars_joinHumps ha, ← snakeChars_joinHumps hb, h]

example : isPlain "insertAny_withIndex" ∧ camelCase "insertAny_withIndex" = "insertAnyWithIndex" ∧
    snakeCase "insertAny_withIndex" = snakeCase "insertAnyWithIndex" := by
  decide +kernel

theorem unambiguous_iff {names : List String} (h : ∀ n ∈ names, isPlain n) :
    Unambiguous names ↔ ∀ a ∈ names, ∀ b ∈ names, camelCase a = camelCase b → a = b := by
  constructor
  · intro hnames a ha b hb heq
    exact hnames a ha b hb ((snakeCase_eq_iff (h a ha) (h b hb)).mpr heq)
  · intro hnames a ha b hb heq
    exact hnames a ha b hb ((snakeCase_eq_iff (h a ha) (h b hb)).mp heq)

end LuaGlue.Text
