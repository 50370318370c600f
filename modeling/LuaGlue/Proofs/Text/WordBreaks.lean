import LuaGlue.Proofs.Text.Lines
import LuaGlue.Proofs.Text.SnakeCase
import Mathlib.Data.List.TakeWhile

/-!
# Word breaks in snake case

Snake case separates the words of a name in two passes and then writes them small.

- **The local rule** (`breaksAfter`): whether a word ends at a position is seen from the character there and
  the two after it. Both passes together break a name at exactly these positions
  (`splitHumps_splitRuns`).
- **Lower case** (`Settled`): what is written in lower case stays as it is when it is written in lower case
  again, in every script (`settled_of_mem_lowerFrom`, `lowerFrom_of_settled`).
- **Snake case** (`snakeCase_breaks`): the local rule, then lower case. A name in snake case is its own
  snake case.
-/

namespace LuaGlue.Text

/-- A word ends at position `i`: a capital follows a small letter or digit, or two capitals are the last
of one word and the first of the next. -/
def breaksAfter (cs : List Char) (i : Nat) : Bool :=
  (cs[i]?.any fun c => isSmall c || isDigit c) && cs[i + 1]?.any isCapital
    || cs[i]?.any isCapital && cs[i + 1]?.any isCapital && cs[i + 2]?.any isSmall

/-- The characters with an underscore after each position where a word ends. -/
def breakWords (cs : List Char) : List Char :=
  (cs.mapIdx fun i c => if breaksAfter cs i then [c, '_'] else [c]).flatten

/-- The local rule at the first position, and the rest by itself: positions are seen from the characters behind
them only. -/
theorem breakWords_cons (c : Char) (cs : List Char) :
    breakWords (c :: cs) = (if breaksAfter (c :: cs) 0 then [c, '_'] else [c]) ++ breakWords cs := by
  simp [breakWords, breaksAfter, List.mapIdx_cons]

/-! ## The two passes -/

theorem splitHumps_cons (c : Char) (cs : List Char) :
    splitHumps (c :: cs) =
      (if (isSmall c || isDigit c) && cs.head?.any isCapital then [c, '_'] else [c]) ++ splitHumps cs := by
  cases cs with
  | nil => simp [splitHumps]
  | cons b rest =>
    rw [splitHumps, List.head?_cons, Option.any_some]
    split <;> rfl

/-- No hump ends in a character that is neither small nor a digit, so there the second pass may be taken apart.
-/
theorem splitHumps_append {front : List Char} (h : ∀ c ∈ front, ¬(isSmall c || isDigit c)) (cs : List Char) :
    splitHumps (front ++ cs) = front ++ splitHumps cs := by
  induction front with
  | nil => rfl
  | cons c front ih =>
    have hc : (isSmall c || isDigit c) = false := by simpa using h c List.mem_cons_self
    rw [List.cons_append, splitHumps_cons, hc, ih fun d hd => h d (List.mem_cons_of_mem c hd)]
    rfl

theorem not_isSmallOrDigit_of_isCapital {c : Char} (h : isCapital c) : ¬(isSmall c || isDigit c) :=
  fun hc => not_isCapital_of_isLow (isLow_of_isSmallOrDigit hc) h

/-- At a capital only the second half of the rule can hold, that for the end of a run. -/
theorem breaksAfter_capital {c : Char} (h : isCapital c) (cs : List Char) :
    breaksAfter (c :: cs) 0 = (cs.head?.any isCapital && cs[1]?.any isSmall) := by
  have hlow : (isSmall c || isDigit c) = false := by simpa using not_isSmallOrDigit_of_isCapital h
  simp [breaksAfter, h, hlow, List.head?_eq_getElem?]

/-- At any other character only the first half can hold, that for the end of a hump. -/
theorem breaksAfter_other {c : Char} (h : ¬isCapital c) (cs : List Char) :
    breaksAfter (c :: cs) 0 = ((isSmall c || isDigit c) && cs.head?.any isCapital) := by
  simp [breaksAfter, h, List.head?_eq_getElem?]

/-- The first pass breaks a run before its last capital, if it has more than one and a small letter follows. -/
theorem breakRun_snoc (front rest : List Char) (c : Char) :
    breakRun (front ++ [c]) rest =
      front ++ if !front.isEmpty && rest.head?.any isSmall then ['_', c] else [c] := by
  cases front with
  | nil => simp [breakRun]
  | cons d front =>
    have hlast : (d :: front ++ [c]).length - 1 = (d :: front).length := by simp
    rw [breakRun, hlast, List.dropLast_concat, List.drop_left]
    cases rest.head?.any isSmall <;> simp

/-- A run of capitals breaks before its last one, if a small letter follows. By induction over the run, this is
what `breakRun` does. -/
theorem breakWords_run {c : Char} {front rest : List Char} (hfront : ∀ d ∈ front, isCapital d)
    (hc : isCapital c) (hrest : ¬rest.head?.any isCapital) :
    breakWords (front ++ c :: rest) = breakRun (front ++ [c]) rest ++ breakWords rest := by
  induction front with
  | nil =>
    rw [List.nil_append, breakWords_cons, breaksAfter_capital hc]
    simp [hrest, breakRun]
  | cons d front ih =>
    obtain ⟨hd, hfront⟩ := List.forall_mem_cons.mp hfront
    rw [List.cons_append, breakWords_cons, breaksAfter_capital hd, ih hfront, breakRun_snoc, breakRun_snoc]
    cases front with
    | nil => cases h : rest.head?.any isSmall <;> simp_all [List.head?_eq_getElem?]
    | cons e front =>
      -- the character after the next one is still in the run
      have hsecond : (e :: front ++ c :: rest)[1]?.any isSmall = false := by
        obtain ⟨x, hx, hcapital⟩ : ∃ x, (front ++ c :: rest)[0]? = some x ∧ isCapital x := by
          cases front with
          | nil => exact ⟨c, rfl, hc⟩
          | cons x _ => exact ⟨x, rfl, hfront x (by simp)⟩
        have hlow := not_isSmallOrDigit_of_isCapital hcapital
        simp_all
      rw [hsecond, Bool.and_false]
      rfl

/-- The first pass leaves the first character in front. -/
theorem head?_splitRuns (cs : List Char) : (splitRuns cs).head? = cs.head? := by
  cases cs with
  | nil => rw [splitRuns]
  | cons c cs =>
    rw [splitRuns]
    split
    · rcases List.eq_nil_or_concat (cs.takeWhile isCapital) with h | ⟨front, d, h⟩
      · simp [h, breakRun]
      · rw [h, List.concat_eq_append, ← List.cons_append, breakRun_snoc]
        rfl
    · rfl

/-- The second pass leaves a broken run as it is: all its characters are capitals and underscores. -/
theorem splitHumps_breakRun {front rest : List Char} {c : Char} (hfront : ∀ d ∈ front, isCapital d)
    (hc : isCapital c) (cs : List Char) :
    splitHumps (breakRun (front ++ [c]) rest ++ cs) = breakRun (front ++ [c]) rest ++ splitHumps cs := by
  refine splitHumps_append (fun d hd => ?_) cs
  rw [breakRun_snoc, List.mem_append] at hd
  rcases hd with hd | hd
  · exact not_isSmallOrDigit_of_isCapital (hfront d hd)
  · have hlast : d = '_' ∨ d = c := by split at hd <;> simp_all
    rcases hlast with rfl | rfl
    · decide
    · exact not_isSmallOrDigit_of_isCapital hc

/-- Both passes break a name by the local rule. The induction is that of `splitRuns`, which takes a whole run or
one character at a time. -/
theorem splitHumps_splitRuns (cs : List Char) : splitHumps (splitRuns cs) = breakWords cs := by
  fun_induction splitRuns cs with
  | case1 => rfl
  | case2 c cs hc ih =>
    have hrun : ∀ d ∈ c :: cs.takeWhile isCapital, isCapital d :=
      List.forall_mem_cons.mpr ⟨hc, fun d hd => List.mem_takeWhile_imp hd⟩
    have hrest : ¬(cs.dropWhile isCapital).head?.any isCapital := by
      have hhead := List.head?_dropWhile_not isCapital cs
      revert hhead
      cases (cs.dropWhile isCapital).head? <;> simp
    have hsplit : c :: cs = c :: cs.takeWhile isCapital ++ cs.dropWhile isCapital := by
      rw [List.cons_append, List.takeWhile_append_dropWhile]
    rw [hsplit]
    obtain ⟨front, last, hlast⟩ := (List.eq_nil_or_concat (c :: cs.takeWhile isCapital)).resolve_left (by simp)
    rw [hlast] at hrun ⊢
    rw [List.concat_eq_append] at hrun ⊢
    obtain ⟨hfront, hlast⟩ := List.forall_mem_append.mp hrun
    rw [splitHumps_breakRun hfront (hlast last (by simp)), ih, List.append_assoc, List.singleton_append,
      breakWords_run hfront (hlast last (by simp)) hrest]
  | case3 c cs hc ih =>
    rw [splitHumps_cons, breakWords_cons, head?_splitRuns, breaksAfter_other hc, ih]

theorem breakWords_of_not_capital {cs : List Char} (h : ∀ c ∈ cs, ¬isCapital c) : breakWords cs = cs := by
  induction cs with
  | nil => rfl
  | cons c cs ih =>
    obtain ⟨hc, hcs⟩ := List.forall_mem_cons.mp h
    have hnext : cs.head?.any isCapital = false := by
      cases cs with
      | nil => rfl
      | cons d cs => simpa using hcs d List.mem_cons_self
    rw [breakWords_cons, breaksAfter_other hc, hnext, ih hcs, Bool.and_false]
    rfl

/-! ## Runs of capitals -/

namespace CapitalRun

/-- The code point is that of a capital of the run. -/
def has (r : CapitalRun) (n : Nat) : Bool := r.first ≤ n && n ≤ r.last && (n - r.first) % r.step == 0

/-- The small letter of the first capital of the run. -/
def smallFirst (r : CapitalRun) : Nat := (r.first + r.shift).toNat

/-- The small letter of the last capital of the run. -/
def smallLast (r : CapitalRun) : Nat := (r.last + r.shift).toNat

/-- The small letters of the run are characters. -/
def isValid (r : CapitalRun) : Bool :=
  0 ≤ r.first + r.shift && (r.smallLast < 0xd800 || 0xdfff < r.smallFirst && r.smallLast < 0x110000)

/-- No small letter of the first run is a capital of the second: they lie before it, behind it or between
its capitals. -/
def leaves (r q : CapitalRun) : Bool :=
  Nat.blt r.smallLast q.first || Nat.blt q.last r.smallFirst ||
    q.step == 2 && (r.step == 2 || r.first == r.last) && (r.smallFirst + q.first) % 2 == 1

/-- The dotted capital I, which is in no run because its lower case is two characters. -/
def dotted : CapitalRun := ⟨0x130, 0x130, 1, 0⟩

/-- What the table of capitals has to satisfy, by evaluation: small letters are characters, and none of them is
a capital. -/
theorem isValid_and_leaves :
    capitalRuns.all (fun r => r.isValid && (dotted :: capitalRuns).all r.leaves) := by
  decide +kernel

variable {r q : CapitalRun} {n : Nat}

theorem toNat_small (hr : r.isValid) (hn : r.has n) :
    (Char.ofNat (n + r.shift).toNat).toNat = (n + r.shift).toNat := by
  simp only [isValid, has, Bool.and_eq_true, Bool.or_eq_true, decide_eq_true_eq] at hr hn
  rw [smallFirst, smallLast] at hr
  have hchar : (n + r.shift).toNat.isValidChar := by
    rw [Nat.isValidChar]
    omega
  rw [Char.ofNat, dif_pos hchar]
  rfl

/-- The small letter of a run is no capital of another one, by the arithmetic of `leaves`. -/
theorem not_has_small (hr : r.isValid) (hq : r.leaves q) (hn : r.has n) : ¬q.has (n + r.shift).toNat := by
  simp only [isValid, leaves, has, Bool.and_eq_true, Bool.or_eq_true, decide_eq_true_eq, beq_iff_eq,
    Nat.blt_eq] at hr hq hn ⊢
  rw [smallFirst, smallLast] at hr hq
  rintro ⟨hbounds, hstep⟩
  rcases hq with (hq | hq) | ⟨⟨hq, hr'⟩, hodd⟩
  · omega
  · omega
  · rw [hq] at hstep
    rcases hr' with h | h
    · rw [h] at hn
      omega
    · omega

end CapitalRun

/-! ## Lower case -/

/-- A character is no capital and stays, or it is shifted by the run that it stands in. -/
theorem lowerChar_cases (c : Char) :
    (lowerChar c = c ∧ ∀ q ∈ capitalRuns, ¬q.has c.toNat) ∨
      ∃ r ∈ capitalRuns, r.has c.toNat ∧ lowerChar c = Char.ofNat (c.toNat + r.shift).toNat := by
  rw [lowerChar]
  split
  case h_1 r hr => 
    have hhas := List.find?_some hr
    exact .inr ⟨r, List.mem_of_find?_eq_some hr, hhas, rfl⟩
  case h_2 hr => exact .inl ⟨rfl, List.find?_eq_none.mp hr⟩

theorem lowerChar_of_not_has {c : Char} (h : ∀ q ∈ capitalRuns, ¬q.has c.toNat) : lowerChar c = c := by
  rcases lowerChar_cases c with ⟨hc, -⟩ | ⟨r, hr, hc, -⟩
  · exact hc
  · exact absurd hc (h r hr)

/-- The character is its own lower case wherever it stands. -/
def Settled (c : Char) : Prop := c ≠ 'Σ' ∧ c ≠ 'İ' ∧ lowerChar c = c

instance (c : Char) : Decidable (Settled c) :=
  inferInstanceAs (Decidable (c ≠ 'Σ' ∧ c ≠ 'İ' ∧ lowerChar c = c))

/-- A character in lower case is settled: it is in no run by `not_has_small`, so `lowerChar` keeps it. The two
exceptions are written in other ways. -/
theorem settled_lowerChar {c : Char} (hsigma : c ≠ 'Σ') (hdotted : c ≠ 'İ') : Settled (lowerChar c) := by
  rcases lowerChar_cases c with ⟨hc, -⟩ | ⟨r, hr, hc, hlower⟩
  · rw [hc]
    exact ⟨hsigma, hdotted, hc⟩
  · -- the small letter is no capital of any run, and the capital sigma is one
    obtain ⟨hvalid, hleaves⟩ := Bool.and_eq_true_iff.mp (List.all_eq_true.mp CapitalRun.isValid_and_leaves r hr)
    have hnot : ∀ q ∈ CapitalRun.dotted :: capitalRuns, ¬q.has (lowerChar c).toNat := by
      intro q hq
      rw [hlower, CapitalRun.toNat_small hvalid hc]
      exact CapitalRun.not_has_small hvalid (List.all_eq_true.mp hleaves q hq) hc
    obtain ⟨hdot, hruns⟩ := List.forall_mem_cons.mp hnot
    refine ⟨fun h => ?_, fun h => ?_, lowerChar_of_not_has hruns⟩
    · have : capitalRuns.any (·.has 'Σ'.toNat) := by decide +kernel
      obtain ⟨q, hq, hhas⟩ := List.any_eq_true.mp this
      exact hruns q hq (h ▸ hhas)
    · exact hdot (h ▸ by decide)

theorem not_isCapital_of_settled {c : Char} (h : Settled c) : ¬isCapital c := by
  intro hc
  have hsmall := (lowerChar_of_isCapital hc).1
  rw [h.2.2] at hsmall
  exact not_isSmallOrDigit_of_isCapital hc (by rw [hsmall, Bool.true_or])

/-- What is written in lower case is settled, including what stands for the final sigma and the dotted capital.
-/
theorem settled_of_mem_lowerFrom {before cs : List Char} : ∀ c ∈ lowerFrom before cs, Settled c := by
  induction cs generalizing before with
  | nil => simp [lowerFrom]
  | cons c cs ih =>
    rw [lowerFrom]
    refine List.forall_mem_append.mpr ⟨?_, ih⟩
    split
    · split <;> exact List.forall_mem_singleton.mpr (by decide +kernel)
    · split
      · exact List.forall_mem_cons.mpr ⟨by decide +kernel, List.forall_mem_singleton.mpr (by decide +kernel)⟩
      · simp_all [settled_lowerChar]

theorem lowerFrom_of_settled {before cs : List Char} (h : ∀ c ∈ cs, Settled c) : lowerFrom before cs = cs := by
  induction cs generalizing before with
  | nil => rfl
  | cons c cs ih =>
    obtain ⟨⟨hsigma, hdotted, hc⟩, hcs⟩ := List.forall_mem_cons.mp h
    simp [lowerFrom, hsigma, hdotted, hc, ih hcs]

/-! ## ASCII names -/

/-- ASCII has neither of the characters whose lower case depends on their place. -/
theorem lowerFrom_of_ascii {before cs : List Char} (h : ∀ c ∈ cs, c.toNat < 128) :
    lowerFrom before cs = cs.map lowerChar := by
  induction cs generalizing before with
  | nil => rfl
  | cons c cs ih =>
    obtain ⟨hc, hcs⟩ := List.forall_mem_cons.mp h
    rw [lowerFrom_cons hc, ih hcs, List.map_cons]

theorem lowerChar_of_not_isCapital {c : Char} (h : c.toNat < 128) (hc : ¬isCapital c) : lowerChar c = c := by
  have hfirst : capitalRuns.all fun q => 128 ≤ q.first || q.first == 65 && q.last == 90 := by decide +kernel
  refine lowerChar_of_not_has fun q hq hhas => hc (isCapital_iff.mpr ?_)
  have hq := List.all_eq_true.mp hfirst q hq
  simp only [CapitalRun.has, Bool.or_eq_true, Bool.and_eq_true, decide_eq_true_eq, beq_iff_eq] at hq hhas
  omega

/-- Lower case keeps ASCII characters, and underscores apart from them. This is checked for all of them by
evaluation. -/
theorem lowerChar_of_ascii {c : Char} (h : c.toNat < 128) :
    (lowerChar c).toNat < 128 ∧ (lowerChar c = '_' ↔ c = '_') := by
  by_cases hc : isCapital c
  · have hsmall := (lowerChar_of_isCapital hc).1
    have hlast := (isSmall_iff.mp hsmall).2
    exact ⟨by omega, iff_of_false (ne_underscore_of_isSmallOrDigit (by simp [hsmall]))
      (ne_underscore_of_isCapital hc)⟩
  · rw [lowerChar_of_not_isCapital h hc]
    exact ⟨h, Iff.rfl⟩

theorem mem_breakWords {c : Char} {cs : List Char} (h : c ∈ breakWords cs) : c ∈ cs ∨ c = '_' := by
  rw [← splitHumps_splitRuns] at h
  rcases mem_splitHumps h with h | h
  · exact mem_splitRuns h
  · exact .inr h

/-- Breaking words adds underscores and nothing else. -/
theorem filter_breakWords (cs : List Char) :
    (breakWords cs).filter (· != '_') = cs.filter (· != '_') := by
  induction cs with
  | nil => rfl
  | cons c cs ih =>
    rw [breakWords_cons, List.filter_append, ih]
    split <;> by_cases hc : c = '_' <;> simp [hc]

theorem filter_map_lowerChar {cs : List Char} (h : ∀ c ∈ cs, c.toNat < 128) :
    (cs.map lowerChar).filter (· != '_') = (cs.filter (· != '_')).map lowerChar := by
  rw [List.filter_map]
  refine congrArg _ (List.filter_congr fun c hc => ?_)
  rw [Function.comp_apply, Bool.eq_iff_iff, bne_iff_ne, bne_iff_ne]
  exact not_congr (lowerChar_of_ascii (h c hc)).2

/-! ## Snake case -/

theorem snakeCase_eq_breakWords (name : String) :
    snakeCase name = String.ofList (lower (breakWords name.toList)) := by
  rw [snakeCase, splitHumps_splitRuns]

theorem snakeCase_snakeCase (name : String) : snakeCase (snakeCase name) = snakeCase name := by
  have hsettled : ∀ c ∈ lower (breakWords name.toList), Settled c := settled_of_mem_lowerFrom
  rw [snakeCase_eq_breakWords (snakeCase name), snakeCase_eq_breakWords name, String.toList_ofList,
    breakWords_of_not_capital fun c hc => not_isCapital_of_settled (hsettled c hc), lower,
    lowerFrom_of_settled hsettled]

/-- **Snake case by the local rule.** Before it is written in lower case, a name has an underscore exactly at
the positions where a word ends. In snake case an ASCII name has no capital and, underscores apart, the
characters of its lower case; and a name in snake case is its own snake case. -/
theorem snakeCase_breaks (name : String) :
    snakeCase name = String.ofList (lower (breakWords name.toList)) ∧
    splitHumps (splitRuns name.toList) = breakWords name.toList ∧
    ((∀ c ∈ name.toList, c.toNat < 128) →
      (∀ c ∈ (snakeCase name).toList, c.toNat < 128 ∧ ¬isCapital c) ∧
      (snakeCase name).toList.filter (· != '_') = (lower name.toList).filter (· != '_')) ∧
    snakeCase (snakeCase name) = snakeCase name := by
  refine ⟨snakeCase_eq_breakWords name, splitHumps_splitRuns _, fun hname => ?_, snakeCase_snakeCase name⟩
  have hwords : ∀ c ∈ breakWords name.toList, c.toNat < 128 := by
    intro c hc
    rcases mem_breakWords hc with hc | rfl
    · exact hname c hc
    · decide
  rw [snakeCase_eq_breakWords, String.toList_ofList]
  constructor
  · intro c hc
    refine ⟨?_, not_isCapital_of_settled (settled_of_mem_lowerFrom c hc)⟩
    rw [lower, lowerFrom_of_ascii hwords] at hc
    obtain ⟨d, hd, rfl⟩ := List.mem_map.mp hc
    exact (lowerChar_of_ascii (hwords d hd)).1
  · rw [lower, lower, lowerFrom_of_ascii hwords, lowerFrom_of_ascii hname, filter_map_lowerChar hwords,
      filter_map_lowerChar hname, filter_breakWords]

theorem snakeCase_breaks_url :
    breakWords "parseURLString2Any".toList = "parse_URL_String2_Any".toList ∧
    (∀ c ∈ (snakeCase "parseURLString2Any").toList, c.toNat < 128 ∧ ¬isCapital c) ∧
    (snakeCase "parseURLString2Any").toList.filter (· != '_') =
      (lower "parseURLString2Any".toList).filter (· != '_') := by
  have hascii : "parseURLString2Any".toList.all (·.toNat < 128) := by decide +kernel
  refine ⟨by decide +kernel, (snakeCase_breaks "parseURLString2Any").2.2.1 fun c hc => ?_⟩
  exact of_decide_eq_true (List.all_eq_true.mp hascii c hc)

end LuaGlue.Text
