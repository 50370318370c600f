import LuaGlue.Proofs.TypeExpr.RoundTrip

/-!
# Tokens partition a text

A text splits into tokens in at most one way. What the split is like can be said without reading from left
to right: `Token.Partition`.

- **One token** (`Token.Fits`): its lexeme is what the text holds at its span, and what follows does not
  extend it. A word takes all letters and digits that follow (`fits_iff_word`), a punctuation mark is the
  longest that starts there (`fits_iff_punct`).
- **All tokens** (`partition_blank`, `partition_cons`): at a blank no token starts, at any other character
  the first token does. So the tokens that partition a text are those that `Token.scan` gives
  (`scan_eq_ok_iff`).
- **Stray characters** (`lexes_of_scan_error`): where splitting fails, the text so far splits, and no token
  starts there.
-/

namespace LuaGlue

/-! ## Punctuation -/

namespace Punct

/-- The next character, if there is one, does not make a longer punctuation mark. -/
def Unextended (next : Option Char) : Punct → Prop
  | .colon => next ≠ some ':'
  | .dash => next ≠ some '>'
  | .amp => next ≠ some '&'
  | _ => True

theorem width_eq (p : Punct) : p.width = p.text.toList.length := by
  cases p <;> rfl

/-- Every punctuation mark starts with a character that is neither blank nor a letter or digit. -/
theorem head_text (p : Punct) : ∃ c cs, p.text.toList = c :: cs ∧
    Text.isBlank c = false ∧ isLetterOrDigit c = false := by
  cases p <;> exact ⟨_, _, rfl, by decide, by decide⟩

/-- The mark that is read is the longest that the characters start with. -/
theorem read?_eq_some_iff {c : Char} {cs rest : List Char} {p : Punct} :
    read? c cs = some (p, rest) ↔ c :: cs = p.text.toList ++ rest ∧ p.Unextended rest.head? := by
  constructor
  · intro h
    unfold read? at h
    split at h <;> cases h <;> simp_all [Unextended, text, List.head?_eq_some_iff]
  · rintro ⟨htext, hnext⟩
    cases p with
    | colon | dash | amp =>
      simp only [text, String.reduceToList, List.cons_append, List.nil_append, List.cons.injEq] at htext
      obtain ⟨rfl, rfl⟩ := htext
      unfold read?
      split <;> simp_all [Unextended]
    | _ => cases htext; rfl

theorem read?_eq_none_iff {c : Char} {cs : List Char} :
    read? c cs = none ↔ ∀ p : Punct, ¬p.text.toList <+: c :: cs := by
  constructor
  · intro h p hp
    unfold read? at h
    split at h <;> cases h
    cases p <;> simp [text, eq_comm] at hp <;> simp_all
  · intro h
    cases hread : read? c cs with
    | none => rfl
    | some found =>
      obtain ⟨p, rest⟩ := found
      exact absurd ⟨rest, (read?_eq_some_iff.mp hread).1.symm⟩ (h p)

end Punct

/-! ## Words -/

namespace Lexeme

/-- The lexeme is a word: a name or a keyword. -/
def isWord : Lexeme → Bool
  | .punct _ => false
  | _ => true

@[simp] theorem text_ofWord (s : String) : (ofWord s).text = s := by
  unfold ofWord
  split
  · simp_all [text]
  · split <;> simp_all [text]

theorem isWord_ofWord (s : String) : (ofWord s).isWord := by
  unfold ofWord
  split
  · rfl
  · split <;> rfl

/-- A word is a keyword exactly if its text is. -/
def Keyed (lex : Lexeme) : Prop :=
  (lex = .const ↔ lex.text = "const") ∧ (lex = .noexcept ↔ lex.text = "noexcept")

theorem keyed_ofWord (s : String) : (ofWord s).Keyed := by
  unfold Keyed
  rw [text_ofWord]
  unfold ofWord
  split
  · simp_all
  · split <;> simp_all

theorem eq_ofWord {lex : Lexeme} (hword : lex.isWord) (hkeyed : lex.Keyed) : lex = ofWord lex.text := by
  cases lex with
  | word s =>
    have hconst : s ≠ "const" := fun h => nomatch hkeyed.1.mpr h
    have hnoexcept : s ≠ "noexcept" := fun h => nomatch hkeyed.2.mpr h
    simp [ofWord, text, hconst, hnoexcept]
  | const | noexcept => rfl
  | punct p => cases hword

theorem endsWord_dropWhile (cs : List Char) : EndsWord (cs.dropWhile isLetterOrDigit) := by
  intro c hc
  have hstop := List.head?_dropWhile_not isLetterOrDigit cs
  rw [hc] at hstop
  exact hstop

/-- What follows does not extend the lexeme. -/
structure Complete (next : Option Char) (lex : Lexeme) : Prop where
  /-- A word is made of letters and digits, starts with no digit, and no letter or digit follows it. The
  keywords are words of their own kind. -/
  word : lex.isWord → (∀ c ∈ lex.text.toList, isLetterOrDigit c) ∧
    (∀ c, lex.text.toList.head? = some c → Text.isDigit c = false) ∧
    (∀ c, next = some c → isLetterOrDigit c = false) ∧ lex.Keyed
  /-- A colon, a dash or an ampersand is not the start of a longer mark. -/
  punct : ∀ p, lex = .punct p → p.Unextended next

section Complete

variable {lex : Lexeme} {c : Char} {cs rest : List Char}

theorem isLetterOrDigit_of_isLetter (h : isLetter c) : isLetterOrDigit c := by
  simp [isLetterOrDigit, h]

/-- A letter is no digit, and a word that starts with no digit starts with a letter. -/
theorem isLetter_iff : isLetter c ↔ isLetterOrDigit c ∧ Text.isDigit c = false := by
  constructor
  · intro h
    have hlow := (toNat_of_isLetter h).1
    refine ⟨isLetterOrDigit_of_isLetter h, ?_⟩
    by_contra hd
    simp only [Text.isDigit, Bool.not_eq_false, Bool.and_eq_true, decide_eq_true_eq, Char.le_def,
      UInt32.le_iff_toNat_le] at hd
    have hhigh : c.toNat ≤ 57 := hd.2
    omega
  · rintro ⟨h, hd⟩
    simp only [isLetterOrDigit, Bool.or_eq_true] at h
    rcases h with h | h
    · exact h
    · rw [Text.isDigit, h] at hd
      cases hd

/-- The first character of a complete lexeme is a letter exactly if it is a word. -/
theorem Complete.isWord_iff {next : Option Char} (h : lex.Complete next) (hne : lex.text.toList ≠ [])
    (htext : c :: cs = lex.text.toList ++ rest) : lex.isWord ↔ isLetter c := by
  have hhead : lex.text.toList.head? = some c := by
    rw [← List.head?_append_of_ne_nil _ hne, ← htext, List.head?_cons]
  constructor
  · intro hword
    obtain ⟨hrun, hfirst, -⟩ := h.word hword
    exact isLetter_iff.mpr ⟨hrun c (List.mem_of_head? hhead), hfirst c hhead⟩
  · intro hc
    cases lex with
    | punct p =>
      obtain ⟨d, ds, hp, -, hd⟩ := p.head_text
      rw [text, hp, List.head?_cons, Option.some.injEq] at hhead
      rw [hhead, isLetterOrDigit_of_isLetter hc] at hd
      cases hd
    | _ => rfl

/-- A lexeme that starts with a letter is the longest word there. -/
theorem complete_iff_word (hc : isLetter c) :
    c :: cs = lex.text.toList ++ rest ∧ lex.text.toList ≠ [] ∧ lex.Complete rest.head? ↔
      lex = ofWord (String.ofList (c :: cs.takeWhile isLetterOrDigit)) ∧
        rest = cs.dropWhile isLetterOrDigit := by
  have hchar := isLetterOrDigit_of_isLetter hc
  constructor
  · rintro ⟨htext, hne, hcomplete⟩
    -- the first character tells that the lexeme is a word, and a complete word is as long as it can be
    have hword : lex.isWord := (hcomplete.isWord_iff hne htext).mpr hc
    obtain ⟨hrun, -, hnext, hkeyed⟩ := hcomplete.word hword
    have hends : EndsWord rest := hnext
    obtain ⟨htake, hdrop⟩ := Lexes.takeWhile_append hrun hends
    rw [← htext, List.takeWhile_cons_of_pos hchar] at htake
    rw [← htext, List.dropWhile_cons_of_pos hchar] at hdrop
    refine ⟨?_, hdrop.symm⟩
    rw [htake, String.ofList_toList]
    exact eq_ofWord hword hkeyed
  · rintro ⟨rfl, rfl⟩
    have hrun : ∀ d ∈ c :: cs.takeWhile isLetterOrDigit, isLetterOrDigit d :=
      List.forall_mem_cons.mpr ⟨hchar, fun d hd => List.mem_takeWhile_imp hd⟩
    simp only [text_ofWord, String.toList_ofList, List.cons_append, List.takeWhile_append_dropWhile, ne_eq,
      reduceCtorEq, not_false_eq_true, true_and]
    refine ⟨fun _ => ⟨by simpa using hrun, ?_, endsWord_dropWhile cs, keyed_ofWord _⟩, fun p hp => ?_⟩
    · intro d hd
      simp only [text_ofWord, String.toList_ofList, List.head?_cons, Option.some.injEq] at hd
      exact hd ▸ (isLetter_iff.mp hc).2
    · have hword := isWord_ofWord (String.ofList (c :: cs.takeWhile isLetterOrDigit))
      rw [hp] at hword
      cases hword

/-- A lexeme that starts with another character is the longest punctuation mark there. -/
theorem complete_iff_punct (hc : isLetter c = false) :
    c :: cs = lex.text.toList ++ rest ∧ lex.text.toList ≠ [] ∧ lex.Complete rest.head? ↔
      ∃ p, lex = .punct p ∧ Punct.read? c cs = some (p, rest) := by
  constructor
  · rintro ⟨htext, hne, hcomplete⟩
    have hword : ¬lex.isWord := by
      rw [hcomplete.isWord_iff hne htext, hc]
      simp
    cases lex with
    | punct p => exact ⟨p, rfl, Punct.read?_eq_some_iff.mpr ⟨htext, hcomplete.punct p rfl⟩⟩
    | word | const | noexcept => exact absurd rfl hword
  · rintro ⟨p, rfl, hread⟩
    obtain ⟨htext, hnext⟩ := Punct.read?_eq_some_iff.mp hread
    obtain ⟨d, ds, hp, -⟩ := p.head_text
    refine ⟨htext, ?_, nofun, ?_⟩
    · rw [text, hp]
      exact List.cons_ne_nil d ds
    · rintro q ⟨⟩
      exact hnext

end Complete

end Lexeme

/-! ## One token -/

namespace Token

variable {text : List Char} {t : Token} {pos : Nat}

/-- The token stands in the text, and what follows does not extend it. -/
structure Fits (text : List Char) (t : Token) : Prop where
  /-- The span is not empty and lies in the text. -/
  inside : t.start < t.stop ∧ t.stop ≤ text.length
  /-- The lexeme is what the text holds there. -/
  slice : t.lexeme.text.toList = (text.take t.stop).drop t.start
  complete : t.lexeme.Complete text[t.stop]?

/-- A token that fits is where the rest of the text starts. -/
theorem fits_iff : Fits text t ↔
    text.drop t.start = t.lexeme.text.toList ++ text.drop t.stop ∧ t.lexeme.text.toList ≠ [] ∧
      t.lexeme.Complete (text.drop t.stop).head? ∧ t.stop = t.start + t.lexeme.text.toList.length := by
  rw [List.head?_drop]
  constructor
  · rintro ⟨⟨hlt, hle⟩, hslice, hcomplete⟩
    rw [List.drop_take] at hslice
    have hlength : t.lexeme.text.toList.length = t.stop - t.start := by
      rw [hslice, List.length_take, List.length_drop]
      omega
    refine ⟨?_, ?_, hcomplete, by omega⟩
    · have hstop : text.drop t.stop = (text.drop t.start).drop (t.stop - t.start) := by
        rw [List.drop_drop]
        congr 1
        omega
      rw [hslice, hstop, List.take_append_drop]
    · apply List.ne_nil_of_length_pos
      omega
  · rintro ⟨hdrop, hne, hcomplete, hstop⟩
    have hpos := List.length_pos_of_ne_nil hne
    have hlength := congrArg List.length hdrop
    rw [List.length_append, List.length_drop, List.length_drop] at hlength
    refine ⟨⟨by omega, by omega⟩, ?_, hcomplete⟩
    rw [List.drop_take, hdrop]
    simp [hstop]

section Start

variable {c : Char} {cs : List Char} (hdrop : text.drop pos = c :: cs)

include hdrop

theorem drop_add_length {w rest : List Char} (h : c :: cs = w ++ rest) :
    text.drop (pos + w.length) = rest := by
  rw [← List.drop_drop, hdrop, h, List.drop_left]

theorem fits_iff_complete : Fits text t ∧ t.start = pos ↔
    ∃ lex rest, (c :: cs = lex.text.toList ++ rest ∧ lex.text.toList ≠ [] ∧ lex.Complete rest.head?) ∧
      t = ⟨lex, pos, pos + lex.text.toList.length⟩ := by
  rw [fits_iff]
  constructor
  · rintro ⟨⟨hsplit, hne, hcomplete, hstop⟩, rfl⟩
    refine ⟨t.lexeme, text.drop t.stop, ⟨hdrop ▸ hsplit, hne, hcomplete⟩, ?_⟩
    rw [← hstop]
  · rintro ⟨lex, rest, ⟨hsplit, hne, hcomplete⟩, rfl⟩
    have hrest := drop_add_length hdrop hsplit
    refine ⟨⟨?_, hne, ?_, rfl⟩, rfl⟩
    · rw [hdrop, hrest, hsplit]
    · rwa [hrest]

/-- At a letter stands the longest word. -/
theorem fits_iff_word (hc : isLetter c) :
    Fits text t ∧ t.start = pos ↔
      t = ⟨.ofWord (.ofList (c :: cs.takeWhile isLetterOrDigit)), pos,
        pos + (c :: cs.takeWhile isLetterOrDigit).length⟩ := by
  rw [fits_iff_complete hdrop]
  simp only [Lexeme.complete_iff_word hc]
  constructor
  · rintro ⟨_, _, ⟨rfl, rfl⟩, rfl⟩
    rw [Lexeme.text_ofWord, String.toList_ofList]
  · rintro rfl
    exact ⟨_, _, ⟨rfl, rfl⟩, by rw [Lexeme.text_ofWord, String.toList_ofList]⟩

/-- At any other character stands the longest punctuation mark. -/
theorem fits_iff_punct (hc : isLetter c = false) :
    Fits text t ∧ t.start = pos ↔
      ∃ p rest, Punct.read? c cs = some (p, rest) ∧ t = ⟨.punct p, pos, pos + p.width⟩ := by
  rw [fits_iff_complete hdrop]
  simp only [Lexeme.complete_iff_punct hc]
  constructor
  · rintro ⟨_, rest, ⟨p, rfl, hread⟩, rfl⟩
    exact ⟨p, rest, hread, by rw [p.width_eq]; rfl⟩
  · rintro ⟨p, rest, hread, rfl⟩
    exact ⟨_, rest, ⟨p, rfl, hread⟩, by rw [p.width_eq]; rfl⟩

theorem Fits.not_isBlank (h : Fits text t) (hstart : t.start = pos) : Text.isBlank c = false := by
  cases hc : isLetter c with
  | true => exact isBlank_of_isLetter hc
  | false =>
    obtain ⟨p, rest, hread, -⟩ := (fits_iff_punct hdrop hc).mp ⟨h, hstart⟩
    obtain ⟨d, ds, hp, hd, -⟩ := p.head_text
    have htext := (Punct.read?_eq_some_iff.mp hread).1
    rw [hp, List.cons_append] at htext
    rwa [(List.cons.inj htext).1]

end Start

/-! ## All tokens -/

/-- The tokens are those of the text from the position on: one after the other, with nothing but blanks
outside of them. -/
structure Partition (text : List Char) (pos : Nat) (toks : List Token) : Prop where
  fits : ∀ t ∈ toks, Fits text t
  after : ∀ t ∈ toks, pos ≤ t.start
  increasing : toks.Pairwise fun t u => t.stop ≤ u.start
  blank : ∀ i c, pos ≤ i → text[i]? = some c → (∀ t ∈ toks, ¬(t.start ≤ i ∧ i < t.stop)) → Text.isBlank c

variable {toks : List Token}

/-- Behind the text there are no tokens. -/
theorem partition_nil (h : text.drop pos = []) : Partition text pos toks ↔ toks = [] := by
  rw [List.drop_eq_nil_iff] at h
  constructor
  · intro hp
    apply List.eq_nil_iff_forall_not_mem.mpr
    intro t ht
    have hinside := (hp.fits t ht).inside
    have hafter := hp.after t ht
    omega
  · rintro rfl
    refine ⟨by simp, by simp, .nil, ?_⟩
    intro i c hi hc
    rw [List.getElem?_eq_none (by omega)] at hc
    cases hc

section Start

variable {c : Char} {cs : List Char} (hdrop : text.drop pos = c :: cs)

include hdrop

theorem getElem?_of_drop : text[pos]? = some c := by
  rw [← List.head?_drop, hdrop, List.head?_cons]

/-- No token starts at a blank. -/
theorem partition_blank (hblank : Text.isBlank c) :
    Partition text pos toks ↔ Partition text (pos + 1) toks := by
  constructor
  · rintro ⟨hfits, hafter, hincreasing, hblanks⟩
    refine ⟨hfits, ?_, hincreasing, fun i c hi => hblanks i c (by omega)⟩
    intro t ht
    have hle := hafter t ht
    by_contra hlt
    rw [(hfits t ht).not_isBlank hdrop (by omega)] at hblank
    cases hblank
  · rintro ⟨hfits, hafter, hincreasing, hblanks⟩
    refine ⟨hfits, fun t ht => Nat.le_of_succ_le (hafter t ht), hincreasing, ?_⟩
    intro i d hi hd hout
    by_cases hpos : i = pos
    · rw [hpos, getElem?_of_drop hdrop] at hd
      cases hd
      exact hblank
    · exact hblanks i d (by omega) hd hout

/-- At any other character the first token starts. -/
theorem partition_cons (hblank : Text.isBlank c = false) :
    Partition text pos toks ↔
      ∃ t rest, toks = t :: rest ∧ (Fits text t ∧ t.start = pos) ∧ Partition text t.stop rest := by
  constructor
  · rintro ⟨hfits, hafter, hincreasing, hblanks⟩
    have hcovered : ∃ t ∈ toks, t.start ≤ pos ∧ pos < t.stop := by
      by_contra hnone
      have hout : ∀ t ∈ toks, ¬(t.start ≤ pos ∧ pos < t.stop) := fun t ht h => hnone ⟨t, ht, h⟩
      rw [hblanks pos c (Nat.le_refl _) (getElem?_of_drop hdrop) hout] at hblank
      cases hblank
    obtain ⟨t, ht, hstart, hstop⟩ := hcovered
    obtain ⟨u, rest, rfl⟩ := List.exists_cons_of_ne_nil (List.ne_nil_of_mem ht)
    obtain ⟨hbefore, hpairs⟩ := List.pairwise_cons.mp hincreasing
    obtain ⟨hu, hrest⟩ := List.forall_mem_cons.mp hfits
    have hpos := hafter u (by simp)
    have hinside := hu.inside
    -- the tokens behind the first start behind its end
    have hfirst : t = u := by
      rcases List.mem_cons.mp ht with rfl | ht
      · rfl
      · have hle := hbefore t ht
        omega
    subst hfirst
    refine ⟨t, rest, rfl, ⟨hu, by omega⟩, hrest, hbefore, hpairs, ?_⟩
    intro i d hi hd hout
    refine hblanks i d (by omega) hd (List.forall_mem_cons.mpr ⟨?_, hout⟩)
    omega
  · rintro ⟨t, rest, rfl, ⟨ht, rfl⟩, hrest⟩
    have hinside := ht.inside
    refine ⟨?_, ?_, ?_, ?_⟩
    · exact List.forall_mem_cons.mpr ⟨ht, hrest.fits⟩
    · refine List.forall_mem_cons.mpr ⟨Nat.le_refl _, fun u hu => ?_⟩
      have hafter := hrest.after u hu
      omega
    · exact List.pairwise_cons.mpr ⟨hrest.after, hrest.increasing⟩
    · intro i d hi hd hout
      obtain ⟨hfirst, hout⟩ := List.forall_mem_cons.mp hout
      exact hrest.blank i d (by omega) hd hout

end Start

/-- **Partitions.** Splitting from a position on succeeds with the tokens that partition the rest of the
text, and with no others. -/
theorem scan_eq_ok_iff {cs : List Char} (hdrop : text.drop pos = cs) :
    scan pos cs = .ok toks ↔ Partition text pos toks := by
  fun_induction scan pos cs generalizing toks with
  | case1 pos =>
    rw [partition_nil hdrop, Except.ok.injEq, eq_comm]
  | case2 pos c cs hblank ih =>
    rw [partition_blank hdrop hblank]
    exact ih (drop_add_length hdrop (w := [c]) rfl)
  | case3 pos c cs hblank hc word stop =>
    rename_i ih
    -- the scanner goes on behind the word, which is where the rest of a partition starts
    have hrest : text.drop stop = cs.dropWhile isWordChar := by
      apply drop_add_length hdrop
      rw [List.cons_append, List.takeWhile_append_dropWhile]
    simp only [partition_cons hdrop (eq_false_of_ne_true hblank), fits_iff_word hdrop hc,
      Except.map_eq_ok, ih hrest]
    constructor
    · rintro ⟨rest, hrest, rfl⟩
      exact ⟨_, rest, rfl, rfl, hrest⟩
    · rintro ⟨_, rest, rfl, rfl, hrest⟩
      exact ⟨rest, hrest, rfl⟩
  | case4 pos c cs hblank hc p rest hread ih =>
    have hrest : text.drop (pos + p.width) = rest := by
      rw [p.width_eq]
      exact drop_add_length hdrop (Punct.read?_eq_some_iff.mp hread).1
    simp only [partition_cons hdrop (eq_false_of_ne_true hblank),
      fits_iff_punct hdrop (eq_false_of_ne_true hc), Except.map_eq_ok, ih hrest]
    constructor
    · rintro ⟨toks', htoks, rfl⟩
      exact ⟨_, toks', rfl, ⟨p, rest, hread, rfl⟩, htoks⟩
    · rintro ⟨_, toks', rfl, ⟨_, _, hread', rfl⟩, htoks⟩
      cases hread.symm.trans hread'
      exact ⟨toks', htoks, rfl⟩
  -- no token fits at a stray character, so there is no partition either
  | case5 pos c cs hblank hc hread =>
    simp only [partition_cons hdrop (eq_false_of_ne_true hblank),
      fits_iff_punct hdrop (eq_false_of_ne_true hc), hread]
    simp

/-! ## Stray characters -/

theorem lexes_blank {c : Char} {cs : List Char} {ls : List Lexeme} (hc : Text.isBlank c) (h : Lexes cs ls) :
    Lexes (c :: cs) ls := by
  intro pos
  obtain ⟨toks, hs, hl⟩ := h (pos + 1)
  exact ⟨toks, by rw [scan, if_pos hc, hs], hl⟩

theorem lexes_word {c : Char} {w cs : List Char} {ls : List Lexeme} (hc : isLetter c)
    (hw : ∀ d ∈ w, isLetterOrDigit d) (hcs : EndsWord cs) (h : Lexes cs ls) :
    Lexes (c :: w ++ cs) (.ofWord (.ofList (c :: w)) :: ls) := by
  have hword := Lexes.ofWord String.toList_ofList hc hw hcs h
  rwa [String.toList_ofList] at hword

/-- What nothing extends in a text, nothing extends in a part of it. -/
theorem head?_of_head?_append {c : Char} {cs more : List Char} (h : cs.head? = some c) :
    (cs ++ more).head? = some c := by
  rw [List.head?_append, h, Option.some_or]

theorem endsWord_of_append {cs more : List Char} (h : EndsWord (cs ++ more)) : EndsWord cs :=
  fun c hc => h c (head?_of_head?_append hc)

theorem unextended_of_append {p : Punct} {cs more : List Char} (h : p.Unextended (cs ++ more).head?) :
    p.Unextended cs.head? := by
  cases p with
  | colon | dash | amp => exact fun hc => h (head?_of_head?_append hc)
  | _ => trivial

/-- **Stray characters.** Where splitting fails, the text so far splits, and the character there is no blank
and starts neither a word nor a punctuation mark. -/
theorem lexes_of_scan_error {pos : Nat} {cs : List Char} {s : Stray} (h : scan pos cs = .error s) :
    ∃ before after ls, cs = before ++ s.char :: after ∧ s.pos = pos + before.length ∧ Lexes before ls ∧
      Text.isBlank s.char = false ∧ isLetter s.char = false ∧ Punct.read? s.char after = none := by
  fun_induction scan pos cs with
  | case1 => cases h
  | case2 pos c cs hblank ih =>
    obtain ⟨before, after, ls, rfl, hpos, hlexes, hstray⟩ := ih h
    refine ⟨c :: before, after, ls, rfl, ?_, lexes_blank hblank hlexes, hstray⟩
    rw [List.length_cons]
    omega
  | case3 pos c cs hblank hc word stop =>
    rename_i ih
    obtain ⟨before, after, ls, hrest, hpos, hlexes, hstray⟩ := ih (Except.map_eq_error.mp h)
    -- the scanner took the word as long as it could, so what follows it up to the stray character ends it as
    -- well
    have hends : EndsWord before := by
      apply endsWord_of_append
      rw [← hrest, isWordChar_eq]
      exact Lexeme.endsWord_dropWhile cs
    have hrun : ∀ d ∈ cs.takeWhile isWordChar, isLetterOrDigit d := by
      rw [isWordChar_eq]
      exact fun d hd => List.mem_takeWhile_imp hd
    refine ⟨c :: cs.takeWhile isWordChar ++ before, after, _, ?_, ?_, lexes_word hc hrun hends hlexes, hstray⟩
    · rw [List.append_assoc, ← hrest, List.cons_append, List.takeWhile_append_dropWhile]
    · rw [List.length_append, hpos, Nat.add_assoc]
  | case4 pos c cs hblank hc p rest hread ih =>
    obtain ⟨before, after, ls, rfl, hpos, hlexes, hstray⟩ := ih (Except.map_eq_error.mp h)
    obtain ⟨htext, hnext⟩ := Punct.read?_eq_some_iff.mp hread
    obtain ⟨d, ds, hp, hd, hd'⟩ := p.head_text
    rw [hp, List.cons_append] at htext
    obtain ⟨rfl, rfl⟩ := List.cons.inj htext
    -- cut off at the stray character, the text behind the punctuation still does not extend it
    have hread' : Punct.read? c (ds ++ before) = some (p, before) := by
      rw [Punct.read?_eq_some_iff, hp, List.cons_append]
      exact ⟨rfl, unextended_of_append hnext⟩
    refine ⟨c :: (ds ++ before), after, _, by simp, ?_,
      Lexes.punct hd (eq_false_of_ne_true hc) hread' hlexes, hstray⟩
    rw [p.width_eq, hp] at hpos
    simp only [List.length_cons, List.length_append] at hpos ⊢
    omega
  | case5 pos c cs hblank hc hread =>
    cases h
    exact ⟨[], cs, [], rfl, rfl, .nil, eq_false_of_ne_true hblank, eq_false_of_ne_true hc, hread⟩

end Token

/-- **Splitting a text.** A text splits into the only tokens that partition it. Or nothing partitions it, and
splitting fails at a character that is no blank and starts no token, while the text before it splits. -/
theorem tokenize_partition (text : String) :
    (∃ toks, tokenize text = .ok toks ∧ ∀ toks', Token.Partition text.toList 0 toks' ↔ toks' = toks) ∨
      ∃ c pos, tokenize text = .error ⟨.stray c, text, some (pos, pos + 1)⟩ ∧
        text.toList[pos]? = some c ∧
        (∃ toks, tokenize (String.ofList (text.toList.take pos)) = .ok toks) ∧
        Text.isBlank c = false ∧ isLetter c = false ∧
        (∀ p : Punct, ¬p.text.toList <+: text.toList.drop pos) ∧
        ∀ toks, ¬Token.Partition text.toList 0 toks := by
  have hscan (toks : List Token) : Token.scan 0 text.toList = .ok toks ↔ Token.Partition text.toList 0 toks :=
    Token.scan_eq_ok_iff rfl
  cases h : Token.scan 0 text.toList with
  | ok toks =>
    refine .inl ⟨toks, by rw [tokenize, h]; rfl, fun toks' => ?_⟩
    rw [← hscan, h, Except.ok.injEq, eq_comm]
  | error s =>
    -- what stands before the stray character can be split, and the character itself starts nothing
    obtain ⟨before, after, ls, htext, hpos, hlexes, hblank, hletter, hread⟩ := Token.lexes_of_scan_error h
    rw [Nat.zero_add] at hpos
    refine .inr ⟨s.char, s.pos, by rw [tokenize, h]; rfl, ?_, ?_, hblank, hletter, ?_, fun toks => ?_⟩
    · rw [htext, hpos]
      simp
    · obtain ⟨toks, htoks, -⟩ := hlexes 0
      refine ⟨toks, ?_⟩
      rw [tokenize, htext, hpos, List.take_left, String.toList_ofList, htoks]
      rfl
    · rw [htext, hpos, List.drop_left]
      exact Punct.read?_eq_none_iff.mp hread
    · rw [← hscan, h]
      intro hok
      cases hok

end LuaGlue
