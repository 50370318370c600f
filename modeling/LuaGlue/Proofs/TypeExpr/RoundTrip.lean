import LuaGlue.Proofs.TypeExpr.Grammar
import LuaGlue.TypeExpr.Printer
import Mathlib.Data.List.Induction
import Mathlib.Data.List.TakeWhile

/-!
# Printing and reading type expressions

`WellFormed t` says which trees some text spells: names are made of words, templates have arguments,
and modifiers stand around names, templates and other modifiers only.

- **Reading** (`wellFormed_of_parse`): the words among the tokens of a text are names
  (`isName_of_scan`), and the grammar keeps well-formedness (`wellFormed_of_derives`).
- **Printing** (`spelled_of_wellFormed`): the printed text of a well-formed tree splits into lexemes
  that the grammar derives as that tree. What follows a token in the text never extends it: a name is
  followed by no letter or digit (`Writes.name`), an ampersand by no other (`Writes.amp`).
- **Round trip** (`parse_render_of_wellFormed`): printing and reading gives the tree again, for
  exactly the trees that reading gives.
-/

namespace LuaGlue

/-! ## Names -/

/-- An ASCII letter or an underscore. -/
def isLetter (c : Char) : Bool := ('A' ≤ c && c ≤ 'Z') || ('a' ≤ c && c ≤ 'z') || c == '_'

/-- An ASCII letter, an underscore or an ASCII digit. -/
def isLetterOrDigit (c : Char) : Bool := isLetter c || ('0' ≤ c && c ≤ '9')

/-- A letter and then letters and digits, other than the two keywords. -/
def isName (s : String) : Bool :=
  match s.toList with
  | [] => false
  | c :: cs => isLetter c && cs.all isLetterOrDigit && s != "const" && s != "noexcept"

/-- One or more names joined by `::`. -/
def IsScopedName (s : String) : Prop :=
  ∃ names : List String, names ≠ [] ∧ (∀ n ∈ names, isName n) ∧ s = "::".intercalate names

theorem isWordStart_eq : Token.isWordStart = isLetter := rfl

theorem isWordChar_eq : Token.isWordChar = isLetterOrDigit := rfl

/-- `isName` as a statement about the characters, as the scanner goes through them: a letter, what follows it,
and neither of the keywords. -/
theorem isName_iff {s : String} :
    isName s ↔ ∃ c cs, s.toList = c :: cs ∧ isLetter c ∧ (∀ d ∈ cs, isLetterOrDigit d) ∧
      s ≠ "const" ∧ s ≠ "noexcept" := by
  unfold isName
  cases s.toList <;> simp [and_assoc]

/-- Letters lie between `A` and `z`. That is all the scanner's tests for blanks and punctuation need to know. -/
theorem toNat_of_isLetter {c : Char} (h : isLetter c) : 65 ≤ c.toNat ∧ c.toNat ≤ 122 := by
  simp only [isLetter, Bool.or_eq_true, Bool.and_eq_true, decide_eq_true_eq, beq_iff_eq,
    Char.le_def, UInt32.le_iff_toNat_le] at h
  rcases h with (⟨h₁, h₂⟩ | ⟨h₁, h₂⟩) | rfl
  · exact ⟨h₁, Nat.le_trans h₂ (by decide)⟩
  · exact ⟨Nat.le_trans (by decide) h₁, h₂⟩
  · decide

theorem isBlank_of_isLetter {c : Char} (h : isLetter c) : Text.isBlank c = false := by
  obtain ⟨h₁, h₂⟩ := toNat_of_isLetter h
  simp only [Text.isBlank, Text.blanks, Text.Ranges.has, List.any_cons, List.any_nil,
    Bool.or_eq_false_iff, Bool.and_eq_false_iff, decide_eq_false_iff_not, and_true]
  omega

/-! ## Splitting printed text into lexemes -/

/-- The characters split into the lexemes, wherever in a text they stand. -/
def Lexes (cs : List Char) (ls : List Lexeme) : Prop :=
  ∀ pos, ∃ toks, Token.scan pos cs = .ok toks ∧ toks.map (·.lexeme) = ls

/-- The next character, if there is one, is no letter or digit. -/
def EndsWord (cs : List Char) : Prop := ∀ c, cs.head? = some c → isLetterOrDigit c = false

namespace Lexes

theorem nil : Lexes [] [] := fun pos => ⟨[], by rw [Token.scan], rfl⟩

theorem blank {cs : List Char} {ls : List Lexeme} (h : Lexes cs ls) : Lexes (' ' :: cs) ls := by
  intro pos
  obtain ⟨toks, hs, hl⟩ := h (pos + 1)
  refine ⟨toks, ?_, hl⟩
  rw [Token.scan, if_pos (by decide), hs]

/-- The scanner takes a word as long as it can. By `EndsWord` that is all of `w` and nothing behind it. -/
theorem takeWhile_append {w cs : List Char} (hw : ∀ c ∈ w, isLetterOrDigit c) (hcs : EndsWord cs) :
    (w ++ cs).takeWhile isLetterOrDigit = w ∧ (w ++ cs).dropWhile isLetterOrDigit = cs := by
  rw [List.takeWhile_append_of_pos hw, List.dropWhile_append_of_pos hw]
  cases cs with
  | nil => simp
  | cons c cs => simp [hcs c rfl]

/-- A word takes the characters up to the first that is no letter or digit; whether it is a keyword is decided
by `Lexeme.ofWord`. -/
theorem ofWord {w : String} {c : Char} {w' cs : List Char} {ls : List Lexeme}
    (hw : w.toList = c :: w') (hc : isLetter c) (hw' : ∀ d ∈ w', isLetterOrDigit d)
    (hcs : EndsWord cs) (h : Lexes cs ls) : Lexes (w.toList ++ cs) (.ofWord w :: ls) := by
  intro pos
  obtain ⟨ht, hd⟩ := takeWhile_append hw' hcs
  obtain ⟨toks, hs, hl⟩ := h (pos + (c :: w').length)
  refine ⟨⟨.ofWord w, pos, pos + (c :: w').length⟩ :: toks, ?_, by rw [List.map_cons, hl]⟩
  rw [hw, List.cons_append, Token.scan, if_neg (by simp [isBlank_of_isLetter hc]),
    if_pos (by rw [isWordStart_eq]; exact hc)]
  have hof : String.ofList (c :: w') = w := by rw [← hw, String.ofList_toList]
  rw [isWordChar_eq]
  simp only [ht, hd, hof, hs]
  rfl

/-- A name is a word that `Lexeme.ofWord` does not take for a keyword. -/
theorem name {n : String} {cs : List Char} {ls : List Lexeme} (hn : isName n) (hcs : EndsWord cs)
    (h : Lexes cs ls) : Lexes (n.toList ++ cs) (.word n :: ls) := by
  obtain ⟨c, w, hw, hc, hw', h₁, h₂⟩ := isName_iff.mp hn
  have hof : Lexeme.ofWord n = .word n := by simp [Lexeme.ofWord, h₁, h₂]
  rw [← hof]; exact ofWord hw hc hw' hcs h

/-- A punctuation is scanned where neither a blank nor a letter stands, and as the longest one that
`Punct.read?` finds. -/
theorem punct {p : Punct} {c : Char} {cs rest : List Char} {ls : List Lexeme}
    (hb : Text.isBlank c = false) (hl : isLetter c = false)
    (hread : Punct.read? c cs = some (p, rest)) (h : Lexes rest ls) :
    Lexes (c :: cs) (.punct p :: ls) := by
  intro pos
  obtain ⟨toks, hs, hm⟩ := h (pos + p.width)
  refine ⟨⟨.punct p, pos, pos + p.width⟩ :: toks, ?_, by rw [List.map_cons, hm]⟩
  rw [Token.scan, if_neg (by simp [hb]), if_neg (by rw [isWordStart_eq]; simp [hl])]
  split
  · rename_i p' rest' heq
    rw [hread] at heq; cases heq
    rw [hs]; rfl
  · rename_i heq
    rw [hread] at heq; cases heq

end Lexes

/-- The text splits into the lexemes in front of every text that `stop` holds of. -/
def Writes (text : String) (stop : List Char → Prop) (ls : List Lexeme) : Prop :=
  ∀ cs ls', stop cs → Lexes cs ls' → Lexes (text.toList ++ cs) (ls ++ ls')

/-- Any text at all. -/
def Anything (_ : List Char) : Prop := True

/-- What follows extends neither a word nor an ampersand. -/
def EndsType (cs : List Char) : Prop := EndsWord cs ∧ cs.head? ≠ some '&'

theorem endsWord_cons {c : Char} (cs : List Char) (h : isLetterOrDigit c = false) :
    EndsWord (c :: cs) := by
  intro d hd
  cases hd; exact h

theorem endsType_cons {c : Char} (cs : List Char) (h : isLetterOrDigit c = false) (hc : c ≠ '&') :
    EndsType (c :: cs) :=
  ⟨endsWord_cons cs h, by simpa using hc⟩

namespace Writes

variable {a b : String} {stop stop' : List Char → Prop} {ls ls' : List Lexeme}

/-- A text that is read well in front of more may be followed by less. -/
theorem mono (h : Writes a stop ls) (hstop : ∀ cs, stop' cs → stop cs) : Writes a stop' ls :=
  fun cs ls' hcs hl => h cs ls' (hstop cs hcs) hl

/-- Two texts side by side, where the second does not extend the last token of the first. -/
theorem append (ha : Writes a stop ls) (hb : Writes b stop' ls')
    (h : ∀ cs, stop' cs → stop (b.toList ++ cs)) : Writes (a ++ b) stop' (ls ++ ls') := by
  intro cs l hcs hl
  rw [String.toList_append, List.append_assoc, List.append_assoc]
  exact ha _ _ (h cs hcs) (hb cs l hcs hl)

theorem name {n : String} (hn : isName n) : Writes n EndsWord [.word n] :=
  fun _ _ hcs hl => hl.name hn hcs

/-- A punctuation that starts no longer one, so it may stand in front of `Anything`. -/
theorem punct (p : Punct) (hp : p ≠ .colon ∧ p ≠ .dash ∧ p ≠ .amp) :
    Writes p.text Anything [.punct p] := by
  intro cs l _ hl
  cases p
  case colon | dash | amp => simp at hp
  all_goals exact hl.punct rfl rfl rfl

theorem comma : Writes ", " Anything [.punct .comma] := fun _ _ _ hl => hl.blank.punct rfl rfl rfl

theorem colon : Writes ": " Anything [.punct .colon] := fun _ _ _ hl => hl.blank.punct rfl rfl rfl

/-- The hyphen of the arrow is no token of its own: `Punct.read?` takes both characters. -/
theorem arrow : Writes " -> " Anything [.punct .arrow] :=
  fun _ _ _ hl => (hl.blank.punct rfl rfl rfl).blank

/-- One ampersand is followed by no other, or both would be read as `&&`. This is why `EndsType` is more than
`EndsWord`. -/
theorem amp : Writes "&" EndsType [.punct .amp] := by
  intro cs l hcs hl
  have hread : Punct.read? '&' cs = some (.amp, cs) := by
    cases cs with
    | nil => rfl
    | cons c cs =>
      have hc : c ≠ '&' := by simpa using hcs.2
      unfold Punct.read?
      split <;> simp_all
  exact Lexes.punct rfl rfl hread hl

/-- A qualifier after a blank. -/
theorem qualifier (q : Qualifier) : Writes (" " ++ q.lexeme.text) EndsWord [q.lexeme] := by
  intro cs l hcs hl
  cases q
  · exact (Lexes.ofWord (w := "const") rfl rfl (List.all_eq_true.mp rfl) hcs hl).blank
  · exact (Lexes.ofWord (w := "noexcept") rfl rfl (List.all_eq_true.mp rfl) hcs hl).blank
  · exact (Lexes.ofWord (w := "off_thread") rfl rfl (List.all_eq_true.mp rfl) hcs hl).blank

end Writes

namespace TypeExpr

/-! ## Well-formed trees -/

/-- Modifiers may stand around it: a name, a template, or one of these under constness and pointers. -/
def isBase : TypeExpr → Bool
  | .named _ | .template _ _ | .modified .const _ | .modified .pointer _ => true
  | _ => false

/-- The trees that some text spells. -/
inductive WellFormed : TypeExpr → Prop
  | named {n} : IsScopedName n → WellFormed (.named n)
  | template {n args} : IsScopedName n → args ≠ [] → (∀ a ∈ args, WellFormed a) →
      WellFormed (.template n args)
  | func {params ret quals} : (∀ p ∈ params, isName p.1) → (∀ p ∈ params, WellFormed p.2) →
      WellFormed ret → WellFormed (.func ⟨params, ret, quals⟩)
  | modified {m t} : t.isBase → WellFormed t → WellFormed (.modified m t)

/-! ## Printing -/

theorem renderArgs_eq_map (args : List TypeExpr) : renderArgs args = args.map render := by
  induction args with
  | nil => rfl
  | cons t ts ih => rw [renderArgs, ih, List.map_cons]

theorem renderParams_eq_map (params : List (String × TypeExpr)) :
    renderParams params = params.map fun p => p.1 ++ ": " ++ p.2.render := by
  induction params with
  | nil => rfl
  | cons p ps ih => rw [renderParams, ih, List.map_cons]

/-- The text splits into lexemes that the grammar derives as the phrase, in front of every text that
`stop` holds of. -/
def Spelled (text : String) (stop : List Char → Prop) (p : Phrase) : Prop :=
  ∃ ls, Derives ls p ∧ Writes text stop ls

/-- By induction over the words: each `::` ends the word before it, and only the last has to be followed by
`EndsWord`. -/
theorem spelled_scopedName {s : String} (h : IsScopedName s) : Spelled s EndsWord (.scopedName s) := by
  obtain ⟨names, hne, hnames, rfl⟩ := h
  induction names using List.reverseRecOn with
  | nil => exact absurd rfl hne
  | append_singleton names n ih =>
    have hn := Writes.name (hnames n (by simp))
    by_cases hnil : names = []
    · subst hnil
      exact ⟨_, .name, by simpa using hn⟩
    · obtain ⟨ls, hd, hw⟩ := ih hnil fun m hm => hnames m (by simp [hm])
      rw [String.intercalate_append_of_ne_nil hnil (by simp), String.intercalate_singleton]
      have hscope : Writes "::" Anything [.punct .scope] := Writes.punct .scope (by decide)
      refine ⟨_, .scope hd, ?_⟩
      simpa using (hw.append hscope fun cs _ => endsWord_cons _ rfl).append hn fun _ _ => trivial

/-- One or more items with the same text between them, where the separator ends every item. By induction over
the items behind the first. -/
theorem spelled_separated {α : Type} {sep : String} {lex : Lexeme} (f : α → String)
    (one : α → Phrase) (many : List α → Phrase) (hsep : Writes sep Anything [lex])
    (hstop : ∀ cs, EndsType (sep.toList ++ cs))
    (hone : ∀ a ls, Derives ls (one a) → Derives ls (many [a]))
    (hmore : ∀ as a ls ls', Derives ls (many as) → Derives ls' (one a) →
      Derives (ls ++ lex :: ls') (many (as ++ [a])))
    {l : List α} (hne : l ≠ []) (h : ∀ a ∈ l, Spelled (f a) EndsType (one a)) :
    Spelled (sep.intercalate (l.map f)) EndsType (many l) := by
  -- The grammar puts the last item after a complete list, so the induction takes it off.
  induction l using List.reverseRecOn with
  | nil => exact absurd rfl hne
  | append_singleton l a ih =>
    obtain ⟨ls, hd, hw⟩ := h a (by simp)
    by_cases hnil : l = []
    · subst hnil
      exact ⟨ls, hone a ls hd, by simpa using hw⟩
    · obtain ⟨ls', hd', hw'⟩ := ih hnil fun b hb => h b (by simp [hb])
      rw [List.map_append, String.intercalate_append_of_ne_nil (by simpa using hnil) (by simp),
        List.map_singleton, String.intercalate_singleton]
      refine ⟨_, hmore l a _ _ hd' hd, ?_⟩
      simpa using (hw'.append hsep fun cs _ => hstop cs).append hw fun _ _ => trivial

theorem endsType_comma (cs : List Char) : EndsType (", ".toList ++ cs) :=
  endsType_cons _ rfl (by decide)

/-- The arguments of a template are types with `, ` between them, by `spelled_separated`. -/
theorem spelled_arguments {args : List TypeExpr} (hne : args ≠ [])
    (h : ∀ a ∈ args, Spelled a.render EndsType (.type a)) :
    Spelled (", ".intercalate (args.map render)) EndsType (.arguments args) :=
  spelled_separated render .type .arguments Writes.comma endsType_comma (fun _ _ => .argument)
    (fun _ _ _ _ => .moreArguments) hne h

/-- The name of a parameter is ended by its colon, and its type is followed by what may follow a type. -/
theorem spelled_param {x : String} {t : TypeExpr} (hx : isName x)
    (ht : Spelled t.render EndsType (.type t)) :
    Spelled (x ++ ": " ++ t.render) EndsType (.param x t) := by
  obtain ⟨ls, hd, hw⟩ := ht
  have hcolon := (Writes.name hx).append Writes.colon fun cs _ => endsWord_cons _ rfl
  exact ⟨_, .param hd, hcolon.append hw fun _ _ => trivial⟩

/-- Parameters are separated like arguments, by `spelled_separated`. -/
theorem spelled_params {params : List (String × TypeExpr)} (hne : params ≠ [])
    (hx : ∀ p ∈ params, isName p.1)
    (ht : ∀ p ∈ params, Spelled p.2.render EndsType (.type p.2)) :
    Spelled (", ".intercalate (params.map fun p => p.1 ++ ": " ++ p.2.render)) EndsType
      (.params params) := by
  refine spelled_separated _ (fun p => .param p.1 p.2) .params Writes.comma endsType_comma
    ?_ ?_ hne ?_
  · intro p ls h; exact .firstParam h
  · intro ps p ls ls' h h'; exact .moreParams h h'
  · intro p hp; exact spelled_param (hx p hp) (ht p hp)

/-- The brackets around parameters are there without any, which `Phrase.params` does not derive; so the empty
list is a case of its own. -/
theorem spelled_header {params : List (String × TypeExpr)} (hx : ∀ p ∈ params, isName p.1)
    (ht : ∀ p ∈ params, Spelled p.2.render EndsType (.type p.2)) :
    Spelled ("(" ++ ", ".intercalate (params.map fun p => p.1 ++ ": " ++ p.2.render) ++ ")")
      Anything (.header params) := by
  have hopen : Writes "(" Anything [.punct .lparen] := Writes.punct .lparen (by decide)
  have hclose : Writes ")" Anything [.punct .rparen] := Writes.punct .rparen (by decide)
  by_cases hnil : params = []
  · subst hnil
    refine ⟨_, .noParams, ?_⟩
    simpa using hopen.append hclose fun _ _ => trivial
  · obtain ⟨ls, hd, hw⟩ := spelled_params hnil hx ht
    refine ⟨_, .someParams hd, ?_⟩
    exact (hopen.append hw fun _ _ => trivial).append hclose
      fun cs _ => endsType_cons _ rfl (by decide)

/-- The qualifiers in the order in which they are printed. -/
def printedQualifiers (quals : Qualifiers) : List Qualifier :=
  [.const, .noexcept, .offThread].filter quals.has

/-- The qualifiers are read from the list that is printed, whatever their order in the text was before. -/
theorem ofList_printedQualifiers (quals : Qualifiers) :
    Qualifiers.ofList (printedQualifiers quals) = quals := by
  rcases quals with ⟨_ | _, _ | _, _ | _⟩ <;> rfl

theorem render_eq_join (quals : Qualifiers) :
    quals.render = String.join ((printedQualifiers quals).map fun q => " " ++ q.lexeme.text) := by
  rcases quals with ⟨_ | _, _ | _, _ | _⟩ <;> rfl

/-- By induction over the qualifiers: the blank in front of the next one ends the one before it. -/
theorem writes_qualifiers (qs : List Qualifier) :
    Writes (String.join (qs.map fun q => " " ++ q.lexeme.text)) EndsWord
      (qs.map Qualifier.lexeme) := by
  induction qs with
  | nil => intro cs l _ hl; exact hl
  | cons q qs ih =>
    rw [List.map_cons, String.join_cons]
    refine (Writes.qualifier q).append ih fun cs hcs => ?_
    cases qs with
    | nil => exact hcs
    | cons q' qs =>
      rw [List.map_cons, String.join_cons, String.append_assoc, String.toList_append,
        List.append_assoc]
      exact endsWord_cons _ rfl

/-- The result of a function is followed by a qualifier or by what may follow the function, and both end a type.
-/
theorem spelled_func {params : List (String × TypeExpr)} {ret : TypeExpr} {quals : Qualifiers}
    (hx : ∀ p ∈ params, isName p.1)
    (ht : ∀ p ∈ params, Spelled p.2.render EndsType (.type p.2))
    (hret : Spelled ret.render EndsType (.type ret)) :
    Spelled (render (.func ⟨params, ret, quals⟩)) EndsType (.type (.func ⟨params, ret, quals⟩)) := by
  obtain ⟨hs, hd, hw⟩ := spelled_header hx ht
  obtain ⟨ls, hd', hw'⟩ := hret
  have hnd : (printedQualifiers quals).Nodup := List.filter_sublist.nodup (by decide)
  have hfunc := Derives.ofFunction (.function (printedQualifiers quals) hd hnd hd')
  rw [ofList_printedQualifiers] at hfunc
  refine ⟨_, hfunc, ?_⟩
  rw [render, renderParams_eq_map, render_eq_join]
  have hq := hw.append (writes_qualifiers (printedQualifiers quals)) fun _ _ => trivial
  have harrow := hq.append Writes.arrow fun cs _ => endsWord_cons _ rfl
  simpa using harrow.append hw' fun _ _ => trivial

/-- A template ends with its bracket, which nothing extends, so it may be followed by `Anything`. -/
theorem spelled_template {n : String} {args : List TypeExpr} (hn : IsScopedName n) (hne : args ≠ [])
    (h : ∀ a ∈ args, Spelled a.render EndsType (.type a)) :
    Spelled (render (.template n args)) Anything (.core (.template n args)) := by
  obtain ⟨ns, hdn, hwn⟩ := spelled_scopedName hn
  obtain ⟨ls, hd, hw⟩ := spelled_arguments hne h
  refine ⟨_, .template hdn hd, ?_⟩
  rw [render, renderArgs_eq_map]
  have hlangle : Writes "<" Anything [.punct .langle] := Writes.punct .langle (by decide)
  have hrangle : Writes ">" Anything [.punct .rangle] := Writes.punct .rangle (by decide)
  have hopen := hwn.append hlangle fun cs _ => endsWord_cons _ rfl
  simpa using (hopen.append hw fun _ _ => trivial).append hrangle
    fun cs _ => endsType_cons _ rfl (by decide)

/-- A type that modifiers may follow, with one more of them. The grammar derives it as a `Phrase.base` again
unless the modifier is a reference. -/
theorem spelled_modified {m : Modifier} {t : TypeExpr} (h : Spelled t.render EndsWord (.base t)) :
    Spelled (render (.modified m t)) EndsType (.type (.modified m t)) ∧
      ((TypeExpr.modified m t).isBase →
        Spelled (render (.modified m t)) EndsWord (.base (.modified m t))) := by
  obtain ⟨ls, hd, hw⟩ := h
  cases m with
  | const =>
    have hconst := hw.append (Writes.qualifier .const) fun cs _ => endsWord_cons _ rfl
    exact ⟨⟨_, .ofReference (.ofBase (.const hd)), hconst.mono fun _ h => h.1⟩,
      fun _ => ⟨_, .const hd, hconst⟩⟩
  | pointer =>
    have hstar : Writes "*" Anything [.punct .star] := Writes.punct .star (by decide)
    have hpointer := hw.append hstar fun cs _ => endsWord_cons _ rfl
    exact ⟨⟨_, .ofReference (.ofBase (.pointer hd)), hpointer.mono fun _ _ => trivial⟩,
      fun _ => ⟨_, .pointer hd, hpointer.mono fun _ _ => trivial⟩⟩
  | ref =>
    have href := hw.append Writes.amp fun cs _ => endsWord_cons _ rfl
    exact ⟨⟨_, .ofReference (.ref hd), href⟩, fun h => by cases h⟩
  | rref =>
    have hamp : Writes "&&" Anything [.punct .ampAmp] := Writes.punct .ampAmp (by decide)
    have hrref := hw.append hamp fun cs _ => endsWord_cons _ rfl
    exact ⟨⟨_, .ofReference (.rref hd), hrref.mono fun _ _ => trivial⟩, fun h => by cases h⟩

/-- The printed text of a well-formed tree splits into lexemes that spell the tree. Around a type that
modifiers may follow, only a word could run on; around any other, also an ampersand. -/
theorem spelled_of_wellFormed {t : TypeExpr} (h : WellFormed t) :
    Spelled t.render EndsType (.type t) ∧ (t.isBase → Spelled t.render EndsWord (.base t)) := by
  induction h with
  | named hn =>
    obtain ⟨ls, hd, hw⟩ := spelled_scopedName hn
    exact ⟨⟨ls, .ofReference (.ofBase (.ofCore (.named hd))), hw.mono fun _ h => h.1⟩,
      fun _ => ⟨ls, .ofCore (.named hd), hw⟩⟩
  | template hn hne _ ih =>
    obtain ⟨ls, hd, hw⟩ := spelled_template hn hne fun a ha => (ih a ha).1
    exact ⟨⟨ls, .ofReference (.ofBase (.ofCore hd)), hw.mono fun _ _ => trivial⟩,
      fun _ => ⟨ls, .ofCore hd, hw.mono fun _ _ => trivial⟩⟩
  | func hx _ _ ihp ihr =>
    exact ⟨spelled_func hx (fun p hp => (ihp p hp).1) ihr.1, fun h => by cases h⟩
  | modified hb _ ih => exact spelled_modified (ih.2 hb)

/-- The tokens of the printed text spell the tree by `spelled_of_wellFormed`, and the parser finds what the
grammar derives. -/
theorem parse_render_of_wellFormed {t : TypeExpr} (h : WellFormed t) : parse t.render = .ok t := by
  obtain ⟨ls, hd, hw⟩ := (spelled_of_wellFormed h).1
  have hend : EndsType [] := ⟨by simp [EndsWord], by simp⟩
  obtain ⟨toks, hs, hl⟩ := hw [] [] hend Lexes.nil 0
  rw [List.append_nil] at hs hl
  refine parse_iff_derives.mpr ⟨toks, ?_, by rw [hl]; exact hd⟩
  rw [tokenize, hs]; rfl

/-- `isComplete` looks at every argument of a template through its own recursion over the list; this is the same
as a statement about its members. -/
theorem isComplete_template {n : String} {args : List TypeExpr} :
    (template n args).isComplete ↔ ∀ a ∈ args, a.isComplete := by
  rw [isComplete]
  induction args with
  | nil => simp [argsComplete]
  | cons a as ih => simp [argsComplete, ih]

/-- As in `isComplete_template`, for the parameters and the result of a function. -/
theorem isComplete_func {params : List (String × TypeExpr)} {ret : TypeExpr} {quals : Qualifiers} :
    (func ⟨params, ret, quals⟩).isComplete ↔ (∀ p ∈ params, p.2.isComplete) ∧ ret.isComplete := by
  rw [isComplete, Bool.and_eq_true]
  refine and_congr_left fun _ => ?_
  induction params with
  | nil => simp [paramsComplete]
  | cons p ps ih => simp [paramsComplete, ih]

/-- A `WellFormed` tree has no template without arguments at any depth, by induction over the derivation. -/
theorem isComplete_of_wellFormed {t : TypeExpr} (h : WellFormed t) : t.isComplete := by
  induction h with
  | named => rfl
  | template _ _ _ ih => exact isComplete_template.mpr ih
  | func _ _ _ ihp ihr => exact isComplete_func.mpr ⟨ihp, ihr⟩
  | modified _ _ ih => simpa [isComplete] using ih

/-! ## Reading -/

/-- A word that is not read as a keyword is neither of them, so with its characters it is a name. -/
theorem isName_of_ofWord {c : Char} {cs : List Char} {w : String} (hc : isLetter c)
    (hcs : ∀ d ∈ cs, isLetterOrDigit d) (h : Lexeme.ofWord (String.ofList (c :: cs)) = .word w) :
    isName w := by
  unfold Lexeme.ofWord at h
  split at h
  · cases h
  · rename_i h₁
    split at h
    · cases h
    · rename_i h₂
      cases h
      exact isName_iff.mpr ⟨c, cs, String.toList_ofList, hc, hcs, by simpa using h₁, by simpa using h₂⟩

/-- The words among the tokens of a text are names: by induction over `Token.scan`, of which only one branch
gives a word. -/
theorem isName_of_scan {pos : Nat} {cs : List Char} {toks : List Token}
    (h : Token.scan pos cs = .ok toks) : ∀ w, .word w ∈ toks.map (·.lexeme) → isName w := by
  fun_induction Token.scan pos cs generalizing toks with
  | case1 => cases h; simp
  | case2 pos c cs _ ih => exact ih h
  | case3 pos c cs _ hc word stop =>
    rename_i ih
    obtain ⟨toks', hs, rfl⟩ := Except.map_eq_ok.mp h
    intro w hw
    rcases List.mem_cons.mp hw with hw | hw
    · exact isName_of_ofWord hc (fun d hd => List.mem_takeWhile_imp hd) hw.symm
    · exact ih hs w hw
  | case4 pos c cs _ _ p rest _ ih =>
    obtain ⟨toks', hs, rfl⟩ := Except.map_eq_ok.mp h
    intro w hw
    rcases List.mem_cons.mp hw with hw | hw
    · cases hw
    · exact ih hs w hw
  | case5 => cases h

/-- What the grammar says of the value of a phrase whose words are names. -/
def Phrase.WellFormed : Phrase → Prop
  | .type t | .reference t => t.WellFormed
  | .base t | .core t => t.WellFormed ∧ t.isBase
  | .scopedName n => IsScopedName n
  | .arguments args => args ≠ [] ∧ ∀ a ∈ args, a.WellFormed
  | .function sig => (TypeExpr.func sig).WellFormed
  | .header ps | .params ps => ∀ p ∈ ps, isName p.1 ∧ p.2.WellFormed
  | .param x t => isName x ∧ t.WellFormed

theorem wellFormed_void : WellFormed .void := .named ⟨["void"], by decide⟩

theorem wellFormed_func {params : List (String × TypeExpr)} {ret : TypeExpr} {quals : Qualifiers}
    (hp : ∀ p ∈ params, isName p.1 ∧ p.2.WellFormed) (hr : ret.WellFormed) :
    WellFormed (.func ⟨params, ret, quals⟩) :=
  .func (fun p h => (hp p h).1) (fun p h => (hp p h).2) hr

/-- The grammar builds well-formed values from names, by induction over the derivation: one case for each rule
of `Derives`. -/
theorem wellFormed_of_derives {ls : List Lexeme} {p : Phrase} (h : Derives ls p)
    (hw : ∀ w, .word w ∈ ls → isName w) : p.WellFormed := by
  induction h with
  | ofFunction _ ih | ofReference _ ih | ofCore _ ih => exact ih hw
  | ofBase _ ih => exact (ih hw).1
  | ref _ ih | rref _ ih =>
    obtain ⟨ht, hb⟩ := ih fun w h => hw w (by simp [h])
    exact .modified hb ht
  -- a modifier may stand around what was read so far, and modifiers may follow again
  | lead _ ih | const _ ih | pointer _ ih =>
    obtain ⟨ht, hb⟩ := ih fun w h => hw w (by simp [h])
    exact ⟨.modified hb ht, rfl⟩
  | named _ ih => exact ⟨.named (ih hw), rfl⟩
  | template _ _ ihn iha =>
    obtain ⟨hne, hargs⟩ := iha fun w h => hw w (by simp [h])
    exact ⟨.template (ihn fun w h => hw w (by simp [h])) hne hargs, rfl⟩
  | @name n => exact ⟨[n], by simpa using hw n (by simp)⟩
  -- the names before `::` and the one behind it make one scoped name
  | @scope _ _ m _ ih =>
    obtain ⟨names, hne, hnames, rfl⟩ := ih fun w h => hw w (by simp [h])
    refine ⟨names ++ [m], by simp, fun w h => ?_, ?_⟩
    · rcases List.mem_append.mp h with h | h
      · exact hnames w h
      · rw [List.mem_singleton.mp h]; exact hw m (by simp)
    · rw [String.intercalate_append_of_ne_nil hne (by simp), String.intercalate_singleton]
  | argument _ ih => exact ⟨by simp, fun a h => List.mem_singleton.mp h ▸ ih hw⟩
  | moreArguments _ _ iha iht =>
    refine ⟨by simp, fun a h => ?_⟩
    rcases List.mem_append.mp h with h | h
    · exact (iha fun w h => hw w (by simp [h])).2 a h
    · rw [List.mem_singleton.mp h]; exact iht fun w h => hw w (by simp [h])
  | procedure _ _ _ ih =>
    exact wellFormed_func (ih fun w h => hw w (by simp [h])) wellFormed_void
  | function _ _ _ _ ihh iht =>
    exact wellFormed_func (ihh fun w h => hw w (by simp [h])) (iht fun w h => hw w (by simp [h]))
  | noParams => intro p hp; cases hp
  | someParams _ ih => exact ih fun w h => hw w (by simp [h])
  | firstParam _ ih => intro p hp; rw [List.mem_singleton.mp hp]; exact ih hw
  | moreParams _ _ ihs ih =>
    intro p hp
    rcases List.mem_append.mp hp with hp | hp
    · exact ihs (fun w h => hw w (by simp [h])) p hp
    · rw [List.mem_singleton.mp hp]; exact ih fun w h => hw w (by simp [h])
  | @param _ x _ _ ih => exact ⟨hw x (by simp), ih fun w h => hw w (by simp [h])⟩

/-- What `parse` gives is derived from tokens by the grammar, and the words among them are names by
`isName_of_scan`. -/
theorem wellFormed_of_parse {text : String} {t : TypeExpr} (h : parse text = .ok t) :
    WellFormed t := by
  obtain ⟨toks, ht, hd⟩ := parse_iff_derives.mp h
  exact wellFormed_of_derives hd (isName_of_scan (Except.mapError_eq_ok.mp ht))

/-! ## Round trip -/

/-- **Round trip.** The trees that reading gives are the well-formed ones, and reading the printed
text of any of them gives it again. -/
theorem parse_print (t : TypeExpr) :
    ((∃ text, parse text = .ok t) ↔ WellFormed t) ∧
      (WellFormed t → ∃ text, t.print? = some text ∧ parse text = .ok t) := by
  refine ⟨⟨fun ⟨_, h⟩ => wellFormed_of_parse h, fun h => ⟨_, parse_render_of_wellFormed h⟩⟩, ?_⟩
  intro h
  exact ⟨t.render, if_pos (isComplete_of_wellFormed h), parse_render_of_wellFormed h⟩

/-- A pointer to a template over a function type, by reference, goes through every rule of printing but that for
qualifiers. -/
theorem parse_print_nested :
    ∃ text, (TypeExpr.modified .ref (.modified .pointer (.template "std::map"
        [.named "a", .func ⟨[("x", .named "b")], .void, ⟨true, false, true⟩⟩]))).print? = some text ∧
      parse text = .ok (.modified .ref (.modified .pointer (.template "std::map"
        [.named "a", .func ⟨[("x", .named "b")], .void, ⟨true, false, true⟩⟩]))) := by
  have hname : ∀ n, isName n → IsScopedName n := fun n h => ⟨[n], by simp, by simpa using h, by simp⟩
  refine (parse_print _).2 (.modified rfl (.modified rfl (.template ⟨["std", "map"], ?_⟩ ?_ ?_)))
  · decide
  · simp
  · simp only [List.forall_mem_cons, List.not_mem_nil, false_imp_iff, implies_true, and_true]
    refine ⟨.named (hname _ rfl), .func ?_ ?_ (.named (hname _ rfl))⟩
    · have hx : isName "x" := rfl
      simpa using hx
    · simpa using WellFormed.named (hname "b" rfl)

end TypeExpr

end LuaGlue
