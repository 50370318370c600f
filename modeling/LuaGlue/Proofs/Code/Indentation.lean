import LuaGlue.Proofs.Code.Runs
import Mathlib.Data.List.Forall2

/-!
# Indentation

- **Nesting** (`WellNested`): every indent is undone and every block is closed, and what lies between is well
  nested in turn. The steps that are open, innermost first, decide it (`wellNested_iff`).
- **Pairs** (`Pair`): the places of a step and of the one that undoes it. A pair lies inside well-nested steps
  or outside of them (`not_pair_across`).
- **Depth** (`depth`): the number of pairs around a place, for steps in sequence and for enclosed ones.
- **Runs** (`run_wellNested`): well-nested steps write a line for every line, header and footer, as deep as it
  lies, and leave the rest of the builder as it was.
-/

namespace LuaGlue.Code

variable {o c s : Step} {steps u v w : List Step} {i i' j : Nat} {t : String}

/-! ## Nesting -/

/-- The second step undoes the first one. -/
def Step.undoneBy : Step → Step → Bool
  | .indent, .dedent => true
  | .openBlock _ _, .closeBlock => true
  | _, _ => false

/-- Every indent is undone by a dedent and every block is closed, innermost first. -/
inductive WellNested : List Step → Prop
  | nil : WellNested []
  | line (text : String) : WellNested [.line text]
  | enclosed {o c : Step} {u : List Step} (hoc : o.undoneBy c) (hu : WellNested u) : WellNested (o :: u ++ [c])
  | append {u v : List Step} (hu : WellNested u) (hv : WellNested v) : WellNested (u ++ v)

/-- What is open behind a step, when the stack is open in front of it. The step may only undo the top. -/
def Step.after (stack : List Step) (s : Step) : Option (List Step) :=
  match s with
  | .line _ => some stack
  | .indent | .openBlock _ _ => some (s :: stack)
  | .dedent | .closeBlock =>
    match stack with
    | [] => none
    | o :: rest => if o.undoneBy s then some rest else none

/-- What is open behind the steps. -/
def openBehind (stack steps : List Step) : Option (List Step) := steps.foldlM Step.after stack

theorem openBehind_cons (stack : List Step) :
    openBehind stack (s :: steps) = (s.after stack).bind fun stack' => openBehind stack' steps :=
  List.foldlM_cons

/-- What is open behind two parts is what the second leaves of the stack behind the first. -/
theorem openBehind_append (stack : List Step) :
    openBehind stack (u ++ v) = (openBehind stack u).bind fun stack' => openBehind stack' v :=
  List.foldlM_append

/-- There are two ways to undo a step, and a footer may be any text. -/
theorem Step.undoneBy_iff : o.undoneBy c ↔
    o = .indent ∧ c = .dedent ∨ ∃ header footer, o = .openBlock header footer ∧ c = .closeBlock := by
  cases o <;> cases c <;> simp [Step.undoneBy]

theorem Step.after_opener (h : o.undoneBy c) (stack : List Step) : o.after stack = some (o :: stack) := by
  rcases Step.undoneBy_iff.mp h with ⟨rfl, rfl⟩ | ⟨header, footer, rfl, rfl⟩ <;> rfl

theorem Step.after_closer (h : o.undoneBy c) (stack : List Step) : c.after (o :: stack) = some stack := by
  rcases Step.undoneBy_iff.mp h with ⟨rfl, rfl⟩ | ⟨header, footer, rfl, rfl⟩ <;> rfl

theorem Step.after_closer_nil (h : o.undoneBy c) : c.after [] = none := by
  rcases Step.undoneBy_iff.mp h with ⟨rfl, rfl⟩ | ⟨header, footer, rfl, rfl⟩ <;> rfl

/-- A step writes a line, opens something, or undoes what is open innermost. This is all of `Step.after`. -/
theorem Step.after_cases {stack stack' : List Step} (h : s.after stack = some stack') :
    (∃ text, s = .line text ∧ stack' = stack) ∨ (∃ c, s.undoneBy c ∧ stack' = s :: stack) ∨
      ∃ o, o.undoneBy s ∧ stack = o :: stack' := by
  cases s with
  | line text =>
    cases h
    exact .inl ⟨text, rfl, rfl⟩
  | indent =>
    cases h
    exact .inr (.inl ⟨.dedent, rfl, rfl⟩)
  | openBlock header footer =>
    cases h
    exact .inr (.inl ⟨.closeBlock, rfl, rfl⟩)
  | dedent | closeBlock =>
    cases stack with
    | nil => cases h
    | cons o rest =>
      obtain ⟨ho, hrest⟩ := Option.ite_none_right_eq_some.mp h
      cases hrest
      exact .inr (.inr ⟨o, ho, rfl⟩)

/-- A step does not look below what it undoes. -/
theorem Step.after_frame {stack stack' : List Step} (h : s.after stack = some stack') (base : List Step) :
    s.after (stack ++ base) = some (stack' ++ base) := by
  rcases Step.after_cases h with ⟨text, rfl, rfl⟩ | ⟨c, hc, rfl⟩ | ⟨o, ho, rfl⟩
  · rfl
  · exact Step.after_opener hc _
  · exact Step.after_closer ho _

/-- Steps that get along with a stack leave what lies below it as it is, by `Step.after_frame` for each of them.
-/
theorem openBehind_frame {stack stack' : List Step} (h : openBehind stack steps = some stack')
    (base : List Step) : openBehind (stack ++ base) steps = some (stack' ++ base) := by
  induction steps generalizing stack with
  | nil =>
    cases h
    rfl
  | cons s steps ih =>
    rw [openBehind_cons] at h ⊢
    obtain ⟨middle, hs, h⟩ := Option.bind_eq_some_iff.mp h
    rw [Step.after_frame hs]
    exact ih h

namespace WellNested

/-- Behind well-nested steps the same is open as in front of them, by induction over `WellNested`. -/
theorem openBehind_eq (h : WellNested steps) (stack : List Step) : openBehind stack steps = some stack := by
  induction h generalizing stack with
  | nil => rfl
  | line text => rfl
  | enclosed hoc _ ih =>
    rw [openBehind_append, openBehind_cons, Step.after_opener hoc, Option.bind_some, ih, Option.bind_some,
      openBehind_cons, Step.after_closer hoc]
    rfl
  | append _ _ ihu ihv => rw [openBehind_append, ihu, Option.bind_some, ihv]

/-- Well-nested steps may stand anywhere in well-nested ones, by induction over those around. -/
theorem insert (h : WellNested (u ++ v)) (hw : WellNested w) : WellNested (u ++ w ++ v) := by
  generalize hsteps : u ++ v = steps at h
  induction h generalizing u v with
  | nil =>
    obtain ⟨rfl, rfl⟩ := List.append_eq_nil_iff.mp hsteps
    simpa using hw
  | line text =>
    rcases List.append_eq_singleton_iff.mp hsteps with ⟨rfl, rfl⟩ | ⟨rfl, rfl⟩
    · exact hw.append (.line text)
    · simpa using (WellNested.line text).append hw
  | @enclosed o c inner hoc hinner ih =>
    -- in front of the opener, behind the closer, or between them
    cases u with
    | nil =>
      subst hsteps
      exact hw.append (.enclosed hoc hinner)
    | cons a u =>
      rcases v.eq_nil_or_concat' with rfl | ⟨v, z, rfl⟩
      · rw [List.append_nil] at hsteps ⊢
        rw [hsteps]
        exact (WellNested.enclosed hoc hinner).append hw
      · have hends : a = o ∧ u ++ v = inner ∧ z = c := by
          rw [← List.append_assoc, List.append_singleton_inj, List.cons_append, List.cons.injEq] at hsteps
          exact ⟨hsteps.1.1, hsteps.1.2, hsteps.2⟩
        obtain ⟨rfl, hmiddle, rfl⟩ := hends
        simpa using WellNested.enclosed hoc (ih hmiddle)
  | @append s s' hs hs' ih ih' =>
    rcases List.append_eq_append_iff.mp hsteps with ⟨m, rfl, rfl⟩ | ⟨m, rfl, rfl⟩
    · simpa using (ih rfl).append hs'
    · simpa using hs.append (ih' rfl)

end WellNested

/-- What closes the stack is well nested behind it: each step on the stack is put in front with the well-nested
steps up to the one that undoes it. -/
theorem wellNested_of_openBehind {stack : List Step} (h : openBehind stack steps = some []) :
    WellNested (stack.reverse ++ steps) := by
  induction steps generalizing stack with
  | nil =>
    cases h
    exact .nil
  | cons s steps ih =>
    rw [openBehind_cons] at h
    obtain ⟨stack', hs, h⟩ := Option.bind_eq_some_iff.mp h
    have hrest := ih h
    rcases Step.after_cases hs with ⟨text, rfl, rfl⟩ | ⟨c, -, rfl⟩ | ⟨o, ho, rfl⟩
    · simpa using hrest.insert (.line text)
    · simpa using hrest
    · simpa using hrest.insert (.enclosed ho .nil)

/-- Being well nested can be decided by one pass with a stack, as `openBehind` makes it. -/
theorem wellNested_iff : WellNested steps ↔ openBehind [] steps = some [] :=
  ⟨fun h => h.openBehind_eq [], wellNested_of_openBehind⟩

/-- What is open around a step of well-nested ones, from the first step to the last. -/
theorem WellNested.openBehind_at (h : WellNested steps) (hs : steps[i]? = some s) :
    ∃ stack stack', openBehind [] (steps.take i) = some stack ∧ s.after stack = some stack' ∧
      openBehind stack' (steps.drop (i + 1)) = some [] := by
  obtain ⟨hi, rfl⟩ := List.getElem?_eq_some_iff.mp hs
  have hall := h.openBehind_eq []
  rw [← List.take_append_drop i steps, List.drop_eq_getElem_cons hi, openBehind_append] at hall
  obtain ⟨stack, hfront, hall⟩ := Option.bind_eq_some_iff.mp hall
  rw [openBehind_cons] at hall
  obtain ⟨stack', hafter, hback⟩ := Option.bind_eq_some_iff.mp hall
  exact ⟨stack, stack', hfront, hafter, hback⟩

instance (steps : List Step) : Decidable (WellNested steps) := decidable_of_iff' _ wellNested_iff

/-! ## Pairs -/

/-- The step at the first place is undone by the one at the second, and the steps between are well nested. -/
def Pair (steps : List Step) (i j : Nat) : Prop :=
  i < j ∧ (∃ o ∈ steps[i]?, ∃ c ∈ steps[j]?, o.undoneBy c) ∧ WellNested ((steps.take j).drop (i + 1))

instance (steps : List Step) (i j : Nat) : Decidable (Pair steps i j) := inferInstanceAs (Decidable (_ ∧ _ ∧ _))

theorem Pair.lt_length (h : Pair steps i j) : j < steps.length := by
  obtain ⟨-, ⟨o, -, c, hc, -⟩, -⟩ := h
  exact (List.getElem?_eq_some_iff.mp hc).1

/-- Whether two places are a pair depends on the steps up to the second place only. -/
theorem pair_append_left (hj : j < u.length) : Pair (u ++ v) i j ↔ Pair u i j := by
  rw [Pair, Pair]
  refine and_congr_right fun hi => ?_
  rw [List.take_append_of_le_length (Nat.le_of_lt hj), List.getElem?_append_left hj,
    List.getElem?_append_left (Nat.lt_trans hi hj)]

theorem getElem?_append_add (n : Nat) : (u ++ v)[u.length + n]? = v[n]? := by
  rw [List.getElem?_append_right (Nat.le_add_right _ _), Nat.add_sub_cancel_left]

/-- Steps in front shift the places of pairs and change nothing else. -/
theorem pair_append_right : Pair (u ++ v) (u.length + i) (u.length + j) ↔ Pair v i j := by
  have hbetween : ((u ++ v).take (u.length + j)).drop (u.length + i + 1) = (v.take j).drop (i + 1) := by
    rw [List.take_length_add_append, Nat.add_assoc, List.drop_length_add_append]
  rw [Pair, Pair, getElem?_append_add, getElem?_append_add, hbetween, Nat.add_lt_add_iff_left]

theorem pair_cons : Pair (s :: steps) (i + 1) (j + 1) ↔ Pair steps i j := by
  have h := pair_append_right (u := [s]) (v := steps) (i := i) (j := j)
  rwa [List.length_singleton, Nat.add_comm 1 i, Nat.add_comm 1 j, List.singleton_append] at h

/-- No step among well-nested ones is undone behind them: the stack would have to be empty there by
`openBehind_eq`. -/
theorem not_pair_across (hu : WellNested u) (hi : i < u.length) (hj : u.length ≤ j) : ¬Pair (u ++ v) i j := by
  rintro ⟨-, ⟨o, ho, c, -, hoc⟩, hbetween⟩
  rw [List.getElem?_append_left hi] at ho
  rw [List.take_append, List.take_of_length_le hj, List.drop_append_of_le_length hi] at hbetween
  obtain ⟨stack, stack', -, hafter, hback⟩ := hu.openBehind_at ho
  obtain rfl : o :: stack = stack' := Option.some.inj ((Step.after_opener hoc stack).symm.trans hafter)
  -- The rest of `u` begins well-nested steps, so it leaves open what is open in front of it.
  have hrest := hbetween.openBehind_eq []
  rw [openBehind_append] at hrest
  obtain ⟨left, hleft, -⟩ := Option.bind_eq_some_iff.mp hrest
  have hframe := openBehind_frame hleft (o :: stack)
  rw [List.nil_append, hback] at hframe
  simp at hframe

/-- No step among well-nested ones undoes what stands in front of them. -/
theorem eq_length_of_pair_enclosed (hu : WellNested u) (h : Pair (o :: u ++ [c]) 0 (j + 1)) : j = u.length := by
  have hlength := h.lt_length
  obtain ⟨-, ⟨o', -, c', hc', hoc⟩, hbetween⟩ := h
  rcases Nat.lt_or_ge j u.length with hlt | hge
  · rw [List.cons_append, List.getElem?_cons_succ, List.getElem?_append_left hlt] at hc'
    rw [List.cons_append, List.take_succ_cons, List.drop_succ_cons, List.drop_zero,
      List.take_append_of_le_length (Nat.le_of_lt hlt)] at hbetween
    obtain ⟨stack, stack', hfront, hafter, -⟩ := hu.openBehind_at hc'
    obtain rfl : stack = [] := Option.some.inj (hfront.symm.trans (hbetween.openBehind_eq []))
    rw [Step.after_closer_nil hoc] at hafter
    cases hafter
  · simp only [List.cons_append, List.length_cons, List.length_append, List.length_nil] at hlength
    omega

/-- The pairs of enclosed steps are the one around them and those inside. -/
theorem pair_enclosed (hoc : o.undoneBy c) (hu : WellNested u) :
    Pair (o :: u ++ [c]) i j ↔
      i = 0 ∧ j = u.length + 1 ∨ ∃ i' j', i = i' + 1 ∧ j = j' + 1 ∧ j' < u.length ∧ Pair u i' j' := by
  constructor
  · intro h
    obtain ⟨j, rfl⟩ := Nat.exists_eq_succ_of_ne_zero (Nat.ne_zero_of_lt h.1)
    cases i with
    | zero => exact .inl ⟨rfl, congrArg (· + 1) (eq_length_of_pair_enclosed hu h)⟩
    | succ i =>
      rw [List.cons_append, pair_cons] at h
      have hij := h.1
      have hj := h.lt_length
      rw [List.length_append, List.length_singleton] at hj
      rcases Nat.lt_or_ge j u.length with hlt | hge
      · exact .inr ⟨i, j, rfl, rfl, hlt, (pair_append_left hlt).mp h⟩
      · exact absurd h (not_pair_across hu (by omega) hge)
  · rintro (⟨rfl, rfl⟩ | ⟨i, j, rfl, rfl, hj, h⟩)
    · refine ⟨by omega, ⟨o, rfl, c, by simp, hoc⟩, ?_⟩
      simpa using hu
    · rw [List.cons_append, pair_cons]
      exact (pair_append_left hj).mpr h

/-- The steps in front of a pair's inner steps, those, and the rest. -/
theorem Pair.split (h : Pair steps i j) : ∃ front inner back, steps = front ++ (inner ++ back) ∧
    front.length = i + 1 ∧ j = front.length + inner.length ∧ WellNested inner := by
  have hij := h.1
  have hj := h.lt_length
  have hfront : (steps.take j).take (i + 1) = steps.take (i + 1) := by rw [List.take_take, Nat.min_eq_left hij]
  refine ⟨steps.take (i + 1), (steps.take j).drop (i + 1), steps.drop j, ?_, ?_, ?_, h.2.2⟩
  · rw [← List.append_assoc, ← hfront, List.take_append_drop, List.take_append_drop]
  · rw [List.length_take]
    omega
  · rw [List.length_take, List.length_drop, List.length_take]
    omega

/-- A step undoes at most one other: what is opened inside the pair is undone inside, by `not_pair_across`. -/
theorem Pair.opener_unique (h : Pair steps i j) (h' : Pair steps i' j) : i = i' := by
  have hle {i i' : Nat} (h : Pair steps i j) (h' : Pair steps i' j) : i' ≤ i := by
    by_contra hlt
    obtain ⟨front, inner, back, rfl, hfront, rfl, hinner⟩ := h.split
    obtain ⟨n, rfl⟩ := Nat.exists_eq_add_of_le (show front.length ≤ i' by omega)
    have hn := h'.1
    exact not_pair_across hinner (by omega) (Nat.le_refl _) (pair_append_right.mp h')
  exact Nat.le_antisymm (hle h' h) (hle h h')

/-! ## Depth -/

/-- The number of pairs around a place: what is opened in front of it and undone behind it. -/
def depth (steps : List Step) (j : Nat) : Nat :=
  (List.range j).countP fun i => ∃ k < steps.length, j < k ∧ Pair steps i k

/-- No pair goes across the end of well-nested steps, so what follows them does not add to a depth. -/
theorem depth_append_left (hu : WellNested u) (hj : j < u.length) : depth (u ++ v) j = depth u j := by
  refine List.countP_congr fun i hi => ?_
  have hiu : i < u.length := Nat.lt_trans (List.mem_range.mp hi) hj
  simp only [decide_eq_true_eq]
  constructor
  · rintro ⟨k, hk, hjk, h⟩
    rcases Nat.lt_or_ge k u.length with hku | hku
    · exact ⟨k, hku, hjk, (pair_append_left hku).mp h⟩
    · exact absurd h (not_pair_across hu hiu hku)
  · rintro ⟨k, hk, hjk, h⟩
    exact ⟨k, by simp; omega, hjk, (pair_append_left hk).mpr h⟩

/-- Well-nested steps in front have no pair that reaches over what follows. -/
theorem depth_append_right (hu : WellNested u) : depth (u ++ v) (u.length + j) = depth v j := by
  rw [depth, List.range_add, List.countP_append, List.countP_map, List.countP_eq_zero.mpr, Nat.zero_add]
  · refine List.countP_congr fun i _ => ?_
    simp only [Function.comp_apply, decide_eq_true_eq]
    constructor
    · rintro ⟨k, hk, hjk, h⟩
      obtain ⟨k, rfl⟩ := Nat.exists_eq_add_of_le (Nat.le_of_lt (Nat.lt_of_le_of_lt (Nat.le_add_right _ _) hjk))
      rw [List.length_append] at hk
      exact ⟨k, by omega, by omega, pair_append_right.mp h⟩
    · rintro ⟨k, hk, hjk, h⟩
      exact ⟨u.length + k, by simp; omega, by omega, pair_append_right.mpr h⟩
  · intro i hi
    simp only [decide_eq_true_eq]
    rintro ⟨k, -, hjk, h⟩
    exact not_pair_across hu (List.mem_range.mp hi) (by omega) h

/-- The pair around enclosed steps adds one to the depth of each of them. -/
theorem depth_enclosed (hoc : o.undoneBy c) (hu : WellNested u) (hj : j < u.length) :
    depth (o :: u ++ [c]) (j + 1) = depth u j + 1 := by
  rw [depth, List.range_succ_eq_map, List.countP_cons_of_pos, List.countP_map]
  · refine congrArg (· + 1) (List.countP_congr fun i _ => ?_)
    simp only [Function.comp_apply, decide_eq_true_eq]
    constructor
    · rintro ⟨k, -, hjk, h⟩
      rcases (pair_enclosed hoc hu).mp h with ⟨hi, -⟩ | ⟨i', k, hi, rfl, hk, h⟩
      · cases hi
      · cases hi
        exact ⟨k, hk, by omega, h⟩
    · rintro ⟨k, hk, hjk, h⟩
      exact ⟨k + 1, by simp; omega, by omega, (pair_enclosed hoc hu).mpr (.inr ⟨i, k, rfl, rfl, hk, h⟩)⟩
  · rw [decide_eq_true_eq]
    exact ⟨u.length + 1, by simp, by omega, (pair_enclosed hoc hu).mpr (.inl ⟨rfl, rfl⟩)⟩

/-- Nothing is undone behind the last step. -/
theorem depth_closer : depth (o :: u ++ [c]) (u.length + 1) = 0 := by
  refine List.countP_eq_zero.mpr fun i _ => ?_
  rw [decide_eq_true_eq]
  rintro ⟨k, hk, hlast, -⟩
  simp only [List.cons_append, List.length_cons, List.length_append, List.length_nil] at hk
  omega

/-- The two steps of a pair lie equally deep: a pair around one of them is around the other. -/
theorem depth_eq_of_pair (h : WellNested steps) (hp : Pair steps i j) : depth steps j = depth steps i := by
  induction h generalizing i j with
  | nil => exact absurd hp.lt_length (Nat.not_lt_zero j)
  | line text =>
    have hij := hp.1
    have hj : j < 1 := hp.lt_length
    omega
  | enclosed hoc hu ih =>
    rcases (pair_enclosed hoc hu).mp hp with ⟨rfl, rfl⟩ | ⟨i, j, rfl, rfl, hj, h⟩
    · exact depth_closer
    · rw [depth_enclosed hoc hu hj, depth_enclosed hoc hu (Nat.lt_trans h.1 hj), ih h]
  | @append u v hu hv ihu ihv =>
    rcases Nat.lt_or_ge j u.length with hj | hj
    · rw [depth_append_left hu hj, depth_append_left hu (Nat.lt_trans hp.1 hj)]
      exact ihu ((pair_append_left hj).mp hp)
    · rcases Nat.lt_or_ge i u.length with hi | hi
      · exact absurd hp (not_pair_across hu hi hj)
      · obtain ⟨i, rfl⟩ := Nat.exists_eq_add_of_le hi
        obtain ⟨j, rfl⟩ := Nat.exists_eq_add_of_le hj
        rw [depth_append_right hu, depth_append_right hu]
        exact ihv (pair_append_right.mp hp)

/-! ## Runs -/

/-- The step writes a line when it is taken. -/
def Step.writes : Step → Bool
  | .line _ | .openBlock _ _ | .closeBlock => true
  | .indent | .dedent => false

/-- The text that the step at the place writes: a line, a header, or the footer of the block it closes. -/
inductive TextAt (steps : List Step) (i : Nat) : String → Prop
  | line {text : String} (h : steps[i]? = some (.line text)) : TextAt steps i text
  | header {text footer : String} (h : steps[i]? = some (.openBlock text footer)) : TextAt steps i text
  | footer {k : Nat} {header text : String} (hk : steps[k]? = some (.openBlock header text))
      (h : steps[i]? = some .closeBlock) (hp : Pair steps k i) : TextAt steps i text

/-- The line is the text behind four blanks for each level. An empty text is left empty. -/
def IndentedBy (level : Nat) (text line : String) : Prop :=
  (text = "" → line = "") ∧ (text ≠ "" → line.toList = List.replicate (4 * level) ' ' ++ text.toList)

/-- The line is what the step at the place writes, when the steps begin at the level. -/
def LineAt (steps : List Step) (level i : Nat) (line : String) : Prop :=
  ∃ text, TextAt steps i text ∧ IndentedBy (level + depth steps i) text line

theorem indentedBy_indented (level : Nat) (text : String) : IndentedBy level text (indented level text) := by
  refine ⟨fun h => ?_, fun h => ?_⟩
  · rw [h]
    rfl
  · rw [indented, if_neg (by simpa using h), String.toList_append, String.toList_ofList]

namespace TextAt

theorem lt_length (h : TextAt steps i t) : i < steps.length := by
  cases h with
  | line h | header h | footer _ h _ => exact (List.getElem?_eq_some_iff.mp h).1

/-- A footer is found through the pair of its block, which `pair_append_left` keeps. -/
theorem append_left (h : TextAt u i t) : TextAt (u ++ v) i t := by
  have hi := h.lt_length
  cases h with
  | line h => exact .line ((List.getElem?_append_left hi).trans h)
  | header h => exact .header ((List.getElem?_append_left hi).trans h)
  | @footer k header _ hk h hp =>
    have hopener : (u ++ v)[k]? = some (.openBlock header t) :=
      (List.getElem?_append_left (Nat.lt_trans hp.1 hi)).trans hk
    exact .footer hopener ((List.getElem?_append_left hi).trans h) ((pair_append_left hi).mpr hp)

theorem append_right (h : TextAt v i t) : TextAt (u ++ v) (u.length + i) t := by
  cases h with
  | line h => exact .line ((getElem?_append_add i).trans h)
  | header h => exact .header ((getElem?_append_add i).trans h)
  | footer hk h hp =>
    exact .footer ((getElem?_append_add _).trans hk) ((getElem?_append_add i).trans h) (pair_append_right.mpr hp)

/-- A place has one text. For a footer this is because a step undoes at most one other, `Pair.opener_unique`. -/
theorem unique {t' : String} (h : TextAt steps i t) (h' : TextAt steps i t') : t = t' := by
  cases h with
  | line h => cases h' <;> simp_all
  | header h => cases h' <;> simp_all
  | footer hk h hp =>
    cases h' with
    | line h' => simp_all
    | header h' => simp_all
    | footer hk' _ hp' =>
      obtain rfl := hp.opener_unique hp'
      simp_all

end TextAt

namespace LineAt

variable {level : Nat} {l : String}

theorem append_left (hu : WellNested u) (h : LineAt u level i l) : LineAt (u ++ v) level i l := by
  obtain ⟨t, ht, hl⟩ := h
  rw [← depth_append_left hu ht.lt_length] at hl
  exact ⟨t, ht.append_left, hl⟩

theorem append_right (hu : WellNested u) (h : LineAt v level i l) :
    LineAt (u ++ v) level (u.length + i) l := by
  obtain ⟨t, ht, hl⟩ := h
  rw [← depth_append_right hu] at hl
  exact ⟨t, ht.append_right, hl⟩

/-- What lies one level deeper in the steps alone lies inside the pair around them. -/
theorem enclosed (hoc : o.undoneBy c) (hu : WellNested u) (h : LineAt u (level + 1) i l) :
    LineAt (o :: u ++ [c]) level (1 + i) l := by
  obtain ⟨t, ht, hl⟩ := h
  rw [Nat.add_assoc, Nat.add_comm 1, ← depth_enclosed hoc hu ht.lt_length, Nat.add_comm i] at hl
  exact ⟨t, ht.append_left.append_right (u := [o]), hl⟩

end LineAt

/-- The places of the steps that write, for steps in sequence. -/
theorem findIdxs_writes_append : (u ++ v).findIdxs Step.writes =
    u.findIdxs Step.writes ++ (v.findIdxs Step.writes).map (u.length + ·) := by
  have hstart : v.findIdxs Step.writes u.length = (v.findIdxs Step.writes).map (· + u.length) :=
    List.findIdxs_start
  rw [List.findIdxs_append, Nat.zero_add, hstart]
  simp only [Nat.add_comm]

/-- The places of the steps that write among enclosed ones: the first, those inside shifted by one, and the
last. -/
theorem findIdxs_writes_enclosed : (o :: u ++ [c]).findIdxs Step.writes =
    [o].findIdxs Step.writes ++
      ((u.findIdxs Step.writes).map (1 + ·) ++ [c].findIdxs Step.writes (u.length + 1)) := by
  have hlast : [c].findIdxs Step.writes (u.length + 1) =
      (([c].findIdxs Step.writes).map (u.length + ·)).map (1 + ·) := by
    cases hc : c.writes <;> simp [hc, Nat.add_comm]
  rw [List.cons_append, ← List.singleton_append, findIdxs_writes_append, findIdxs_writes_append,
    List.map_append, hlast]
  rfl

/-- Well-nested steps append the line of every step that writes. By induction over `WellNested`, for every
builder, since blocks that are open around the steps stay on its stack. -/
theorem WellNested.exists_appends (h : WellNested steps) (b : Builder) : ∃ ls : List String,
    b.Appends steps ls ∧ List.Forall₂ (LineAt steps b.level) (steps.findIdxs Step.writes) ls := by
  induction h generalizing b with
  | nil => exact ⟨[], .nil, .nil⟩
  | line text =>
    refine ⟨_, .line text, .cons ⟨text, .line rfl, ?_⟩ .nil⟩
    exact indentedBy_indented b.level text
  | @enclosed o c u hoc hu ih =>
    -- lines inside are one level deeper and stand one place further
    have hinner {ls : List String}
        (hls : List.Forall₂ (LineAt u (b.level + 1)) (u.findIdxs Step.writes) ls) :
        List.Forall₂ (LineAt (o :: u ++ [c]) b.level) ((u.findIdxs Step.writes).map (1 + ·)) ls :=
      List.forall₂_map_left_iff.mpr (hls.imp fun _ _ => .enclosed hoc hu)
    rw [findIdxs_writes_enclosed]
    rcases Step.undoneBy_iff.mp hoc with ⟨rfl, rfl⟩ | ⟨header, footer, rfl, rfl⟩
    · obtain ⟨ls, hrun, hls⟩ := ih (b.step .indent)
      refine ⟨ls, hrun.deeper, ?_⟩
      simpa [Step.writes] using hinner hls
    · obtain ⟨ls, hrun, hls⟩ := ih (b.step (.openBlock header footer))
      refine ⟨_, hrun.openBlock, .cons ⟨header, .header rfl, ?_⟩ (List.rel_append (hinner hls) ?_)⟩
      · exact indentedBy_indented b.level header
      -- the footer is written by the last step and belongs to the block of the first
      · refine .cons ⟨footer, .footer (k := 0) rfl (by simp) ?_, ?_⟩ .nil
        · exact (pair_enclosed hoc hu).mpr (.inl ⟨rfl, rfl⟩)
        · rw [depth_closer]
          exact indentedBy_indented b.level footer
  | @append u v hu hv ihu ihv =>
    obtain ⟨ls, hrun, hls⟩ := ihu b
    obtain ⟨ls', hrun', hls'⟩ := ihv { b with lines := b.lines ++ ls.toArray }
    refine ⟨ls ++ ls', hrun.append hrun', ?_⟩
    rw [findIdxs_writes_append]
    refine List.rel_append (hls.imp fun _ _ => .append_left hu) ?_
    exact List.forall₂_map_left_iff.mpr (hls'.imp fun _ _ => .append_right hu)

/-- **Indentation.** All that well-nested steps do to a builder is to append lines, so the level behind them is
the one in front of them. There is a line for each line, header and footer, in the order of the steps: the text
behind four blanks for each level of the builder and each pair around the step, or nothing when the text is
empty. The two steps of a pair lie equally deep, so a footer is indented like its header. -/
theorem run_wellNested (h : WellNested steps) (b : Builder) :
    (∃ ls : List String, b.run steps = { b with lines := b.lines ++ ls.toArray } ∧
      List.Forall₂
        (fun i l => (∃ t, TextAt steps i t) ∧ ∀ t, TextAt steps i t → IndentedBy (b.level + depth steps i) t l)
        (steps.findIdxs Step.writes) ls) ∧
    ∀ i j, Pair steps i j → depth steps j = depth steps i := by
  refine ⟨?_, fun i j => depth_eq_of_pair h⟩
  obtain ⟨ls, hrun, hls⟩ := h.exists_appends b
  refine ⟨ls, hrun, hls.imp fun i l => ?_⟩
  rintro ⟨t, ht, hl⟩
  exact ⟨⟨t, ht⟩, fun t' ht' => ht.unique ht' ▸ hl⟩

/-- A block in an indent in a block, with an empty line. -/
def ladder : List Step :=
  [.openBlock "run() \x7b" "\x7d", .line "", .indent, .openBlock "if (x) \x7b" "\x7d;", .line "a();", .closeBlock,
    .dedent, .line "b();", .closeBlock]

/-- The depths of the lines of `ladder`, which begins at the second level. The empty line stays empty. -/
theorem run_ladder :
    WellNested ladder ∧ (ladder.findIdxs Step.writes).map (depth ladder) = [0, 1, 2, 3, 2, 1, 0] ∧
    ∃ ls : List String, Builder.run { level := 2 } ladder = { level := 2, lines := ls.toArray } ∧
      List.Forall₂
        (fun i l => (∃ t, TextAt ladder i t) ∧ ∀ t, TextAt ladder i t → IndentedBy (2 + depth ladder i) t l)
        (ladder.findIdxs Step.writes) ls ∧
      Pair ladder 3 5 ∧ depth ladder 5 = depth ladder 3 := by
  have hladder : WellNested ladder := by decide
  have hpair : Pair ladder 3 5 := by decide
  obtain ⟨⟨ls, hrun, hls⟩, hdepth⟩ := run_wellNested hladder { level := 2 }
  refine ⟨hladder, by decide, ls, ?_, hls, hpair, hdepth 3 5 hpair⟩
  simpa using hrun

end LuaGlue.Code
