import LuaGlue.Cpp.Spelling
import LuaGlue.Proofs.Except

/-!
# Properties of C++ spellings

A property of texts that each way of spelling keeps goes from the names in a type (`Ty.Named`) to the
spelling of the type (`Ty.Named.cppText`) and to declarations of parameters (`declareParams_of_named`).
-/

namespace LuaGlue

open Document (Value)

variable {P : String → Prop}

/-- Every name in the type, and every native name of an entity in it, has the property. -/
inductive Ty.Named (P : String → Prop) : Ty → Prop
  | primitive {n} : P n → Named P (.primitive n)
  | template {n args} : P n → (∀ a ∈ args, Named P a) → Named P (.template n args)
  | func {params ret quals} : (∀ p ∈ params, P p.1) → (∀ p ∈ params, Named P p.2) → Named P ret →
      Named P (.func ⟨params, ret, quals⟩)
  | modified {m t} : Named P t → Named P (.modified m t)
  | object {c} : P c.name → P c.native.text → Named P (.object c)
  | record {r} : P r.name → P r.native.text → Named P (.record r)
  | enumeration {e} : P e.name → P e.native.text → Named P (.enumeration e)
  | opaqueType {n} : P n → Named P (.opaqueType n)
  | keyType {n} : P n → Named P (.keyType n)

/-- Each way of spelling keeps the property. -/
structure KeptBySpelling (P : String → Prop) : Prop where
  primitive {n} : P n → P (primitiveCpp n)
  template {n} : P n → P (templateCpp n)
  modified {t} (m : Modifier) : P t → P (t ++ m.suffix)
  list {l} : (∀ s ∈ l, P s) → P (", ".intercalate l)
  arguments {n args} : P n → P args → P (n ++ "<" ++ args ++ ">")
  wrapper {n ret params} : P n → P ret → P params → P (n ++ "<" ++ ret ++ "(" ++ params ++ ")>")
  param {t n} : P t → P n → P (t ++ " " ++ n)

theorem KeptBySpelling.joinSpellings (hP : KeptBySpelling P) {vs : List Value} {text : String}
    (hvs : ∀ v ∈ vs, P v.text) (h : joinSpellings vs = .ok text) : P text := by
  obtain ⟨texts, htexts, h⟩ := Except.bind_eq_ok.mp h
  cases h
  refine hP.list fun s hs => ?_
  obtain ⟨v, hv, hstr⟩ := Except.exists_of_mem_mapM htexts hs
  split at hstr
  · cases hstr
    exact hvs _ hv
  · cases hstr

namespace Ty

theorem cppArgs_eq_mapM (args : List Ty) : cppArgs args = args.mapM cpp := by
  induction args with
  | nil => rfl
  | cons t ts ih => rw [cppArgs, List.mapM_cons, ih]

theorem cppParams_eq_mapM (params : List (String × Ty)) :
    cppParams params = params.mapM fun p => p.2.cpp := by
  induction params with
  | nil => rfl
  | cons p ps ih => rw [cppParams, List.mapM_cons, ih]

/-- If the type has a C++ spelling, this has the property. -/
def Spelled (P : String → Prop) (t : Ty) : Prop := ∀ v, t.cpp = .ok v → P v.text

theorem spelled_template (hP : KeptBySpelling P) {n : String} {args : List Ty} (hn : P n)
    (hargs : ∀ a ∈ args, a.Spelled P)
    (hfunc : ∀ params ret quals, .func ⟨params, ret, quals⟩ ∈ args →
      (∀ p ∈ params, p.2.Spelled P) ∧ ret.Spelled P) :
    (Ty.template n args).Spelled P := by
  intro v hv
  unfold cpp at hv
  split at hv
  · cases hv
  split at hv
  · -- a marker is spelled as its argument
    split at hv
    · cases hv
    · exact hargs _ (by simp) v hv
  split at hv
  · -- a wrapper spells the result and the parameters of the function
    split at hv
    · rename_i params ret quals
      obtain ⟨hps, hret⟩ := hfunc params ret quals (by simp)
      obtain ⟨r, hr, hv⟩ := Except.bind_eq_ok.mp hv
      obtain ⟨vs, hvs, hv⟩ := Except.bind_eq_ok.mp hv
      obtain ⟨text, htext, hv⟩ := Except.bind_eq_ok.mp hv
      cases hv
      refine hP.wrapper (hP.template hn) (hret r hr) (hP.joinSpellings (fun v hv => ?_) htext)
      obtain ⟨p, hp, hcpp⟩ := Except.exists_of_mem_mapM (cppParams_eq_mapM params ▸ hvs) hv
      exact hps p hp v hcpp
    · cases hv
  · obtain ⟨vs, hvs, hv⟩ := Except.bind_eq_ok.mp hv
    obtain ⟨text, htext, hv⟩ := Except.bind_eq_ok.mp hv
    cases hv
    refine hP.arguments (hP.template hn) (hP.joinSpellings (fun v hv => ?_) htext)
    obtain ⟨a, ha, hcpp⟩ := Except.exists_of_mem_mapM (cppArgs_eq_mapM args ▸ hvs) hv
    exact hargs a ha v hcpp

namespace Named

theorem bare {t : Ty} (h : t.Named P) : t.bare.Named P := by
  induction h with
  | @modified m t h ih =>
    cases m with
    | const | ref | rref => exact ih
    | pointer => exact .modified h
  | primitive hn => exact .primitive hn
  | template hn hargs => exact .template hn hargs
  | func hnames hp hr => exact .func hnames hp hr
  | object hn hnative => exact .object hn hnative
  | record hn hnative => exact .record hn hnative
  | enumeration hn hnative => exact .enumeration hn hnative
  | opaqueType hn => exact .opaqueType hn
  | keyType hn => exact .keyType hn

/-- A function type has no spelling of its own, but its wrapper spells its parts: the induction carries
both. -/
theorem spelled (hP : KeptBySpelling P) {t : Ty} (h : t.Named P) : t.Spelled P ∧
    ∀ params ret quals, t = .func ⟨params, ret, quals⟩ →
      (∀ p ∈ params, p.2.Spelled P) ∧ ret.Spelled P := by
  induction h with
  | primitive hn =>
    refine ⟨fun v hv => ?_, by simp⟩
    cases hv
    exact hP.primitive hn
  | template hn _ ih =>
    refine ⟨spelled_template hP hn (fun a ha => (ih a ha).1) ?_, by simp⟩
    exact fun params ret quals hmem => (ih _ hmem).2 params ret quals rfl
  | func _ _ _ ihp ihr =>
    refine ⟨fun v hv => (by cases hv), fun params ret quals heq => ?_⟩
    cases heq
    exact ⟨fun p hp => (ihp p hp).1, ihr.1⟩
  | @modified m _ _ ih =>
    refine ⟨fun v hv => ?_, by simp⟩
    obtain ⟨u, hu, hv⟩ := Except.bind_eq_ok.mp hv
    cases hv
    exact hP.modified m (ih.1 u hu)
  | object _ hnative | record _ hnative | enumeration _ hnative =>
    refine ⟨fun v hv => ?_, by simp⟩
    cases hv
    exact hnative
  | opaqueType hn | keyType hn =>
    refine ⟨fun v hv => ?_, by simp⟩
    cases hv
    exact hn

/-- **The spelling of a type** has the property if its names do. -/
theorem cppText (hP : KeptBySpelling P) {t : Ty} (h : t.Named P) {text : String}
    (htext : t.cppText = .ok text) : P text := by
  obtain ⟨v, hv, htext⟩ := Except.bind_eq_ok.mp htext
  cases htext
  exact (h.spelled hP).1 v hv

end Named

end Ty

theorem declareParams_of_named (hP : KeptBySpelling P) {params : List (String × Ty)} {text : String}
    (hnames : ∀ p ∈ params, P p.1) (htypes : ∀ p ∈ params, p.2.Named P)
    (h : declareParams params = .ok text) : P text := by
  obtain ⟨decls, hdecls, h⟩ := Except.bind_eq_ok.mp h
  cases h
  refine hP.list fun d hd => ?_
  obtain ⟨p, hp, hdecl⟩ := Except.exists_of_mem_mapM hdecls hd
  obtain ⟨cpp, hcpp, hdecl⟩ := Except.bind_eq_ok.mp hdecl
  cases hdecl
  exact hP.param ((htypes p hp).cppText hP hcpp) (hnames p hp)

end LuaGlue
