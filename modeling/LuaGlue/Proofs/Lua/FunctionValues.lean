import LuaGlue.Proofs.Conversion.Induction
import LuaGlue.Proofs.Lua.CallingConvention

/-!
# Function values

A function type is written three times: as a Lua function around a native one, as a native function around
a Lua one, and as an annotation. Each of them gives the arguments their `Places`. An annotation counts the
arguments that the host supplies, while both functions count all parameters.

- **Calling a native function** (`Lua.Calls`): the Lua function reads what the host supplies, each argument
  at its place among all parameters.
- **Calling a Lua function** (`Lua.Passes`): the native function pushes all parameters.
- **Annotations** (`Annotations.AnnouncesFunction`): only what the host supplies has a place.
- **Agreement** (`functionPlaces_agree_iff`): the places for reading are the announced ones as long as no
  ignored parameter stands before another one, and those for pushing if none is ignored.
-/

namespace LuaGlue

/-- Parameters, each with its number among the arguments of a Lua function. -/
abbrev Places := List ((String × Ty) × Nat)

/-- Items that are left out shift those behind them, so that only such as stand at the end may be left
out. -/
theorem filter_zipIdx_eq_iff {α : Type} (keep : α → Bool) {l : List α} {n : Nat} :
    (l.zipIdx n).filter (fun p => keep p.1) = (l.filter keep).zipIdx n ↔ l.filter keep <+: l := by
  induction l generalizing n with
  | nil => simp
  | cons a l ih =>
    by_cases ha : keep a
    · simp [ha, ih]
    · simp only [List.zipIdx_cons, List.filter_cons, ha, Bool.false_eq_true, if_false]
      cases hkept : l.filter keep with
      | nil =>
        have hnone : ∀ b ∈ l, ¬keep b := by simpa using hkept
        simp only [List.zipIdx_nil, List.filter_eq_nil_iff, List.nil_prefix, iff_true]
        intro p hp
        exact hnone p.1 (List.fst_mem_of_mem_zipIdx hp)
      | cons b kept =>
        have hb : keep b := by
          have hmem : b ∈ l.filter keep := by simp [hkept]
          exact (List.mem_filter.mp hmem).2
        refine iff_of_false (fun h => ?_) (fun h => ?_)
        · -- the first item that is kept has a later number than it would have without the others
          have hmem : (b, n) ∈ (l.zipIdx (n + 1)).filter (fun p => keep p.1) := by simp [h]
          have hlater := List.le_snd_of_mem_zipIdx (List.mem_filter.mp hmem).1
          omega
        · have hab : b = a := (List.cons_prefix_cons.mp h).1
          exact ha (hab ▸ hb)

namespace Signature

/-- The places of the arguments that the host supplies when these are the only ones to count. -/
def visiblePlaces (sig : Signature Ty) : Places := sig.visible.zipIdx 1

/-- The places of the arguments that the host supplies among all parameters. -/
def suppliedPlaces (sig : Signature Ty) : Places := (sig.params.zipIdx 1).filter (!·.1.2.isIgnored)

/-- The places of all parameters. -/
def paramPlaces (sig : Signature Ty) : Places := sig.params.zipIdx 1

theorem suppliedPlaces_eq_iff {sig : Signature Ty} :
    sig.suppliedPlaces = sig.visiblePlaces ↔ sig.visible <+: sig.params :=
  filter_zipIdx_eq_iff fun p : String × Ty => !p.2.isIgnored

theorem paramPlaces_eq_iff {sig : Signature Ty} :
    sig.paramPlaces = sig.visiblePlaces ↔ ∀ p ∈ sig.params, ¬p.2.isIgnored := by
  have hsame : sig.paramPlaces = sig.visiblePlaces ↔ sig.visible = sig.params := by
    constructor
    · intro h
      have hfst := congrArg (List.map Prod.fst) h
      rw [paramPlaces, visiblePlaces, List.zipIdx_map_fst, List.zipIdx_map_fst] at hfst
      exact hfst.symm
    · intro h
      rw [paramPlaces, visiblePlaces, h]
  rw [hsame, visible, List.filter_eq_self]
  simp

end Signature

/-! ## Calling a native function -/

namespace Lua

variable {s : Scope} {sig : Signature Ty} {e v : String}

namespace Read

/-- The value is what the rules write for the index; without one it does not depend on the stack. -/
def Taken (s : Scope) (x : Read) : Prop :=
  match x.index with
  | some i => ¬x.type.isIgnored ∧ ((rules s).convert x.type).fromHost (toString i) = .ok x.value
  | none => x.type.isIgnored ∧ ∀ e, ((rules s).convert x.type).fromHost e = .ok x.value

/-- The parameter with the index that its value is read from. -/
def place? (x : Read) : Option ((String × Ty) × Nat) := x.index.map (x.param, ·)

end Read

/-- A Lua function around the native function `e`, with the statements `body`. -/
def luaFunction (body e : String) : String :=
  applied "(auto&& cb)"
    ("\nbindgen_lua::push_function(L, [cb = std::move(cb)] (lua_State* L) -> int \x7b\n" ++ body
      ++ "\n\x7d);\n") e

/-- The text is a Lua function around the native function `e` that takes its arguments from the places. It
passes on a value for each parameter, in order, and pushes the result if there is one. -/
structure Calls (s : Scope) (sig : Signature Ty) (reads : List Read) (places : Places)
    (e text : String) : Prop where
  taken : ∀ x ∈ reads, x.Taken s
  params : reads.map Read.param = sig.params
  places : reads.filterMap Read.place? = places
  text_eq : ∃ body, text = luaFunction body e ∧
    let call := "cb(" ++ ", ".intercalate (reads.map (·.value)) ++ ")"
    if sig.ret.isVoid then body = call ++ ";\nreturn 0;"
    else ∃ push, ((rules s).convert sig.ret).toHost call = .ok push ∧ body = push ++ ";\nreturn 1;"

theorem exists_reads {n : Nat} {params : List (String × Ty)} {args : List String}
    (h : (((rules s).convertParams params).zipIdx n).mapM
      (fun p => p.1.2.2.fromHost (toString (p.2 + 1))) = .ok args) :
    ∃ reads : List Read, (∀ x ∈ reads, x.Taken s) ∧ reads.map Read.param = params ∧
      reads.filterMap Read.place? = (params.zipIdx (n + 1)).filter (!·.1.2.isIgnored) ∧
      reads.map (·.value) = args := by
  induction params generalizing n args with
  | nil =>
    cases h
    exact ⟨[], by simp, rfl, rfl, rfl⟩
  | cons p params ih =>
    obtain ⟨name, t⟩ := p
    rw [Rules.convertParams, List.zipIdx_cons, List.mapM_cons] at h
    obtain ⟨value, hvalue, h⟩ := Except.bind_eq_ok.mp h
    obtain ⟨rest, hrest, h⟩ := Except.bind_eq_ok.mp h
    cases h
    obtain ⟨reads, htaken, rfl, hplaces, rfl⟩ := ih hrest
    -- an ignored parameter is not read, but the indices of those behind it count it all the same
    by_cases ht : t.isIgnored
    · refine ⟨⟨name, t, none, value⟩ :: reads, ?_, rfl, ?_, rfl⟩
      · exact List.forall_mem_cons.mpr ⟨⟨ht, fromHost_ignored ht hvalue⟩, htaken⟩
      · rw [List.filterMap_cons_none (by rfl), hplaces]
        simp [ht]
    · refine ⟨⟨name, t, some (n + 1), value⟩ :: reads, ?_, rfl, ?_, rfl⟩
      · exact List.forall_mem_cons.mpr ⟨⟨ht, hvalue⟩, htaken⟩
      · rw [List.filterMap_cons_some (by rfl), hplaces]
        simp [ht, Read.param]

/-- **A native function in Lua** reads an argument at its place among all parameters. -/
theorem calls_of_toHost (h : ((rules s).convert (.func sig)).toHost e = .ok v) :
    ∃ reads, Calls s sig reads sig.suppliedPlaces e v := by
  obtain ⟨params, ret, quals⟩ := sig
  obtain ⟨args, hargs, h⟩ := Except.bind_eq_ok.mp h
  obtain ⟨body, hbody, h⟩ := Except.ite_bind_eq_ok.mp h
  cases h
  obtain ⟨reads, htaken, hparams, hplaces, rfl⟩ := exists_reads hargs
  refine ⟨reads, htaken, hparams, hplaces, body, rfl, ?_⟩
  by_cases hvoid : ret.isVoid
  · simp only [hvoid, if_true] at hbody ⊢
    exact (Except.ok.inj hbody).symm
  · simp only [hvoid] at hbody ⊢
    obtain ⟨push, hpush, rfl⟩ := Except.map_eq_ok.mp hbody
    exact ⟨push, hpush, rfl⟩

/-! ## Calling a Lua function -/

/-- A native function around the Lua function at `e`, with the parameters and the result declared as given.
It pushes the arguments and calls with their number. -/
def nativeFunction (params ret e : String) (pushes : List String) (results rest : String) : String :=
  "[_ref = std::make_shared<bindgen_lua::LuaRef>(L, " ++ e ++ ")] (" ++ params ++ ") -> " ++ ret
    ++ " \x7b\nlua_State* L = _ref->state();\n_ref->push();\n" ++ String.join (pushes.map (· ++ ";\n"))
    ++ ("bindgen_lua::call(L, " ++ toString pushes.length ++ ", " ++ results ++ ");\n") ++ rest ++ "\x7d"

/-- The text is a native function around the Lua function at `e`, which is called with the arguments at their
places and gives the result if there is one. -/
structure Passes (s : Scope) (sig : Signature Ty) (places : Places) (e text : String) : Prop where
  /-- The arguments of a call are found in the order in which they are pushed. -/
  order : places.map (·.2) = List.range' 1 places.length
  text_eq : ∃ params ret pushes rest, declareParams sig.params = .ok params ∧
    sig.ret.cppText = .ok ret ∧
    List.Forall₂ (fun p push => ((rules s).convert p.1.2).toHost p.1.1 = .ok push) places pushes ∧
    (if sig.ret.isVoid then rest = ""
      else ∃ value, ((rules s).convert sig.ret).fromHost "-1" = .ok value ∧
        rest = "auto _ret = " ++ value ++ ";\nlua_pop(L, 1);\nreturn _ret;\n") ∧
    text = nativeFunction params ret e pushes (if sig.ret.isVoid then "0" else "1") rest

theorem exists_pushes {params : List (String × Ty)} {n : Nat} {texts : List String}
    (h : ((rules s).convertParams params).mapM
      (fun p => do return (← p.2.2.toHost p.1) ++ ";\n") = .ok texts) :
    ∃ pushes : List String, texts = pushes.map (· ++ ";\n") ∧ List.Forall₂
      (fun p push => ((rules s).convert p.1.2).toHost p.1.1 = .ok push) (params.zipIdx n) pushes := by
  induction params generalizing n texts with
  | nil =>
    cases h
    exact ⟨[], rfl, .nil⟩
  | cons p params ih =>
    obtain ⟨name, t⟩ := p
    rw [Rules.convertParams, List.mapM_cons] at h
    obtain ⟨text, htext, h⟩ := Except.bind_eq_ok.mp h
    obtain ⟨rest, hrest, h⟩ := Except.bind_eq_ok.mp h
    obtain ⟨push, hpush, htext⟩ := Except.bind_eq_ok.mp htext
    cases htext
    cases h
    obtain ⟨pushes, rfl, hpushes⟩ := ih (n := n + 1) hrest
    exact ⟨push :: pushes, rfl, .cons hpush hpushes⟩

@[simp] theorem length_convertParams {r : Rules} (params : List (String × Ty)) :
    (r.convertParams params).length = params.length := by
  rw [← List.length_map, Rules.types_convertParams]

/-- **A Lua function in native code** is passed all parameters. -/
theorem passes_of_fromHost (h : ((rules s).convert (.func sig)).fromHost e = .ok v) :
    Passes s sig sig.paramPlaces e v := by
  obtain ⟨params, ret, quals⟩ := sig
  obtain ⟨declared, hdeclared, h⟩ := Except.bind_eq_ok.mp h
  obtain ⟨texts, htexts, h⟩ := Except.bind_eq_ok.mp h
  obtain ⟨rest, hrest, h⟩ := Except.ite_bind_eq_ok.mp h
  obtain ⟨cpp, hcpp, h⟩ := Except.bind_eq_ok.mp h
  obtain ⟨pushes, rfl, hpushes⟩ := exists_pushes (n := 1) htexts
  rw [Rules.types_convertParams] at hdeclared
  have hcount : pushes.length = params.length := by simpa using hpushes.length_eq.symm
  refine ⟨by simp [Signature.paramPlaces, List.zipIdx_map_snd],
    declared, cpp, pushes, rest, hdeclared, hcpp, hpushes, ?_, ?_⟩
  · by_cases hvoid : ret.isVoid
    · simp only [hvoid, if_true] at hrest ⊢
      exact (Except.ok.inj hrest).symm
    · simp only [hvoid] at hrest ⊢
      obtain ⟨value, hvalue, rfl⟩ := Except.map_eq_ok.mp hrest
      exact ⟨value, hvalue, rfl⟩
  · have htext := (Except.pure_eq_ok_iff.mp h).symm
    rw [length_convertParams, ← hcount] at htext
    exact htext

end Lua

/-! ## Annotations -/

namespace Annotations

variable {module : String} {keyType : String → Except Error String} {sig : Signature Ty}

/-- The text tells of a function with its arguments at the places, and of its result if there is one. -/
structure AnnouncesFunction (module : String) (keyType : String → Except Error String)
    (sig : Signature Ty) (places : Places) (text : String) : Prop where
  order : places.map (·.2) = List.range' 1 places.length
  text_eq : ∃ params result, List.Forall₂ (fun p param => ∃ type, spell module keyType p.1.2 = .ok type ∧
      param = Lua.safeName p.1.1 ++ ": " ++ type) places params ∧
    (if sig.ret.isVoid then result = ""
      else ∃ type, spell module keyType sig.ret = .ok type ∧ result = ": " ++ type) ∧
    text = "fun(" ++ ", ".intercalate params ++ ")" ++ result

theorem announced_of_spellParams {params : List (String × Ty)} {texts : List String} {n : Nat}
    (h : spellParams module keyType params = .ok texts) :
    List.Forall₂ (fun p param => ∃ type, spell module keyType p.1.2 = .ok type ∧
      param = Lua.safeName p.1.1 ++ ": " ++ type) ((params.filter (!·.2.isIgnored)).zipIdx n) texts := by
  induction params generalizing n texts with
  | nil =>
    cases h
    exact .nil
  | cons p params ih =>
    obtain ⟨name, t⟩ := p
    rw [spellParams] at h
    by_cases ht : t.isIgnored
    · simp only [ht, if_true] at h
      simpa [ht] using ih h
    · simp only [ht] at h
      obtain ⟨type, htype, h⟩ := Except.bind_eq_ok.mp h
      obtain ⟨rest, hrest, h⟩ := Except.bind_eq_ok.mp h
      cases h
      simpa [ht] using ⟨htype, ih (n := n + 1) hrest⟩

/-- **The annotation of a function type** tells of the arguments that the host supplies. -/
theorem announces_of_spell {text : String} (h : spell module keyType (.func sig) = .ok text) :
    AnnouncesFunction module keyType sig sig.visiblePlaces text := by
  obtain ⟨params, ret, quals⟩ := sig
  rw [spell] at h
  obtain ⟨texts, htexts, h⟩ := Except.bind_eq_ok.mp h
  refine ⟨by simp [Signature.visiblePlaces, List.zipIdx_map_snd], texts, ?_⟩
  by_cases hvoid : ret.isVoid
  · simp only [hvoid, if_true] at h ⊢
    exact ⟨"", announced_of_spellParams htexts, rfl, by simpa using (Except.ok.inj h).symm⟩
  · simp only [hvoid] at h ⊢
    obtain ⟨type, htype, h⟩ := Except.bind_eq_ok.mp h
    refine ⟨": " ++ type, announced_of_spellParams htexts, ⟨type, htype, rfl⟩, ?_⟩
    rw [← String.append_assoc]
    exact (Except.pure_eq_ok_iff.mp h).symm

end Annotations

/-! ## Agreement -/

/-- **Function values and their annotation.** A native function in Lua keeps the announced places exactly
when no ignored parameter stands before another one, and a Lua function in native code exactly when no
parameter is ignored. -/
theorem functionPlaces_agree_iff (s : Lua.Scope) (module : String) (keyType : String → Except Error String)
    (sig : Signature Ty) :
    (∀ e v, ((Lua.rules s).convert (.func sig)).toHost e = .ok v →
      ∃ reads, Lua.Calls s sig reads sig.suppliedPlaces e v) ∧
    (∀ e v, ((Lua.rules s).convert (.func sig)).fromHost e = .ok v →
      Lua.Passes s sig sig.paramPlaces e v) ∧
    (∀ text, Annotations.spell module keyType (.func sig) = .ok text →
      Annotations.AnnouncesFunction module keyType sig sig.visiblePlaces text) ∧
    (sig.suppliedPlaces = sig.visiblePlaces ↔ sig.visible <+: sig.params) ∧
    (sig.paramPlaces = sig.visiblePlaces ↔ ∀ p ∈ sig.params, ¬p.2.isIgnored) := by
  refine ⟨?_, ?_, ?_, Signature.suppliedPlaces_eq_iff, Signature.paramPlaces_eq_iff⟩
  · intro e v h
    exact Lua.calls_of_toHost h
  · intro e v h
    exact Lua.passes_of_fromHost h
  · intro text h
    exact Annotations.announces_of_spell h

/-- A function that takes a count and a hint which the host does not supply. -/
def hinted : Signature Ty :=
  ⟨[("count", .primitive "int"), ("hint", .template "IgnoreArgument" [.primitive "int"])], .primitive "bool", {}⟩

/-- The hint stands last, and so the count is read where it is announced; but both are passed. -/
theorem functionPlaces_hinted :
    ∃ s keyType pushed taken reads,
      ((Lua.rules s).convert (.func hinted)).toHost "f" = .ok pushed ∧
      Lua.Calls s hinted reads [(("count", .primitive "int"), 1)] "f" pushed ∧
      ((Lua.rules s).convert (.func hinted)).fromHost "1" = .ok taken ∧
      Lua.Passes s hinted
        [(("count", .primitive "int"), 1), (("hint", .template "IgnoreArgument" [.primitive "int"]), 2)]
        "1" taken ∧
      Annotations.spell "app" keyType (.func hinted) = .ok "fun(count: integer): boolean" ∧
      Annotations.AnnouncesFunction "app" keyType hinted [(("count", .primitive "int"), 1)]
        "fun(count: integer): boolean" ∧
      hinted.suppliedPlaces = hinted.visiblePlaces ∧ hinted.paramPlaces ≠ hinted.visiblePlaces := by
  let s : Lua.Scope := ⟨"app", none, fun _ => none, fun _ => .fail (.misfit .endlessType)⟩
  let keyType : String → Except Error String := fun _ => .error (.misfit .endlessType)
  obtain ⟨htoHost, hfromHost, hspell, hsupplied, hparams⟩ := functionPlaces_agree_iff s "app" keyType hinted
  obtain ⟨pushed, hpushed⟩ : ∃ v, ((Lua.rules s).convert (.func hinted)).toHost "f" = .ok v := ⟨_, rfl⟩
  obtain ⟨taken, htaken⟩ : ∃ v, ((Lua.rules s).convert (.func hinted)).fromHost "1" = .ok v := ⟨_, rfl⟩
  obtain ⟨reads, hcalls⟩ := htoHost "f" pushed hpushed
  refine ⟨s, keyType, pushed, taken, reads, hpushed, hcalls, htaken, hfromHost "1" taken htaken, rfl,
    hspell _ rfl, ?_, ?_⟩
  · exact hsupplied.mpr ⟨[("hint", .template "IgnoreArgument" [.primitive "int"])], rfl⟩
  · intro heq
    exact hparams.mp heq ("hint", .template "IgnoreArgument" [.primitive "int"]) (by simp [hinted]) rfl

/-- A function that takes a count behind flags which the host does not supply. -/
def flagged : Signature Ty :=
  ⟨[("flags", .template "IgnoreArgument" [.primitive "int"]), ("count", .primitive "int")], .void, {}⟩

/-- Only the count is announced, but it is read from the second index, and two arguments are passed. -/
theorem functionPlaces_flagged :
    ∃ model, Model.ofSpec { primitives := [.str "void", .str "int"]
                            templates := [(.str "IgnoreArgument", .exact 1)] } = .ok model ∧
      let c : Lua.Converter := { module := "app", model := model }
      Annotations.spellType "app" model (.func flagged) = .ok "fun(count: integer)" ∧
      (c.convert (.func flagged)).toHost "f" = .ok
        (Lua.luaFunction "cb(int\x7b\x7d, int(luaL_checkinteger(L, 2)));\nreturn 0;" "f") ∧
      (c.convert (.func flagged)).fromHost "1" = .ok
        (Lua.nativeFunction "int flags, int count" "void" "1"
          ["lua_pushinteger(L, lua_Integer(flags))", "lua_pushinteger(L, lua_Integer(count))"] "0" "") ∧
      flagged.suppliedPlaces ≠ flagged.visiblePlaces ∧ flagged.paramPlaces ≠ flagged.visiblePlaces := by
  refine ⟨_, rfl, rfl, rfl, rfl, ?_, ?_⟩
  · intro heq
    have hindices := congrArg (List.map Prod.snd) heq
    exact absurd hindices (by decide)
  · intro heq
    have hlengths := congrArg List.length heq
    exact absurd hlengths (by decide)

end LuaGlue
