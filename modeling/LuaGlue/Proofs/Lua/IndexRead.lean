import LuaGlue.Proofs.Lua.NilPushed

/-!
# What is read from a stack index

A conversion from the host is given a stack index and writes the text of the value that stands there.

- **Texts** (`Lua.ReadsIndex`): the index is passed to a call on the state, or to a function that is applied.
- **Types** (`Ty.TakesDefault`): seen through its layers, the type is an `IgnoreArgument`. Its value is the
  default one, whatever the index.
- **Conversions** (`Lua.Converter.writes_fromHost`): the text for every other type reads the index. The rule of
  `IgnoreArgument` is the only one that drops it.
-/

namespace LuaGlue

namespace Lua

/-! ## Texts -/

/-- The text ends inside a call on the state, where the next argument belongs. -/
def OpensCall (head : String) : Prop := "(L, ".toList <:+ head.toList

instance (head : String) : Decidable (OpensCall head) := inferInstanceAs (Decidable (_ <:+ _))

/-- A text as a function of a stack index, which it reads. -/
inductive ReadsIndex : (String → String) → Prop
  /-- The index is an argument of a call on the state. -/
  | call {head : String} (rest : String) : OpensCall head → ReadsIndex fun e => head ++ e ++ rest
  /-- The index is what a function of it is applied to. -/
  | applied (head body : String) : ReadsIndex (applied head body)
  /-- There is nothing to read for a `void`. -/
  | dropped : ReadsIndex fun e => "((void)(" ++ e ++ "))"
  | within {f : String → String} (before after : String) : ReadsIndex f → ReadsIndex fun e => before ++ f e ++ after
  | both {f g : String → String} : ReadsIndex f → ReadsIndex g → ReadsIndex fun e => f e ++ g e

theorem OpensCall.append {head : String} (before : String) (h : OpensCall head) : OpensCall (before ++ head) := by
  rw [OpensCall, String.toList_append]
  exact h.trans (List.suffix_append _ _)

/-- A call on the state behind any text, with more arguments or none behind the index. -/
theorem ReadsIndex.callAfter (before head : String) (hhead : OpensCall head) (rest : String) :
    ReadsIndex fun e => before ++ head ++ e ++ rest :=
  .call rest (hhead.append before)

theorem ReadsIndex.congr {f g : String → String} (h : ReadsIndex f) (hfg : ∀ e, f e = g e) : ReadsIndex g :=
  funext hfg ▸ h

/-- The same error for every index, or a text of the given kind. -/
def Writes (P : (String → String) → Prop) (f : String → Except Error String) : Prop :=
  (∃ err, ∀ e, f e = .error err) ∨ ∃ g, P g ∧ ∀ e, f e = .ok (g e)

namespace Writes

variable {P Q : (String → String) → Prop} {f g : String → Except Error String}

theorem error (err : Error) : Writes P fun _ => .error err := .inl ⟨err, fun _ => rfl⟩

theorem ok {g : String → String} (h : P g) : Writes P fun e => .ok (g e) := .inr ⟨g, h, fun _ => rfl⟩

/-- A step that does not use the index fails for all of them or for none, and what comes behind it decides the
kind of text. -/
theorem after {α : Type} {g : α → String → Except Error String} (x : Except Error α)
    (h : ∀ a, Writes P (g a)) : Writes P fun e => x >>= fun a => g a e := by
  cases x with
  | error err => exact error err
  | ok a => exact h a

theorem ite {p : Prop} [Decidable p] (hf : Writes P f) (hg : Writes P g) :
    Writes P fun e => if p then f e else g e := by
  split
  · exact hf
  · exact hg

/-- What is written around a text cannot fail, so only the kind `P` of the text has to be kept. -/
theorem map {wrap : String → String} (h : Writes P f) (hwrap : ∀ g, P g → Q fun e => wrap (g e)) :
    Writes Q fun e => f e >>= fun v => pure (wrap v) := by
  rcases h with ⟨err, herr⟩ | ⟨g, hg, hok⟩
  · exact .inl ⟨err, fun e => congrArg (· >>= fun v => pure (wrap v)) (herr e)⟩
  · exact .inr ⟨_, hwrap g hg, fun e => Except.bind_eq_ok.mpr ⟨g e, hok e, rfl⟩⟩

theorem mono (h : Writes P f) (hPQ : ∀ g, P g → Q g) : Writes Q f := by
  rcases h with herr | ⟨g, hg, hok⟩
  · exact .inl herr
  · exact .inr ⟨g, hPQ g hg, hok⟩

/-- A text that is written for one index is that of a function of the kind. This is how `Writes` is used for a
given wrapper. -/
theorem exists_of_eq_ok {e v : String} (h : Writes P f) (hv : f e = .ok v) :
    ∃ g, P g ∧ (∀ e, f e = .ok (g e)) ∧ v = g e := by
  rcases h with ⟨err, herr⟩ | ⟨g, hg, hok⟩
  · rw [herr] at hv
    cases hv
  · rw [hok] at hv
    exact ⟨g, hg, hok, (Except.ok.inj hv).symm⟩

end Writes

end Lua

/-! ## Types -/

namespace Ty

variable {m : Model} {t u : Ty}

/-- Below its layers, the type is an `IgnoreArgument`, whose value the host never supplies. -/
def TakesDefault (m : Model) (t : Ty) : Prop := ∃ u, Relation.ReflTransGen (Layer m) t u ∧ u.isIgnored

/-- The text for a value of the type: the same for every index if the type takes its default, and otherwise one
that reads the index. -/
inductive ReadAs (m : Model) (t : Ty) (f : String → String) : Prop
  | default : t.TakesDefault m → (∀ e e', f e = f e') → ReadAs m t f
  | index : ¬t.TakesDefault m → Lua.ReadsIndex f → ReadAs m t f

/-- A layer that is no `IgnoreArgument` itself takes the default if the type behind it does. -/
theorem Layer.takesDefault_iff (h : Layer m t u) (ht : ¬t.isIgnored) : t.TakesDefault m ↔ u.TakesDefault m :=
  h.exists_below_iff ht

/-- A type without layers reads its index, unless it is itself an `IgnoreArgument`. -/
theorem ReadAs.plain {f : String → String} (hlayer : ∀ u, ¬Layer m t u) (ht : ¬t.isIgnored)
    (h : Lua.ReadsIndex f) : t.ReadAs m f :=
  .index (fun hdefault => ht ((exists_below_iff_of_forall_not_layer hlayer).mp hdefault)) h

/-- The same text serves a type and the type behind its layer. -/
theorem ReadAs.layer {f : String → String} (hlayer : Layer m t u) (ht : ¬t.isIgnored) (h : u.ReadAs m f) :
    t.ReadAs m f := by
  cases h with
  | default hdefault hsame => exact .default ((hlayer.takesDefault_iff ht).mpr hdefault) hsame
  | index hdefault hreads => exact .index (fun ht' => hdefault ((hlayer.takesDefault_iff ht).mp ht')) hreads

theorem ReadAs.within {f : String → String} (before after : String) (h : t.ReadAs m f) :
    t.ReadAs m fun e => before ++ f e ++ after := by
  cases h with
  | default hdefault hsame => exact .default hdefault fun e e' => by rw [hsame e e']
  | index hdefault hreads => exact .index hdefault (hreads.within before after)

end Ty

namespace Lua

/-! ## Rules -/

variable {s : Scope} {m : Model} {t u : Ty} {n : String} {c : Conversion}

/-- The conversion from the host reads its index if a value of the type is read at all. -/
def ReadsAsTold (m : Model) (t : Ty) (c : Conversion) : Prop := Writes (t.ReadAs m) c.fromHost

namespace ReadsAsTold

theorem fail (err : Error) : ReadsAsTold m t (.fail err) := .error err

theorem onFirst {args : List (Ty × Conversion)} {rule : Ty → Conversion → Conversion}
    (h : ∀ a rest, args = a :: rest → ReadsAsTold m t (rule a.1 a.2)) :
    ReadsAsTold m t (onFirst args rule) := by
  cases args with
  | nil => exact fail _
  | cons a rest => exact h a rest rfl

/-- A conversion that passes the index on to the one of the type behind a layer, and writes `before` and `after`
around its text. -/
theorem layer (hlayer : Ty.Layer m t u) (ht : ¬t.isIgnored) (h : ReadsAsTold m u c) (before after : String) :
    Writes (t.ReadAs m) fun e => c.fromHost e >>= fun v => pure (before ++ v ++ after) :=
  Writes.map h fun _ hg => (hg.layer hlayer ht).within before after

end ReadsAsTold

theorem readsIndex_stringView : ReadsIndex stringView := .call ")" (by decide)

/-- Every primitive calls a function of the state with the index. `Mixed` applies a function to it, and `void`
drops it. -/
theorem readsAsTold_primitive {k : PrimitiveKind} : ReadsAsTold m (.primitive n) (k.conversion s n) := by
  have hplain {f : String → String} (h : ReadsIndex f) : (Ty.primitive n).ReadAs m f := .plain nofun nofun h
  cases k with
  | void => exact .ok (hplain .dropped)
  | bool => exact .ok (hplain (.call "))" (by decide)))
  | integer | number => exact .ok (hplain (.callAfter _ _ (by decide) "))"))
  | text owned => exact .ok (hplain (readsIndex_stringView.within _ ")"))
  | binary owned =>
    have htwice := (readsIndex_stringView.within "" ".data(), ").both (readsIndex_stringView.within "" ".size())")
    refine .ok (hplain ((htwice.within (if owned then "OwnedBinaryData(" else "BinaryData(") "").congr fun e => ?_))
    cases owned <;> simp [String.append_assoc]
  | mixed =>
    rw [PrimitiveKind.conversion]
    split
    · exact .after _ fun _ => .ok (hplain (.applied _ _))
    · exact .fail _
  | error => exact .error _

theorem TemplateKind.isIgnored_iff {k : TemplateKind} (h : TemplateKind.ofName? n = some k) (args : List Ty) :
    (Ty.template n args).isIgnored ↔ k = .ignored := by
  show (n == ignoreArgumentName) = true ↔ _
  unfold TemplateKind.ofName? at h
  split at h <;> cases h <;> decide

/-- A handle that is shared is read as one by `check_shared`; for any other the pointee is read. -/
theorem readsAsTold_sharedPtrRule {rest : List Ty} (hlayer : Ty.Layer m (.template n (t :: rest)) t)
    (ht : ¬(Ty.template n (t :: rest)).isIgnored) (module : String) (h : ReadsAsTold m t c) :
    ReadsAsTold m (.template n (t :: rest)) (sharedPtrRule module t c) := by
  have hpointee : Writes ((Ty.template n (t :: rest)).ReadAs m) fun e => do
      return "std::make_shared<" ++ (← t.cppText) ++ ">(" ++ (← c.fromHost e) ++ ")" :=
    .after _ fun cpp => h.layer hlayer ht _ ")"
  unfold sharedPtrRule
  split
  · rename_i cls
    split
    · have hobject {f : String → String} (h : ReadsIndex f) : (Ty.object cls).ReadAs m f := .plain nofun nofun h
      refine .ok (.layer hlayer ht (hobject ?_))
      refine (ReadsIndex.callAfter ("bindgen_lua::check_shared<" ++ cls.native.text) ">(L, " (by decide)
        (", \"" ++ metatable module cls.name ++ "\")")).congr fun e => ?_
      simp only [String.append_assoc]
    · exact hpointee
  · exact hpointee

/-- Containers and optional types apply a function to the index and wrappers pass it on. Only `IgnoreArgument`
leaves it out. -/
theorem readsAsTold_template {args : List (Ty × Conversion)} {k : TemplateKind}
    (h : TemplateKind.ofName? n = some k) (hargs : ∀ a ∈ args, ReadsAsTold m a.1 a.2) :
    ReadsAsTold m (.template n (args.map (·.1))) (k.conversion s n args) := by
  have hwrapper := TemplateKind.isWrapper_iff h
  have hignored := TemplateKind.isIgnored_iff h
  -- a table is read through a function of the index; the conversions of its parts are given other indices
  have happlied (hk : ¬Ty.isWrapper n) (hk' : k ≠ .ignored) (head body : String) :
      (Ty.template n (args.map (·.1))).ReadAs m (applied head body) := by
    refine .plain (fun u => ?_) (by simpa [hignored] using hk') (.applied head body)
    generalize args.map (·.1) = types
    rintro ⟨⟩
    contradiction
  cases k with
  | sharedPtr =>
    refine .onFirst fun a rest hcons => ?_
    subst hcons
    exact readsAsTold_sharedPtrRule (.wrapped (hwrapper.mpr (.inl rfl))) (by simp [hignored]) _
      (hargs a List.mem_cons_self)
  | function =>
    cases args with
    | nil => exact .after _ fun _ => .error _
    | cons a rest =>
      refine .after _ fun cpp => ?_
      exact (hargs a List.mem_cons_self).layer (.wrapped (hwrapper.mpr (.inr (.inl rfl)))) (by simp [hignored])
        (cpp ++ "(") ")"
  | ignored =>
    refine .onFirst fun a rest hcons => .after _ fun cpp => .ok ?_
    exact .default ⟨_, .refl, (hignored _).mpr rfl⟩ fun _ _ => rfl
  | optional =>
    refine .onFirst fun _ _ _ => .after _ fun _ => .after _ fun _ => .ok ?_
    exact happlied (by simp [hwrapper]) (by simp) _ _
  | nullable =>
    refine .onFirst fun _ _ _ => .after _ fun _ => .after _ fun _ => .ok ?_
    exact happlied (by simp [hwrapper]) (by simp) _ _
  | vector =>
    refine .onFirst fun _ _ _ => .after _ fun _ => .after _ fun _ => .ok ?_
    exact happlied (by simp [hwrapper]) (by simp) _ _
  | tuple make => exact .after _ fun _ => .ok (happlied (by simp [hwrapper]) (by simp) _ _)
  | map =>
    show Writes _ (mapRule _ args).fromHost
    unfold mapRule
    split
    · refine .after _ fun _ => .after _ fun _ => .after _ fun _ => .ok ?_
      exact happlied (by simp [hwrapper]) (by simp) _ _
    · exact .error _

theorem readsAsTold_objectRule (module : String) (cls : ClassRef) :
    ReadsAsTold m (.object cls) (objectRule module cls) := by
  have hplain {f : String → String} (h : ReadsIndex f) : (Ty.object cls).ReadAs m f := .plain nofun nofun h
  have hcheck (check : String) : ReadsIndex fun e => "bindgen_lua::" ++ check ++ "<" ++ cls.native.text ++ ">(L, "
      ++ e ++ ", \"" ++ metatable module cls.name ++ "\")" := by
    refine (ReadsIndex.callAfter ("bindgen_lua::" ++ check ++ "<" ++ cls.native.text) ">(L, " (by decide)
      (", \"" ++ metatable module cls.name ++ "\")")).congr fun e => ?_
    simp only [String.append_assoc]
  refine .ite ?_ (.ite ?_ ?_)
  · exact .ok (hplain (((hcheck "check_shared").within "*" "").congr fun e => String.append_empty))
  · exact .ok (hplain ((hcheck "check_class").within "(*" ")"))
  · exact .ok (hplain (hcheck "check_class"))

/-- A callable is a reference to the function at the index, so the index is read once when the lambda is made.
-/
theorem readsAsTold_takeFunction {sig : Signature Ty} (sig' : Signature (Ty × Conversion)) :
    Writes ((Ty.func sig).ReadAs m) (takeFunction sig') := by
  have htext (params cpp pushes call ret : String) : (Ty.func sig).ReadAs m fun e =>
      "[_ref = std::make_shared<bindgen_lua::LuaRef>(L, " ++ e ++ ")] (" ++ params ++ ") -> " ++ cpp
        ++ " \x7b\nlua_State* L = _ref->state();\n_ref->push();\n" ++ pushes ++ call ++ ret ++ "\x7d" := by
    have hhead : OpensCall "[_ref = std::make_shared<bindgen_lua::LuaRef>(L, " := by decide
    refine .plain nofun nofun ((ReadsIndex.call (")] (" ++ params ++ ") -> " ++ cpp
      ++ " \x7b\nlua_State* L = _ref->state();\n_ref->push();\n" ++ pushes ++ call ++ ret ++ "\x7d")
      hhead).congr fun e => ?_)
    simp only [String.append_assoc]
  exact .after _ fun _ => .after _ fun _ => .ite (.after _ fun _ => .after _ fun _ => .ok (htext _ _ _ _ _))
    (.after _ fun _ => .after _ fun _ => .ok (htext _ _ _ _ _))

theorem readsAsTold_recordRule (r : EntityRef) : ReadsAsTold m (.record r) (recordRule r) :=
  .ok (.plain nofun nofun (.callAfter _ _ (by decide) ")"))

theorem readsAsTold_enumerationRule (r : EntityRef) : ReadsAsTold m (.enumeration r) (enumerationRule r) :=
  .ok (.plain nofun nofun (.callAfter _ _ (by decide) "))"))

theorem readsAsTold_opaqueRule (name : String) : ReadsAsTold m (.opaqueType name) (opaqueRule name) :=
  .ok (.plain nofun nofun (.callAfter _ _ (by decide) "))"))

theorem readsAsTold_modified {q : Modifier} (h : ReadsAsTold m t c) : ReadsAsTold m (.modified q t) c :=
  Writes.mono h fun _ hg => hg.layer .modified nofun

theorem readsAsTold_pointerRule (h : ReadsAsTold m t c) : ReadsAsTold m (.modified .pointer t) (pointerRule c) :=
  h.layer .modified nofun "&(" ")"

/-- A class value is moved out of what is read, any other is left as it is. -/
theorem readsAsTold_rref (h : ReadsAsTold m t c) :
    Writes ((Ty.modified .rref t).ReadAs m) (rrefFromHost t c) := by
  have hvalue : Writes ((Ty.modified .rref t).ReadAs m) c.fromHost := readsAsTold_modified h
  unfold rrefFromHost
  generalize t.bare = u
  cases u with
  | object cls =>
    by_cases hshared : cls.shared
    · simp only [hshared, if_true]
      exact hvalue.map fun _ hg => hg
    · simp only [hshared]
      exact hvalue.map fun _ hg => hg.within "std::move(" ")"
  | _ => exact hvalue.map fun _ hg => hg

/-- A key type is a layer around the type that the scope has for it, which `hkeys` says is that of the model. -/
theorem readsAsTold_keyTypeRule (hkeys : s.keyType? = m.keyType?) (h : ∀ t, ReadsAsTold m t (s.convert t))
    (name : String) : ReadsAsTold m (.keyType name) (keyTypeRule s name) := by
  rw [keyTypeRule]
  split
  · rename_i u hu
    exact (h u).layer (.behind (hkeys ▸ hu)) Bool.false_ne_true (name ++ "(") ")"
  · exact .fail _

/-- Each rule reads its index, but for the one of `IgnoreArgument` and those that go on to it: one case for each
rule of `rules`. -/
theorem keeps_readsAsTold (hkeys : s.keyType? = m.keyType?) (h : ∀ t, ReadsAsTold m t (s.convert t)) :
    (rules s).Keeps (ReadsAsTold m) where
  const hc := readsAsTold_modified hc
  ref hc := readsAsTold_modified hc
  rref hc := readsAsTold_rref hc
  pointer hc := readsAsTold_pointerRule hc
  primitive hrule := by
    obtain ⟨k, -, rfl⟩ := Option.map_eq_some_iff.mp hrule
    exact readsAsTold_primitive
  template hrule hargs := by
    obtain ⟨k, hk, rfl⟩ := Option.map_eq_some_iff.mp hrule
    exact readsAsTold_template hk hargs
  func _ _ := readsAsTold_takeFunction _
  object c := readsAsTold_objectRule _ c
  record e := readsAsTold_recordRule e
  enumeration e := readsAsTold_enumerationRule e
  opaqueType name := readsAsTold_opaqueRule name
  keyType name := readsAsTold_keyTypeRule hkeys h name
  noPrimitive _ := .fail _
  noTemplate _ _ := .fail _

namespace Converter

/-- By induction over `depth`, with the conversions of key types one level lower. -/
theorem readsAsTold_convertTo (c : Converter) (depth : Nat) (t : Ty) :
    ReadsAsTold c.model t (c.convertTo depth t) := by
  induction depth generalizing t with
  | zero => exact .fail _
  | succ depth ih => exact (keeps_readsAsTold rfl ih).convert t

/-- **Conversions.** From the host, a type gives the same error for every index, or the text of `Ty.ReadAs`: one
that reads the index, unless the type takes its default. -/
theorem writes_fromHost (c : Converter) (t : Ty) : Writes (t.ReadAs c.model) (c.convert t).fromHost :=
  c.readsAsTold_convertTo _ t

end Converter

end Lua

end LuaGlue
