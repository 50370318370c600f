import LuaGlue.Proofs.Lua.UnitDefinitions
import LuaGlue.Proofs.Model.Closure

/-!
# The symbols of a unit differ

Names of classes, records and enumerations differ and hold no underscore, so the first underscore ends
them in the names that are made of them (`memberText`).

- **Readers** (`nodup_readers`), **functions** (`nodup_functions`), **arrays** (`nodup_arrays`) and
  **registrations** (`nodup_registrations`): within a kind all names differ.
- **The unit** (`nodup_unitSymbols`): no symbol is defined twice.
-/

namespace LuaGlue.Lua

/-- What the functions of a record define. -/
def recordSymbols (r : Record) : List Symbol := adapterSymbols r ++ [.reader (readerName r)]

/-- What the functions of a class define. -/
def classSymbols (c : Class) : List Symbol := memberSymbols c ++ [.function (indexName c.ref)]

/-- The arrays of a class. -/
def tableSymbols (c : Class) : List Symbol := [.array (methodsName c.ref), .array (staticsName c.ref)]

/-- What the unit of a model defines, in order. -/
def unitSymbols (m : Model) : List Symbol :=
  m.records.flatMap recordSymbols
    ++ m.classes.flatMap classSymbols
    ++ m.enums.map (fun e => .registration (enumRegistration e))
    ++ m.classes.flatMap tableSymbols
    ++ [.registration "register_metatables"]

variable {s : Spec} {m : Model} {declared : List Class}

/-! ## Readers -/

theorem underscore_notMem_record (h : Model.BoundFrom s declared m) {r : Record} (hr : r ∈ m.records) :
    '_' ∉ r.ref.name.toList := by
  obtain ⟨hlegal, -⟩ := Spec.ofSpec_ok_iff.mp ⟨_, h.registry⟩
  obtain ⟨e, he, hbind⟩ := Except.exists_of_mem_mapM h.records hr
  have hmem : e.1 ∈ s.plainNames := by
    simp [Spec.plainNames, List.mem_map_of_mem (f := Prod.fst) he]
  obtain ⟨n, hn, hplain⟩ := Spec.forall_legal.mp (fun d hd => (hlegal d hd).1) e.1 hmem
  rw [(bindRecord_eq_ok.mp hbind).1, hn]
  exact hplain

theorem adapterName_eq (r : Record) (f : Field) :
    adapterName r f = "callback_from_lua_" ++ memberText (r.ref.name, f.name.text) := by
  unfold adapterName memberText
  simp [String.append_assoc]

/-- Both kinds of readers of a record begin with words of their own. -/
theorem adapterName_ne_readerName (r r' : Record) (f : Field) : adapterName r f ≠ readerName r' := by
  intro heq
  have hlists := congrArg String.toList heq
  unfold adapterName readerName at hlists
  simp at hlists

theorem nodup_recordSymbols (hm : Writable m) {r : Record} (hr : r ∈ m.records) :
    (recordSymbols r).Nodup := by
  have hnodup := hm.distinct r hr
  refine List.nodup_append.mpr ⟨?_, by simp, ?_⟩
  · refine ((List.Nodup.of_map _ hnodup).filter _).map_on fun f hf g hg heq => ?_
    have hname : memberText (r.ref.name, f.name.text) = memberText (r.ref.name, g.name.text) := by
      simpa [adapterName_eq] using heq
    have htext : f.name.text = g.name.text := by simpa [memberText] using hname
    exact List.inj_on_of_nodup_map hnodup (List.mem_filter.mp hf).1 (List.mem_filter.mp hg).1 htext
  · intro σ hσ τ hτ heq
    obtain ⟨f, -, rfl⟩ := List.mem_map.mp hσ
    rw [List.mem_singleton.mp hτ] at heq
    exact adapterName_ne_readerName r r f (Symbol.reader.inj heq)

/-- The record can be read off the name of each of its readers, since `memberText` ends it with the first
underscore. -/
theorem name_eq_of_mem_recordSymbols (h : Model.BoundFrom s declared m) {r r' : Record}
    (hr : r ∈ m.records) (hr' : r' ∈ m.records) {σ : Symbol} (hσ : σ ∈ recordSymbols r)
    (hσ' : σ ∈ recordSymbols r') : r.ref.name = r'.ref.name := by
  simp only [recordSymbols, adapterSymbols, List.mem_append, List.mem_map, List.mem_singleton] at hσ hσ'
  rcases hσ with ⟨f, -, rfl⟩ | rfl <;> rcases hσ' with ⟨g, -, heq⟩ | heq
  · have hname : memberText (r'.ref.name, g.name.text) = memberText (r.ref.name, f.name.text) := by
      simpa [adapterName_eq] using heq
    have hpair := memberText_inj (underscore_notMem_record h hr') (underscore_notMem_record h hr) hname
    exact (Prod.mk.inj hpair).1.symm
  · exact absurd (Symbol.reader.inj heq) (adapterName_ne_readerName r r' f)
  · exact absurd (Symbol.reader.inj heq) (adapterName_ne_readerName r' r g)
  · unfold readerName at heq
    simpa using heq

theorem nodup_readers (h : Model.BoundFrom s declared m) (hm : Writable m) :
    (m.records.flatMap recordSymbols).Nodup := by
  refine List.nodup_flatMap.mpr ⟨fun r hr => nodup_recordSymbols hm hr, ?_⟩
  have hnames := h.nodup_records
  rw [List.Nodup, List.pairwise_map] at hnames
  refine hnames.imp_of_mem fun {r r'} hr hr' hne σ hσ hσ' => ?_
  exact hne (name_eq_of_mem_recordSymbols h hr hr' hσ hσ')

/-! ## Functions -/

/-- The functions of a class, each by the class and its own name. -/
def classKeys (c : Class) : List (String × String) :=
  c.methods.map (fun x => (c.name, x.uniqueName))
    ++ ((if c.iterable.isSome then [(c.name, "_iter")] else []) ++ [(c.name, "_index")])

/-- Class by class or kind by kind, the functions of all classes are the same up to order. -/
theorem perm_classKeys : (m.classes.flatMap classKeys).Perm (m.memberKeys ++ m.reservedKeys) := by
  have hiterators : (m.classes.filter (·.iterable.isSome)).map (fun c => (c.name, "_iter")) =
      m.classes.flatMap fun c => if c.iterable.isSome then [(c.name, "_iter")] else [] := by
    induction m.classes with
    | nil => rfl
    | cons c cs ih =>
      rw [List.filter_cons, List.flatMap_cons, ← ih]
      split <;> simp
  rw [Model.memberKeys, Model.reservedKeys, hiterators, List.map_eq_flatMap]
  refine (List.flatMap_append_perm _ _ _).symm.trans (.append_left _ ?_)
  exact (List.flatMap_append_perm _ _ _).symm

/-- Every function of a class is named by one of its `classKeys`, behind the same first letters. -/
theorem classSymbols_eq (h : Model.BoundFrom s declared m) {c : Class} (hc : c ∈ m.classes) :
    classSymbols c = (classKeys c).map fun p => .function ("l_" ++ memberText p) := by
  have hmembers : c.methods.map (fun x => Symbol.function (wrapperName x)) =
      c.methods.map fun x => .function ("l_" ++ memberText (c.name, x.uniqueName)) := by
    refine List.map_congr_left fun x hx => ?_
    rw [wrapperName, Method.id, h.owner_eq hc hx]
    rfl
  have hindex : indexName c.ref = "l_" ++ memberText (c.name, "_index") := by
    simp [indexName, memberText, Class.name, String.append_assoc]
  have hiterator : iteratorName c.ref = "l_" ++ memberText (c.name, "_iter") := by
    simp [iteratorName, memberText, Class.name, String.append_assoc]
  rw [classSymbols, memberSymbols, hmembers, hindex, hiterator, classKeys]
  split <;> simp [Function.comp_def]

theorem nodup_functions (h : Model.BoundFrom s declared m) : (m.classes.flatMap classSymbols).Nodup := by
  rw [List.flatMap_congr fun c hc => classSymbols_eq h hc, ← List.map_flatMap]
  have hkeys := (perm_classKeys (m := m)).nodup_iff.mpr h.nodup_keys
  have hplain : ∀ p ∈ m.classes.flatMap classKeys, '_' ∉ p.1.toList := fun p hp =>
    h.plain_keys p (perm_classKeys.mem_iff.mp hp)
  refine hkeys.map_on fun p hp q hq heq => ?_
  exact memberText_inj (hplain p hp) (hplain q hq) (by simpa using heq)

/-! ## Arrays and registrations -/

theorem nodup_arrays (h : Model.BoundFrom s declared m) : (m.classes.flatMap tableSymbols).Nodup := by
  have hsymbols (c : Class) : tableSymbols c =
      [.array (memberText (c.name, "methods")), .array (memberText (c.name, "statics"))] := by
    simp [tableSymbols, methodsName, staticsName, memberText, Class.name, String.append_assoc]
  have hplain {c : Class} (hc : c ∈ m.classes) := h.underscore_notMem hc
  rw [List.flatMap_congr fun c _ => hsymbols c]
  refine List.nodup_flatMap.mpr ⟨fun c _ => by simp [memberText], ?_⟩
  have hnames := h.nodup_classes
  rw [List.Nodup, List.pairwise_map] at hnames
  refine hnames.imp_of_mem fun {c d} hc hd hne σ hσ hσ' => ?_
  have hdiffer (a b : String) : memberText (c.name, a) ≠ memberText (d.name, b) := fun heq =>
    hne (Prod.mk.inj (memberText_inj (hplain hc) (hplain hd) heq)).1
  simp only [List.mem_cons, List.not_mem_nil, or_false] at hσ hσ'
  rcases hσ with rfl | rfl <;> rcases hσ' with heq | heq <;> exact hdiffer _ _ (Symbol.array.inj heq)

/-- No enumeration registers under the name that the metatables are registered by, which begins differently. -/
theorem nodup_registrations (h : Model.BoundFrom s declared m) :
    (m.enums.map (fun e => Symbol.registration (enumRegistration e))
      ++ [Symbol.registration "register_metatables"]).Nodup := by
  refine List.nodup_append.mpr ⟨?_, by simp, ?_⟩
  · refine (List.Nodup.of_map _ h.nodup_enums).map_on fun e he e' he' heq => ?_
    have hname : e.ref.name = e'.ref.name := by simpa [enumRegistration] using heq
    exact List.inj_on_of_nodup_map h.nodup_enums he he' hname
  · intro σ hσ τ hτ heq
    obtain ⟨e, -, rfl⟩ := List.mem_map.mp hσ
    rw [List.mem_singleton.mp hτ] at heq
    have hlists := congrArg String.toList (Symbol.registration.inj heq)
    simp [enumRegistration] at hlists

/-! ## The unit -/

/-- The kind of a symbol. -/
def Symbol.kind : Symbol → Nat
  | .reader _ => 0
  | .function _ => 1
  | .array _ => 2
  | .registration _ => 3

theorem ne_of_kind {σs τs : List Symbol} {k : Nat} (hσs : ∀ σ ∈ σs, σ.kind = k)
    (hτs : ∀ τ ∈ τs, k < τ.kind) : ∀ σ ∈ σs, ∀ τ ∈ τs, σ ≠ τ := by
  intro σ hσ τ hτ heq
  have hlt := hτs τ hτ
  rw [← heq, hσs σ hσ] at hlt
  exact Nat.lt_irrefl k hlt

/-- **The unit.** Symbols of one kind differ by the lemmas above, and those of different kinds by `Symbol.kind`,
so no symbol is defined twice. -/
theorem nodup_unitSymbols (h : Model.BoundFrom s declared m) (hm : Writable m) : (unitSymbols m).Nodup := by
  have hreaders : ∀ σ ∈ m.records.flatMap recordSymbols, σ.kind = 0 := by
    simp only [List.forall_mem_flatMap, recordSymbols, adapterSymbols, List.forall_mem_append,
      List.forall_mem_map, List.forall_mem_singleton]
    exact fun r _ => ⟨fun f _ => rfl, rfl⟩
  have hfunctions : ∀ σ ∈ m.classes.flatMap classSymbols, σ.kind = 1 := by
    refine List.forall_mem_flatMap.mpr fun c hc => ?_
    rw [classSymbols_eq h hc]
    exact List.forall_mem_map.mpr fun p _ => rfl
  have harrays : ∀ σ ∈ m.classes.flatMap tableSymbols, σ.kind = 2 := by
    simp only [List.forall_mem_flatMap, tableSymbols, List.forall_mem_cons]
    exact fun c _ => ⟨rfl, rfl, by simp⟩
  have hregistrations : ∀ σ ∈ m.enums.map (fun e => Symbol.registration (enumRegistration e))
      ++ [Symbol.registration "register_metatables"], σ.kind = 3 := by
    simp only [List.forall_mem_append, List.forall_mem_map, List.forall_mem_singleton]
    exact ⟨fun e _ => rfl, rfl⟩
  -- registrations stand on both sides of the arrays, which are moved in front of them
  have hperm : (unitSymbols m).Perm (m.records.flatMap recordSymbols ++ (m.classes.flatMap classSymbols
      ++ (m.classes.flatMap tableSymbols ++ (m.enums.map (fun e => Symbol.registration (enumRegistration e))
        ++ [Symbol.registration "register_metatables"])))) := by
    simp only [unitSymbols, List.append_assoc]
    refine .append_left _ (.append_left _ ?_)
    rw [← List.append_assoc, ← List.append_assoc]
    exact .append_right _ List.perm_append_comm
  rw [hperm.nodup_iff]
  refine List.nodup_append.mpr ⟨nodup_readers h hm, List.nodup_append.mpr ⟨nodup_functions h,
    List.nodup_append.mpr ⟨nodup_arrays h, nodup_registrations h, ?_⟩, ?_⟩, ?_⟩
  · exact ne_of_kind harrays fun τ hτ => by rw [hregistrations τ hτ]; decide
  · refine ne_of_kind hfunctions (List.forall_mem_append.mpr ⟨fun τ hτ => ?_, fun τ hτ => ?_⟩)
    · rw [harrays τ hτ]; decide
    · rw [hregistrations τ hτ]; decide
  · refine ne_of_kind hreaders (List.forall_mem_append.mpr ⟨fun τ hτ => ?_,
      List.forall_mem_append.mpr ⟨fun τ hτ => ?_, fun τ hτ => ?_⟩⟩)
    · rw [hfunctions τ hτ]; decide
    · rw [harrays τ hτ]; decide
    · rw [hregistrations τ hτ]; decide

end LuaGlue.Lua
