import LuaGlue.Lua.Module
import LuaGlue.Proofs.Code.Nesting
import LuaGlue.Proofs.Lua.CallingConvention
import LuaGlue.Proofs.Lua.NestedConversion

/-!
# The unit is nested

Every function of the unit opens a brace in its head and closes it behind nested lines, so the whole text is
nested in round, square and curly brackets.

- **Records** (`nested_recordFunctions`), **classes** (`nested_classFunctions`), **enumerations**
  (`nested_registerEnum`) and **tables** (`nested_methodTables`): their functions are nested steps.
- **Rendering** (`nested_of_render`): so is the unit of a model with nested names, and the level of indentation
  is back at the first one behind it.
-/

namespace LuaGlue

open Code (NestedSteps Nests Step)
open Text (Leads Nested)

/-! ## Names -/

theorem Method.Nested.displayName {x : Method} (hx : x.Nested) : Text.Nested x.displayName :=
  Text.nested_snakeCase hx.uniqueName

/-- A call is the callee with its arguments in one pair of round brackets. The receiver and the arguments are
nested by `hself` and `hargs`. -/
theorem Method.Nested.call {x : Method} (hx : x.Nested) {self : String} (hself : Text.Nested self)
    {args : List String} (hargs : ∀ a ∈ args, Text.Nested a) : Text.Nested (x.call self args) := by
  have harguments : Text.Nested ("(" ++ ", ".intercalate args ++ ")") :=
    Leads.literal.insert (.intercalate (.literal (by decide)) hargs) |>.text.nested (by decide)
  unfold Method.call
  dsimp only
  split
  · exact Leads.of_nested hself |>.text.insert hx.native |>.insert harguments |>.nested rfl
  · exact Leads.of_nested hself |>.text.insert hx.native |>.insert harguments |>.nested rfl
  · exact Leads.of_nested hx.owner.2 |>.text.insert hx.native |>.insert harguments |>.nested rfl
  · split
    · exact Leads.literal.insert hx.owner.2 |>.text.insert harguments |>.nested (by decide)
    · exact hx.owner.2.append harguments

/-- Where `displayName` gives a text it is a name of the field, so its brackets are those of the field. -/
theorem Field.Nested.displayName {f : Field} (hf : f.Nested) {name : String}
    (h : f.displayName = .ok name) : Text.Nested name := by
  have hname := hf.name
  unfold Field.displayName at h
  split at h
  · rename_i heq
    cases h
    rw [heq] at hname
    exact Text.nested_snakeCase hname
  · cases h

/-- The value of an enumerator is a whole number by `Enumeration.Nested`, and the text of a number has no
brackets. -/
theorem Enumeration.Nested.value {e : Enumeration} (he : e.Nested) {x : Document.Value × Document.Value}
    (hx : x ∈ e.enumerators) : Text.Nested x.2.text := by
  obtain ⟨i, hi⟩ := he.values x hx
  rw [hi]
  exact Text.nested_toString_int i

/-- A class is a member of its own lineage, and the rest are classes of the model. -/
theorem Model.mem_classes_of_mem_lineageTo {m : Model} {c owner : Class} (hc : c ∈ m.classes) {depth : Nat}
    (h : owner ∈ m.lineageTo depth c) : owner ∈ m.classes := by
  induction depth generalizing c with
  | zero => cases h
  | succ depth ih =>
    rcases List.mem_cons.mp h with rfl | h
    · exact hc
    · split at h
      · rename_i b hb
        obtain ⟨ref, -, hb⟩ := Option.bind_eq_some_iff.mp hb
        exact ih (List.mem_of_find?_eq_some hb) h
      · cases h

/-- The parameters of a method that the host sees are parameters of the method. -/
theorem Signature.mem_params_of_async? {sig : Signature Ty} {async : Option (Signature Ty)}
    (h : sig.async? = .ok async) {p : String × Ty} (hp : p ∈ (async.getD sig).params) : p ∈ sig.params := by
  cases async with
  | none => exact hp
  | some seen =>
    obtain ⟨cb, rest, result, -, -, rfl⟩ := Signature.async?_eq_some h
    exact List.dropLast_subset _ hp

namespace Ty.Named

variable {P : String → Prop} {sig : Signature Ty}

theorem paramNames (h : (Ty.func sig).Named P) : ∀ p ∈ sig.params, P p.1 := by
  cases h with
  | func hnames _ _ => exact hnames

theorem params (h : (Ty.func sig).Named P) : ∀ p ∈ sig.params, p.2.Named P := by
  cases h with
  | func _ hparams _ => exact hparams

theorem ret (h : (Ty.func sig).Named P) : sig.ret.Named P := by
  cases h with
  | func _ _ hret => exact hret

/-- The type that the last parameter of a signature wraps is part of the signature, so `Ty.Named` hands its
names on. -/
theorem lastWrapped {x : Method} (h : (Ty.func x.sig).Named P) {t : Ty} (ht : Lua.lastWrapped x = .ok t) :
    t.Named P := by
  unfold Lua.lastWrapped at ht
  split at ht
  · rename_i name last hlast
    have hbare := (h.params _ (List.mem_of_getLast? hlast)).bare
    split at ht
    · rename_i n args heq
      rw [heq] at hbare
      cases hbare with
      | template _ hargs =>
        cases args with
        | nil => cases ht
        | cons a rest =>
          cases ht
          exact hargs _ List.mem_cons_self
    · cases ht
  · cases ht

end Ty.Named

namespace Lua

variable {c : Converter} {r : Record} {f : Field} {x : Method} {cls : Class} {steps : List Step}

/-! ## Records -/

theorem nested_adapterName (hr : r.Nested) (hf : f.Nested) : Nested (adapterName r f) :=
  Leads.literal.insert hr.ref.1 |>.text.insert hf.name |>.nested (by decide)

/-- The adapter of a callable field is a function: its head opens the brace that the last line closes, around
the conversion of the callable. -/
theorem nested_fieldAdapter (hc : c.Nested) (hr : r.Nested) (hf : f.Nested)
    (h : fieldAdapter c r f = .ok steps) : NestedSteps steps := by
  obtain ⟨type, htype, h⟩ := Except.bind_eq_ok.mp h
  obtain ⟨value, hvalue, h⟩ := Except.bind_eq_ok.mp h
  cases h
  have htype := hf.type.bare.cppText nested_keptBySpelling htype
  have hvalue := (hc.convert hf.type).fromHost (.literal (by decide)) hvalue
  refine .append (.block ?_ (.line ?_)) .blank
  · exact Leads.literal.insert htype |>.text.insert (nested_adapterName hr hf) |>.text.trans (by decide)
  · exact Leads.literal.insert hvalue |>.text.nested (by decide)

theorem nested_pushHead (hr : r.Nested) : Nested (pushHead r) :=
  Leads.literal.insert hr.ref.1 |>.text.insert hr.ref.2 |>.text.nested (by decide)

theorem nested_readHead (hr : r.Nested) : Nested (readHead r) :=
  Leads.literal.insert hr.ref.2 |>.text.insert hr.ref.1 |>.text.nested (by decide)

/-- Both functions of a record are declared by their heads, `pushHead` and `readHead`, which have no brace of
their own. -/
theorem nested_declareRecord (hr : r.Nested) : NestedSteps (declareRecord r) := by
  refine .cons ?_ (.line ?_)
  · exact Leads.of_nested (nested_pushHead hr) |>.text.nested (by decide)
  · exact Leads.of_nested (nested_readHead hr) |>.text.nested (by decide)

/-- One field is pushed with the text that its type's conversion gives for `value.field`, followed by a
`lua_setfield`. -/
theorem nested_pushField (hc : c.Nested) (hf : f.Nested) (h : pushField c f = .ok steps) :
    NestedSteps steps := by
  obtain ⟨push, hpush, h⟩ := Except.bind_eq_ok.mp h
  obtain ⟨name, hname, h⟩ := Except.bind_eq_ok.mp h
  cases h
  have hpush := (hc.convert hf.type).toHost (Leads.literal.insert hf.native |>.nested (by decide)) hpush
  refine .append (.lines ?_) (.line ?_)
  · exact Leads.of_nested hpush |>.text.nested (by decide)
  · exact Leads.literal.insert (hf.displayName hname) |>.text.nested (by decide)

/-- The brace that `pushHead` opens is closed behind the fields, each of which is nested by `nested_pushField`.
-/
theorem nested_pushRecord (hc : c.Nested) (hr : r.Nested) (h : pushRecord c r = .ok steps) :
    NestedSteps steps := by
  obtain ⟨pushes, hpushes, h⟩ := Except.bind_eq_ok.mp h
  cases h
  have hall : NestedSteps pushes.flatten := by
    refine .flatten fun push hpush => ?_
    obtain ⟨f, hf, hpush⟩ := Except.exists_of_mem_mapM hpushes hpush
    exact nested_pushField hc (hr.fields f (List.mem_of_mem_filter hf)) hpush
  refine .append (.block ?_ (.cons ?_ hall)) .blank
  · exact Leads.of_nested (nested_pushHead hr) |>.text.trans (by decide)
  · exact Leads.literal.insert (Text.nested_toString _) |>.text.nested (by decide)

/-- The brace of the test is closed behind the field, or behind the `luaL_error` if the field is required. -/
theorem nested_readField (hc : c.Nested) (hr : r.Nested) (hf : f.Nested) (h : readField c r f = .ok steps) :
    NestedSteps steps := by
  obtain ⟨name, hname, h⟩ := Except.bind_eq_ok.mp h
  obtain ⟨value, hvalue, h⟩ := Except.ite_bind_eq_ok.mp h
  cases h
  have hname := hf.displayName hname
  have hvalue : Nested value := by
    split at hvalue
    · cases hvalue
      exact Leads.of_nested (nested_adapterName hr hf) |>.text.nested (by decide)
    · exact (hc.convert hf.type).fromHost (.literal (by decide)) hvalue
  have hread : Nested ("out." ++ f.native.text ++ " = " ++ value ++ ";") :=
    Leads.literal.insert hf.native |>.text.insert hvalue |>.text.nested (by decide)
  -- the brace of the test is open in front of the `else` and again behind it
  have hmissing : Nests (if f.required then
        [.line "\x7d else \x7b"] ++ (.indent ::
          [.line ("luaL_error(L, \"" ++ r.ref.name ++ "." ++ name ++ " is required\");")] ++ [.dedent])
      else []) (some [.curly]) (some [.curly]) := by
    split
    · refine .append (.line rfl) (.deeper ((NestedSteps.line ?_).nests _))
      exact Leads.literal.insert hr.ref.1 |>.text.insert hname |>.text.nested (by decide)
    · exact .nil
  have hget : Nests [.line ("lua_getfield(L, idx, \"" ++ name ++ "\");"), .line "if (!lua_isnil(L, -1)) \x7b"]
      (some []) (some [.curly]) := by
    refine .cons (Leads.literal.insert hname).text (.line ?_)
    exact Leads.literal.trans (by decide)
  have hpop : Nests [.line "\x7d", .line "lua_pop(L, 1);"] (some [.curly]) (some []) :=
    .cons Leads.literal (.line (Leads.literal.trans (by decide)))
  have hall := hget.append (((NestedSteps.lines hread).nests _).deeper.append (hmissing.append hpop))
  rw [NestedSteps]
  simpa using hall

/-- As in `nested_pushRecord`, with the lines of `readField` inside the braces. -/
theorem nested_readRecord (hc : c.Nested) (hr : r.Nested) (h : readRecord c r = .ok steps) :
    NestedSteps steps := by
  obtain ⟨reads, hreads, h⟩ := Except.bind_eq_ok.mp h
  cases h
  have hall : NestedSteps reads.flatten := by
    refine .flatten fun read hread => ?_
    obtain ⟨f, hf, hread⟩ := Except.exists_of_mem_mapM hreads hread
    exact nested_readField hc hr (hr.fields f hf) hread
  have hout : Nested (r.ref.native.text ++ " out;") := Leads.of_nested hr.ref.2 |>.text.nested (by decide)
  refine .append (.block ?_ (.append (.append (.cons ?_ (.cons ?_ (.line hout))) hall) (.line ?_))) .blank
  · exact Leads.of_nested (nested_readHead hr) |>.text.trans (by decide)
  all_goals exact .literal (by decide)

/-- **Records.** -/
theorem nested_recordFunctions (hc : c.Nested) (hr : r.Nested) (h : recordFunctions c r = .ok steps) :
    NestedSteps steps := by
  obtain ⟨adapters, hadapters, h⟩ := Except.bind_eq_ok.mp h
  obtain ⟨push, hpush, h⟩ := Except.bind_eq_ok.mp h
  obtain ⟨read, hread, h⟩ := Except.bind_eq_ok.mp h
  cases h
  refine .append (.append (.flatten fun adapter hadapter => ?_) (nested_pushRecord hc hr hpush))
    (nested_readRecord hc hr hread)
  obtain ⟨f, hf, hadapter⟩ := Except.exists_of_mem_mapM hadapters hadapter
  exact nested_fieldAdapter hc hr (hr.fields f (List.mem_of_mem_filter hf)) hadapter

/-! ## Classes -/

/-- A callback with a value and an error pushes the value by the conversion of its type, which is part of `cb`;
any other pushes nothing. -/
theorem nested_resumeLines (hc : c.Nested) {cb : Signature Ty} (hcb : (Ty.func cb).Named Nested)
    {ls : List String} (h : resumeLines c cb.params = .ok ls) : ∀ l ∈ ls, Nested l := by
  generalize hparams : cb.params = params at h
  unfold resumeLines at h
  split at h
  · rename_i value err
    obtain ⟨push, hpush, h⟩ := Except.bind_eq_ok.mp h
    cases h
    have hmem : value ∈ cb.params := by simp [hparams]
    have hmoved : Nested ("std::move(" ++ value.1 ++ ")") :=
      Leads.literal.insert (hcb.paramNames value hmem) |>.text.nested (by decide)
    have hpush := (hc.convert (hcb.params value hmem)).toHost hmoved hpush
    refine List.forall_mem_cons.mpr ⟨?_, List.forall_mem_singleton.mpr (.literal (by decide))⟩
    exact Leads.of_nested hpush |>.text.nested (by decide)
  · cases h
    exact List.forall_mem_singleton.mpr (.literal (by decide))

/-- The capture, the parameters and the test of the handler are closed in turn. -/
theorem nested_completionHandler (hc : c.Nested) (hx : x.Nested) {handler : String}
    (h : completionHandler c x = .ok handler) : Nested handler := by
  obtain ⟨wrapped, hwrapped, h⟩ := Except.bind_eq_ok.mp h
  have hcb := hx.sig.lastWrapped hwrapped
  split at h
  · rename_i cb
    obtain ⟨params, hparams, h⟩ := Except.bind_eq_ok.mp h
    have hparams := declareParams_of_named nested_keptBySpelling hcb.paramNames hcb.params hparams
    split at h
    · cases h
    · rename_i err hlast
      obtain ⟨push, hpush, h⟩ := Except.bind_eq_ok.mp h
      obtain ⟨resume, hresume, h⟩ := Except.bind_eq_ok.mp h
      cases h
      have hmem := List.mem_of_getLast? hlast
      have herr := hcb.paramNames err hmem
      have hpush := (hc.convert (hcb.params err hmem)).toHost herr hpush
      have hresume := nested_resumeLines hc hcb hresume
      exact Leads.nested (.lines_cons (Leads.literal.insert hparams).text <| .lines_cons .literal <|
        .lines_cons (Leads.literal.insert herr).text <| .lines_cons (Leads.of_nested hpush).text <|
        .lines_cons .literal <| .lines_cons .literal <| .lines_cons .literal <|
        .lines_append hresume <| .lines_singleton .literal) (by decide)
  · cases h

theorem nested_readSelf (hc : c.Nested) {owner : ClassRef}
    (howner : Nested owner.name ∧ Nested owner.native.text) (h : readSelf c owner = .ok steps) :
    NestedSteps steps := by
  obtain ⟨self, hself, h⟩ := Except.bind_eq_ok.mp h
  cases h
  have hself := (hc.convert (.object howner.1 howner.2)).fromHost (.literal (by decide)) hself
  exact .lines (Leads.literal.insert hself |>.text.nested (by decide))

/-- By induction over the parameters: each is read by the conversion of its type, and the argument that it is
passed as is nested as well. -/
theorem nested_readParams (hc : c.Nested) {params : List (String × Ty)} (hnames : ∀ p ∈ params, Nested p.1)
    (htypes : ∀ p ∈ params, p.2.Named Nested) {idx : Nat} {args : List String}
    (h : readParams c idx params = .ok (steps, args)) : NestedSteps steps ∧ ∀ a ∈ args, Nested a := by
  induction params generalizing idx steps args with
  | nil =>
    cases h
    exact ⟨.nil, by simp⟩
  | cons p params ih =>
    obtain ⟨name, t⟩ := p
    rw [List.forall_mem_cons] at hnames htypes
    unfold readParams at h
    obtain ⟨value, hvalue, h⟩ := Except.bind_eq_ok.mp h
    obtain ⟨⟨rest, passed⟩, hrest, h⟩ := Except.bind_eq_ok.mp h
    obtain ⟨rfl, rfl⟩ := Prod.mk.inj (Except.pure_eq_ok_iff.mp h)
    obtain ⟨hsteps, hargs⟩ := ih hnames.2 htypes.2 hrest
    have hindex : Nested (if t.isIgnored then "0" else toString idx) := by
      split
      · exact .literal (by decide)
      · exact Text.nested_toString idx
    have hvalue := (hc.convert htypes.1).fromHost hindex hvalue
    refine ⟨.append (.lines ?_) hsteps, List.forall_mem_cons.mpr ⟨?_, hargs⟩⟩
    · exact Leads.literal.insert hnames.1 |>.text.insert hvalue |>.text.nested (by decide)
    · split
      · exact Leads.literal.insert hnames.1 |>.text.nested (by decide)
      · exact hnames.1

/-- The three ways to end a call, without a result, with one, and by suspending, all take the text of `x.call`
with nested arguments. -/
theorem nested_callNative (hc : c.Nested) (hx : x.Nested) {isAsync : Bool} {args : List String}
    (hargs : ∀ a ∈ args, Nested a) (h : callNative c x isAsync args = .ok steps) : NestedSteps steps := by
  have hcall {args : List String} (hargs : ∀ a ∈ args, Nested a) : Nested (x.call "_self" args) :=
    hx.call (.literal (by decide)) hargs
  have hend {t : String} (ht : Nested t) : Nested (t ++ ";") := Leads.of_nested ht |>.text.nested (by decide)
  unfold callNative at h
  split at h
  · obtain ⟨handler, hhandler, h⟩ := Except.bind_eq_ok.mp h
    cases h
    have hhandler := nested_completionHandler hc hx hhandler
    have hall := List.forall_mem_append.mpr ⟨hargs, List.forall_mem_singleton.mpr hhandler⟩
    exact .append (.lines (hend (hcall hall))) (.line (.literal (by decide)))
  · split at h
    · cases h
      exact .append (.lines (hend (hcall hargs))) (.line (.literal (by decide)))
    · obtain ⟨push, hpush, h⟩ := Except.bind_eq_ok.mp h
      cases h
      have hpush := (hc.convert hx.sig.ret).toHost (hcall hargs) hpush
      exact .append (.lines (hend hpush)) (.line (.literal (by decide)))

theorem nested_wrapperName (hx : x.Nested) : Nested (wrapperName x) := by
  have hid : Nested x.id := Leads.of_nested hx.owner.1 |>.text.insert hx.uniqueName |>.nested (by decide)
  exact Leads.literal.insert hid |>.nested (by decide)

/-- The head of a function ends with the brace that its body stands in, and `Leads` to a stack with just this
one. -/
theorem leads_functionHead {name : String} (h : Nested name) :
    Leads ("static int " ++ name ++ "(lua_State* L) \x7b") (some []) (some [.curly]) :=
  Leads.literal.insert h |>.text.trans (by decide)

theorem nested_guardYield (hx : x.Nested) : NestedSteps (guardYield x) := by
  refine .block (Leads.literal.trans (by decide)) (.line ?_)
  exact Leads.literal.insert hx.owner.1 |>.text.insert hx.displayName |>.text.nested (by decide)

/-- Between the brace of `leads_functionHead` and the last line stand the guard of `yield`, the receiver, the
parameters and the call. -/
theorem nested_wrapper (hc : c.Nested) (hx : x.Nested) (h : wrapper c x = .ok steps) : NestedSteps steps := by
  obtain ⟨async, self, reads, args, call, hasync, hself, hreads, hcall, rfl⟩ := exists_of_wrapper h
  have hself : NestedSteps self := by
    split at hself
    · cases hself
      exact .nil
    · exact nested_readSelf hc hx.owner hself
  have hguard : NestedSteps (if async.isSome then guardYield x else []) := by
    split
    · exact nested_guardYield hx
    · exact .nil
  obtain ⟨hreads, hargs⟩ := nested_readParams hc
    (fun p hp => hx.sig.paramNames p (Signature.mem_params_of_async? hasync hp))
    (fun p hp => hx.sig.params p (Signature.mem_params_of_async? hasync hp)) hreads
  refine .append (.block (leads_functionHead (nested_wrapperName hx)) ?_) .blank
  exact ((hguard.append hself).append hreads).append (nested_callNative hc hx hargs hcall)

theorem nested_iteratorName (hcls : cls.Nested) : Nested (iteratorName cls.ref) :=
  Leads.literal.insert hcls.ref.1 |>.text.nested (by decide)

/-- The iterator of a class closes each brace that it opens. The element is pushed by the conversion of its
type. -/
theorem nested_iterator (hc : c.Nested) (hcls : cls.Nested) {element : Ty} (helement : element.Named Nested)
    (h : iterator c cls.ref element = .ok steps) : NestedSteps steps := by
  obtain ⟨self, hself, h⟩ := Except.bind_eq_ok.mp h
  obtain ⟨push, hpush, h⟩ := Except.bind_eq_ok.mp h
  cases h
  have hself := nested_readSelf hc hcls.ref hself
  have hpush := (hc.convert helement).toHost (.literal (by decide)) hpush
  have hpush : Nested (push ++ ";") := Leads.of_nested hpush |>.text.nested (by decide)
  refine .append (.block (leads_functionHead (nested_iteratorName hcls)) ?_) .blank
  refine .append (.append (.append hself (.cons ?_ (.line ?_)))
    (.block (Leads.literal.trans (by decide)) (.append (.lines hpush) (.line ?_))))
    (.cons ?_ (.cons ?_ (.line ?_)))
  all_goals exact .literal (by decide)

theorem nested_indexName (hcls : cls.Nested) : Nested (indexName cls.ref) :=
  Leads.literal.insert hcls.ref.1 |>.text.nested (by decide)

/-- Inside its braces the function has one test for each property of the lineage of the class. The classes of
the lineage are those of the model. -/
theorem nested_indexFunction {m : Model} (hm : m.Nested) (hcls : cls ∈ m.classes) :
    NestedSteps (indexFunction m cls) := by
  refine .append (.block (leads_functionHead (nested_indexName (hm.classes cls hcls))) ?_) .blank
  refine .append (.cons ?_ (.map fun x hx => ?_)) (.cons ?_ (.cons ?_ (.line ?_)))
  case refine_2 =>
    obtain ⟨owner, howner, hx⟩ := List.mem_flatMap.mp hx
    have howner := hm.classes owner (Model.mem_classes_of_mem_lineageTo hcls howner)
    have hx := howner.methods x (List.mem_of_mem_filter hx)
    exact Leads.literal.insert hx.displayName |>.text.insert (nested_wrapperName hx)
      |>.text.nested (by decide)
  all_goals exact .literal (by decide)

/-- **Classes.** -/
theorem nested_classFunctions (hc : c.Nested) (hcls : cls ∈ c.model.classes)
    (h : classFunctions c cls = .ok steps) : NestedSteps steps := by
  have hnested := hc.model.classes cls hcls
  obtain ⟨wrappers, hwrappers, h⟩ := Except.bind_eq_ok.mp h
  have hwrappers : NestedSteps wrappers.flatten := by
    refine .flatten fun steps hsteps => ?_
    obtain ⟨x, hx, hsteps⟩ := Except.exists_of_mem_mapM hwrappers hsteps
    exact nested_wrapper hc (hnested.methods x hx) hsteps
  have hindex := nested_indexFunction hc.model hcls
  dsimp only at h
  split at h
  · rename_i element helement
    obtain ⟨iterators, hiterators, h⟩ := Except.bind_eq_ok.mp h
    cases h
    have hiterators := nested_iterator hc hnested (hnested.iterable element helement) hiterators
    exact (hwrappers.append hiterators).append hindex
  · cases h
    exact (hwrappers.append .nil).append hindex

/-! ## Tables and registration -/

/-- The names that a call is written with. -/
def Call.names : Call → List String
  | .newMetatable name | .newLib name | .getMetatable name | .pushFunction name => [name]
  | .getField _ key | .setField _ key => [key]
  | .createTable _ _ | .setMetatable _ | .pop _ => []

/-- The text of a call has one pair of round brackets around numbers, quoted keys and its `names`. -/
theorem nested_callText {call : Call} (h : ∀ n ∈ call.names, Nested n) : Nested call.text := by
  cases call with
  | newMetatable name | newLib name | getMetatable name | pushFunction name =>
    exact Leads.literal.insert (h name (by simp [Call.names])) |>.text.nested (by decide)
  | getField index key | setField index key =>
    exact Leads.literal.insert (Text.nested_toString_int index) |>.text.insert (h key (by simp [Call.names]))
      |>.text.nested (by decide)
  | createTable sequence fields =>
    exact Leads.literal.insert (Text.nested_toString _) |>.text.insert (Text.nested_toString _)
      |>.text.nested (by decide)
  | setMetatable index => exact Leads.literal.insert (Text.nested_toString_int index) |>.text.nested (by decide)
  | pop count => exact Leads.literal.insert (Text.nested_toString count) |>.text.nested (by decide)

/-- An array has one pair of braces for each function and one around them all. -/
theorem nested_functionArray {name : String} (hname : Nested name) {functions : List (String × String)}
    (h : ∀ f ∈ functions, Nested f.1 ∧ Nested f.2) : NestedSteps (functionArray name functions) := by
  have hentries : NestedSteps (functions.map (fun f => .line ("\x7b\"" ++ f.1 ++ "\", " ++ f.2 ++ "\x7d,"))
      ++ [.line "\x7bNULL, NULL\x7d"]) := by
    refine .append (.map fun f hf => ?_) (.line (.literal (by decide)))
    exact Leads.literal.insert (h f hf).1 |>.text.insert (h f hf).2 |>.text.nested (by decide)
  have hhead : Leads ("static const luaL_Reg " ++ name ++ "[] = \x7b") (some []) (some [.curly]) :=
    Leads.literal.insert hname |>.text.trans (by decide)
  have hfoot : Leads "\x7d;" (some [.curly]) (some []) := Leads.literal
  have hall := (Nests.openBlock hhead (hentries.nests _) hfoot).append NestedSteps.blank
  rw [NestedSteps, functionArray]
  simpa using hall

theorem nested_methodsName (hcls : cls.Nested) : Nested (methodsName cls.ref) :=
  Leads.of_nested hcls.ref.1 |>.text.nested (by decide)

theorem nested_staticsName (hcls : cls.Nested) : Nested (staticsName cls.ref) :=
  Leads.of_nested hcls.ref.1 |>.text.nested (by decide)

/-- **Tables** of the functions of a class. -/
theorem nested_methodTables (hcls : cls.Nested) : NestedSteps (methodTables cls) := by
  have hentry : ∀ x ∈ cls.methods, Nested x.displayName ∧ Nested (wrapperName x) := fun x hx =>
    ⟨(hcls.methods x hx).displayName, nested_wrapperName (hcls.methods x hx)⟩
  refine .append (nested_functionArray (nested_methodsName hcls) (List.forall_mem_append.mpr ⟨?_, ?_⟩))
    (nested_functionArray (nested_staticsName hcls) ?_)
  · exact List.forall_mem_map.mpr fun x hx => hentry x (List.mem_of_mem_filter hx)
  · split
    · exact List.forall_mem_singleton.mpr ⟨.literal (by decide), nested_iteratorName hcls⟩
    · simp
  · exact List.forall_mem_map.mpr fun x hx => hentry x (List.mem_of_mem_filter hx)

/-- Each enumerator is checked by one line, with the value of `Enumeration.Nested.value` inside the brackets of
`static_assert`. -/
theorem nested_enumChecks {e : Enumeration} (he : e.Nested) : NestedSteps (enumChecks e) := by
  have hchecks : NestedSteps (e.enumerators.map fun x =>
      Step.line ("static_assert(int64_t(" ++ e.ref.native.text ++ "::" ++ x.1.text ++ ") == "
        ++ x.2.text ++ ", \"" ++ e.ref.name ++ "." ++ x.1.text ++ " has an unexpected value\");")) := by
    refine .map fun x hx => ?_
    exact Leads.literal.insert he.ref.2 |>.text.insert (he.names x hx) |>.text.insert (he.value hx)
      |>.text.insert he.ref.1 |>.text.insert (he.names x hx) |>.text.nested (by decide)
  unfold enumChecks
  dsimp only
  split
  · exact .nil
  · exact hchecks.append .blank

theorem nested_enumRegistration {e : Enumeration} (he : e.Nested) : Nested (enumRegistration e) :=
  Leads.literal.insert he.ref.1 |>.nested (by decide)

/-- **Enumerations.** -/
theorem nested_registerEnum {e : Enumeration} (he : e.Nested) : NestedSteps (registerEnum e) := by
  refine .append (.block ?_ (.append (.cons ?_ (.flatMap fun x hx => .cons ?_ (.line ?_))) (.line ?_))) .blank
  · exact Leads.literal.insert (nested_enumRegistration he) |>.text.trans (by decide)
  · exact nested_callText (by simp [Call.names])
  · exact Leads.literal.insert (he.value hx) |>.text.nested (by decide)
  · exact nested_callText (by simpa [Call.names] using he.names x hx)
  · exact nested_callText (by simpa [Call.names] using he.ref.1)

theorem nested_storedType (hcls : cls.Nested) : Nested (storedType cls.ref) := by
  unfold storedType
  split
  · exact Leads.literal.insert hcls.ref.2 |>.text.nested (by decide)
  · exact hcls.ref.2

/-- The calls of `registerClass` are written with names of the class and of its base, of the module, and with
the keys of metatables. -/
theorem nested_registerClass {module : String} (hmodule : Nested module) (hcls : cls.Nested) :
    ∀ call ∈ registerClass module cls, ∀ n ∈ call.names, Nested n := by
  have hmeta : Nested (metatable module cls.name) := nested_metatable hmodule hcls.ref.1
  have hmethods := nested_methodsName hcls
  have hindex := nested_indexName hcls
  have hdestroy : Nested ("bindgen_lua::destroy<" ++ storedType cls.ref ++ ">") :=
    Leads.literal.insert (nested_storedType hcls) |>.text.nested (by decide)
  have hkeys : Nested "__methods" ∧ Nested "__index" ∧ Nested "__gc" ∧ Nested "__base" := by
    refine ⟨?_, ?_, ?_, ?_⟩ <;> exact .literal (by decide)
  unfold registerClass
  cases hbase : cls.base with
  | none => simp [Call.names, hmeta, hmethods, hindex, hdestroy, hkeys]
  | some base =>
    have hchain : Nested (metatable module base.name) := nested_metatable hmodule (hcls.base base hbase)
    simp [chainToBase, Call.names, hmeta, hmethods, hindex, hdestroy, hkeys, hchain]

theorem nested_registerMetatables {module : String} (hmodule : Nested module) {classes : List Class}
    (h : ∀ c ∈ classes, c.Nested) : NestedSteps (registerMetatables module classes) := by
  refine .append (.block (Leads.literal.trans (by decide)) (.flatMap fun c hc => ?_)) .blank
  refine .append (.map fun call hcall => ?_) .blank
  exact nested_callText (nested_registerClass hmodule (h c hc) call hcall)

/-- The function that opens the module is a brace around the calls that fill its table. Of the model it has the
names of classes and enumerations. -/
theorem nested_openModule (module : String) {m : Model} (hm : m.Nested) : NestedSteps (openModule module m) := by
  refine .block ?_ (.append (.append (.append (.cons ?_ (.line ?_)) (.flatMap fun c hc => ?_))
    (.map fun e he => ?_)) (.line ?_))
  · exact Leads.literal.insert (Text.nested_identifier module) |>.text.trans (by decide)
  · exact .literal (by decide)
  · exact nested_callText (by simp [Call.names])
  · have hname : Nested c.name := (hm.classes c hc).ref.1
    have hstatics := nested_staticsName (hm.classes c hc)
    exact .cons (nested_callText (by simpa [Call.names] using hstatics))
      (.line (nested_callText (by simpa [Call.names] using hname)))
  · exact Leads.of_nested (nested_enumRegistration (hm.enums e he)) |>.text.nested (by decide)
  · exact .literal (by decide)

/-! ## The unit -/

/-- Each header stands in a line of its own, in quotes or angle brackets, neither of which are counted. -/
theorem nested_unitHead {headers : List Document.Value} (hheaders : ∀ h ∈ headers, Nested h.text)
    (h : unitHead headers = .ok steps) : NestedSteps steps := by
  obtain ⟨includes, hincludes, h⟩ := Except.bind_eq_ok.mp h
  cases h
  have hincludes : NestedSteps includes := by
    refine .of_forall fun line hline => ?_
    obtain ⟨header, hmem, hline⟩ := Except.exists_of_mem_mapM hincludes hline
    have hheader := hheaders header hmem
    unfold includeHeader at hline
    split at hline
    · cases hline
      refine .line ?_
      split
      · exact Leads.literal.insert hheader |>.nested (by decide)
      · exact Leads.literal.insert hheader |>.text.nested (by decide)
    · cases hline
  refine .append (.append (.cons ?_ (.cons ?_ (.cons ?_ .blank))) hincludes)
    (.cons ?_ (.append .blank (.cons ?_ (.cons ?_ (.cons ?_ (.cons ?_ (.cons ?_ (.cons ?_ (.cons ?_ .blank)))))))))
  all_goals exact .literal (by decide)

/-- **The unit** is made of nested steps. -/
theorem nested_unit {module : String} {m : Model} (hmodule : Nested module) (hm : m.Nested)
    (h : unit module m = .ok steps) : NestedSteps steps := by
  have hc : Converter.Nested { module, model := m } := ⟨hmodule, hm⟩
  obtain ⟨head, hhead, h⟩ := Except.bind_eq_ok.mp h
  obtain ⟨records, hrecords, h⟩ := Except.bind_eq_ok.mp h
  obtain ⟨classes, hclasses, h⟩ := Except.bind_eq_ok.mp h
  cases h
  have hrecords : NestedSteps records.flatten := by
    refine .flatten fun steps hsteps => ?_
    obtain ⟨r, hr, hsteps⟩ := Except.exists_of_mem_mapM hrecords hsteps
    exact nested_recordFunctions hc (hm.records r hr) hsteps
  have hclasses : NestedSteps classes.flatten := by
    refine .flatten fun steps hsteps => ?_
    obtain ⟨cls, hcls, hsteps⟩ := Except.exists_of_mem_mapM hclasses hsteps
    exact nested_classFunctions hc hcls hsteps
  have hblank : NestedSteps (if m.records.isEmpty then [] else [Code.blank]) := by
    split
    · exact .nil
    · exact .blank
  refine .append (.append (.append (.append (.append (.append (.append (.append (.append
    (nested_unitHead hm.headers hhead) (.flatMap fun e he => ?_)) (.flatMap fun r hr => ?_)) hblank) hrecords)
    hclasses) (.flatMap fun e he => ?_)) (.flatMap fun cls hcls => ?_)) ?_) (nested_openModule module hm)
  · exact nested_enumChecks (hm.enums e he)
  · exact nested_declareRecord (hm.records r hr)
  · exact nested_registerEnum (hm.enums e he)
  · exact nested_methodTables (hm.classes cls hcls)
  · exact nested_registerMetatables hmodule hm.classes

/-- **Rendering.** The unit of a model whose names are nested, and whose enumerators have whole numbers for
values, is nested in its brackets. Behind it no block is open, and the level of indentation is the first one.
Conversions of types with nested names take nested expressions to nested ones, in both directions. -/
theorem nested_of_render {module : String} {m : Model} (hmodule : Nested module) (hm : m.Nested) :
    (∀ text, render module m = .ok text → Nested text ∧ ∃ steps, unit module m = .ok steps ∧
      text = Code.render steps ++ "\n" ∧ (Code.Builder.run {} steps).level = 0 ∧
      (Code.Builder.run {} steps).footers = []) ∧
    ∀ t : Ty, t.Named Nested → ∀ e v, Nested e →
      ((Converter.convert { module, model := m } t).toHost e = .ok v → Nested v) ∧
      ((Converter.convert { module, model := m } t).fromHost e = .ok v → Nested v) := by
  have hc : Converter.Nested { module, model := m } := ⟨hmodule, hm⟩
  refine ⟨fun text h => ?_, fun t ht e v he => ?_⟩
  · obtain ⟨steps, hsteps, h⟩ := Except.bind_eq_ok.mp h
    cases h
    obtain ⟨hrender, hlevel, hfooters⟩ := (nested_unit hmodule hm hsteps).nested_render
    refine ⟨?_, steps, hsteps, rfl, hlevel, hfooters⟩
    exact Leads.of_nested hrender |>.text.nested (by decide)
  · exact ⟨(hc.convert ht).toHost he, (hc.convert ht).fromHost he⟩

/-- A class, a record and an enumeration with brackets in a header and in native names. -/
def dial : Spec where
  headers := [.str "<dial(1).hpp>"]
  primitives := [.str "void", .str "int"]
  enums := [(.str "Turn", { native := .str "Turn", values := [(.str "back", .int (-1))] })]
  records := [(.str "Mark", {
    native := .str "Mark[2]"
    fields := [(.str "at", { type := .named "int", native := .str "at(0)", default := none })] })]
  classes := [(.str "Dial", {
    native := .str "Dial"
    base := .null
    handle := .null
    methods := [(.str "turn", [{
      sig := ⟨[("by", .named "Mark")], .named "Turn", {}⟩
      native := .str "operator()" }])]
    statics := [] })]

/-- The names of `dial` have round and square brackets, so the hypothesis is about more than letters. -/
theorem nested_dial :
    ∃ m text, Model.ofSpec dial = .ok m ∧ Nested "app" ∧ m.Nested ∧ render "app" m = .ok text ∧ Nested text := by
  obtain ⟨m, hm⟩ : ∃ m, Model.ofSpec dial = .ok m := ⟨_, rfl⟩
  obtain ⟨text, htext⟩ : ∃ text, render "app" m = .ok text := by
    cases hm
    exact ⟨_, rfl⟩
  have hmodule : Nested "app" := .literal (by decide)
  have hnested : m.Nested := by
    cases hm
    constructor
    case headers => exact List.forall_mem_singleton.mpr (.literal (by decide))
    case classes =>
      refine List.forall_mem_singleton.mpr ⟨⟨.literal (by decide), .literal (by decide)⟩, nofun, nofun, ?_⟩
      refine List.forall_mem_singleton.mpr ⟨⟨?_, ?_⟩, ?_, ?_, ?_⟩
      case refine_5 =>
        refine .func ?_ ?_ (.enumeration (.literal (by decide)) (.literal (by decide)))
        · exact List.forall_mem_singleton.mpr (.literal (by decide))
        · exact List.forall_mem_singleton.mpr (.record (.literal (by decide)) (.literal (by decide)))
      all_goals exact .literal (by decide)
    case records =>
      refine List.forall_mem_singleton.mpr ⟨⟨.literal (by decide), .literal (by decide)⟩, ?_⟩
      exact List.forall_mem_singleton.mpr
        ⟨.literal (by decide), .literal (by decide), .primitive (.literal (by decide))⟩
    case enums =>
      refine List.forall_mem_singleton.mpr ⟨⟨.literal (by decide), .literal (by decide)⟩, ?_, ?_⟩
      · exact List.forall_mem_singleton.mpr (.literal (by decide))
      · exact List.forall_mem_singleton.mpr ⟨-1, rfl⟩
    all_goals exact nofun
  exact ⟨m, text, hm, hmodule, hnested, htext, ((nested_of_render hmodule hnested).1 text htext).1⟩

end Lua

end LuaGlue
