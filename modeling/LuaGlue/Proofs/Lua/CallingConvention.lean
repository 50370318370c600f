import LuaGlue.Annotations.Module
import LuaGlue.Lua.Wrapper
import LuaGlue.Proofs.Lua.IndexRead
import LuaGlue.Proofs.Lua.LinearConversion
import LuaGlue.Proofs.Model.Async

/-!
# The calling convention of a method

A method is written twice: as a wrapper, which takes its arguments from the Lua stack and calls the native
method, and as an annotation, which tells editors how to call it. Both keep one `Convention`.

- **Arguments** (`Lua.readParams_eq_ok`): a wrapper reads the arguments that the host supplies from
  consecutive stack indices, and passes on one expression for each parameter.
- **Calls** (`Method.call_eq`): the native method is written with these expressions between its brackets.
- **Wrappers** (`Lua.Implements`): what a wrapper does by the convention.
- **Annotations** (`Annotations.Announces`): what an annotation says of it.
- **Values** (`Method.AwaitsVoid`): they agree on whether a call gives a value, unless a completion
  handler receives a `void` besides the error. It resumes with nil then, which the annotation does not show.
-/

namespace LuaGlue

open Code (Step)

/-- How the host calls a method. -/
structure Convention where
  /-- An instance stands in front of the arguments. -/
  onInstance : Bool
  /-- The arguments. -/
  params : List (String × Ty)
  /-- The caller waits until a completion handler resumes it. -/
  awaits : Bool
  /-- The caller receives a value. -/
  givesValue : Bool

/-- The method gives the host a value. An asynchronous one does if its callback takes a value besides the
error. -/
def Method.givesValue (m : Method) : Bool :=
  match m.sig.asyncCallback? with
  | none => !m.sig.ret.isVoid
  | some (.func cb :: _) => cb.params.length == 2
  | some _ => false

/-- The convention of a method that the host sees with the signature `sig`. -/
def Method.convention (m : Method) (sig : Signature Ty) : Convention where
  onInstance := !m.isStatic
  params := sig.visible
  awaits := m.sig.asyncCallback?.isSome
  givesValue := m.givesValue

/-- What is called for the method in native code, on the instance `self` if it needs one. -/
def Method.callee (m : Method) (self : String) : String :=
  match m.kind with
  | .onInstance | .property => self ++ "." ++ m.native.text
  | .onClass => m.owner.native.text ++ "::" ++ m.native.text
  | .ctor => if m.owner.shared then "std::make_shared<" ++ m.owner.native.text ++ ">" else m.owner.native.text

/-- A native call is the callee with the arguments between brackets, in the order in which they are given. -/
theorem Method.call_eq (m : Method) (self : String) (args : List String) :
    m.call self args = m.callee self ++ "(" ++ ", ".intercalate args ++ ")" := by
  unfold Method.call Method.callee
  cases m.kind with
  | ctor =>
    dsimp only
    split <;> simp only [String.append_assoc]
  | onInstance | onClass | property => simp only [String.append_assoc]

/-! ## Asynchronous forms -/

namespace Ty

/-- Constness and references aside, the type is `void`, or an optional or nullable one. -/
def HoldsVoid (t : Ty) : Prop :=
  t.bare = .void ∨
    ∃ n args, t.bare = .template n (.void :: args) ∧ (n = optionalName ∨ n = nullableName)

theorem resumedWith_void {t u : Ty} (h : t.resumedWith = .ok u) : u = .void ↔ t.HoldsVoid := by
  unfold resumedWith at h
  unfold HoldsVoid
  split at h
  · rename_i n args hbare
    split at h
    · rename_i hn
      have hn : n = optionalName ∨ n = nullableName := by simpa using hn
      cases args with
      | nil => cases h
      | cons a args =>
        cases h
        simp [hbare, hn, void]
    · rename_i hn
      have hn : ¬(n = optionalName ∨ n = nullableName) := by simpa using hn
      cases h
      simp [hbare, hn, void]
  · rename_i hbare
    cases h
    refine ⟨fun hvoid => .inl hvoid, ?_⟩
    rintro (hvoid | ⟨n, args, htemplate, -⟩)
    · exact hvoid
    · exact absurd htemplate (hbare n _)

end Ty

/-- The completion handler of the method receives a `void` besides the error. -/
def Method.AwaitsVoid (m : Method) : Prop :=
  ∃ cb rest value err, m.sig.asyncCallback? = some (.func cb :: rest) ∧ cb.params = [value, err] ∧
    value.2.HoldsVoid

/-! ## Arguments -/

namespace Lua

variable {c : Converter} {m : Method}

/-- A parameter in a wrapper: the expression for its value, and the stack index that this reads. The host
supplies nothing for a parameter without an index. -/
structure Read where
  name : String
  type : Ty
  index : Option Nat
  value : String

namespace Read

/-- The statement that reads the value. -/
def statement (x : Read) : List Step := Code.lines ("auto&& " ++ x.name ++ " = " ++ x.value ++ ";")

/-- The expression that passes the value on. -/
def passed (x : Read) : String :=
  match x.type with
  | .modified .rref _ => "std::move(" ++ x.name ++ ")"
  | _ => x.name

/-- The parameter with its name and type. -/
def param (x : Read) : String × Ty := (x.name, x.type)

/-- The value is what the conversion of the type writes for the index, and its text reads the index by
`Ty.ReadAs`; without an index it does not depend on the stack. -/
def Valid (c : Converter) (x : Read) : Prop :=
  match x.index with
  | some i => ¬x.type.isIgnored ∧ ∃ text, x.type.ReadAs c.model text ∧
      (∀ e, (c.convert x.type).fromHost e = .ok (text e)) ∧ x.value = text (toString i)
  | none => x.type.isIgnored ∧ ∀ e, (c.convert x.type).fromHost e = .ok x.value

theorem Valid.isSome {x : Read} (h : x.Valid c) : x.index.isSome = !x.type.isIgnored := by
  unfold Valid at h
  split at h
  · rename_i i hi
    simp [hi, h.1]
  · rename_i hi
    simp [hi, h.1]

end Read

/-- The value of an ignored parameter does not depend on the stack. -/
theorem fromHost_ignored {s : Scope} {t : Ty} (h : t.isIgnored) {e v : String}
    (hv : ((rules s).convert t).fromHost e = .ok v) (e' : String) :
    ((rules s).convert t).fromHost e' = .ok v := by
  cases t with
  | template n args =>
    have hn : n = ignoreArgumentName := by simpa [Ty.isIgnored, Ty.isTemplate] using h
    subst hn
    cases args with
    | nil => cases hv
    | cons a args => exact hv
  | _ => cases h

/-- An `IgnoreArgument` behind constness takes an index, and its value is not read there. -/
example : (Converter.plain.convert (.modified .const (.template "IgnoreArgument" [.primitive "int"]))).fromHost "2" =
    .ok "int\x7b\x7d" := rfl

/-- **Reading arguments.** Those that the host supplies are read from consecutive stack indices, and every
parameter is passed on. -/
theorem readParams_eq_ok {idx : Nat} {params : List (String × Ty)} {steps : List Step}
    {args : List String} (h : readParams c idx params = .ok (steps, args)) :
    ∃ reads : List Read, reads.map Read.param = params ∧ (∀ x ∈ reads, x.Valid c) ∧
      reads.filterMap (·.index) = List.range' idx (params.filter (!·.2.isIgnored)).length ∧
      steps = reads.flatMap Read.statement ∧ args = reads.map Read.passed := by
  induction params generalizing idx steps args with
  | nil =>
    cases h
    exact ⟨[], rfl, by simp, rfl, rfl, rfl⟩
  | cons p params ih =>
    obtain ⟨name, t⟩ := p
    unfold readParams at h
    obtain ⟨value, hvalue, h⟩ := Except.bind_eq_ok.mp h
    obtain ⟨⟨rest, passed⟩, hrest, h⟩ := Except.bind_eq_ok.mp h
    obtain ⟨rfl, rfl⟩ := Prod.mk.inj (Except.pure_eq_ok_iff.mp h)
    obtain ⟨reads, rfl, hvalid, hindices, rfl, rfl⟩ := ih hrest
    -- an ignored parameter leaves the next index to the one after it
    by_cases ht : t.isIgnored
    · simp only [ht, if_true] at hvalue hindices
      refine ⟨⟨name, t, none, value⟩ :: reads, rfl, ?_, ?_, rfl, rfl⟩
      · exact List.forall_mem_cons.mpr ⟨⟨ht, fromHost_ignored ht hvalue⟩, hvalid⟩
      · simpa [ht] using hindices
    · simp only [ht] at hvalue hindices
      refine ⟨⟨name, t, some idx, value⟩ :: reads, rfl, ?_, ?_, rfl, rfl⟩
      · exact List.forall_mem_cons.mpr ⟨⟨ht, (c.writes_fromHost t).exists_of_eq_ok hvalue⟩, hvalid⟩
      · simpa [ht, List.range'_succ] using hindices

/-! ## Wrappers -/

/-- The handler resumes the caller as its last action, with a value or without one. -/
def Resumes (handler : String) (withValue : Bool) : Prop :=
  ∃ before, handler = "\n".intercalate
    (before ++ [if withValue then "_thread->resume(1);" else "_thread->resume(0);", "\x7d"])

/-- The check that the caller can wait. -/
def guardYield (m : Method) : List Step :=
  Code.block "if (!lua_isyieldable(L)) \x7b" [
    .line ("return luaL_error(L, \"" ++ m.owner.name ++ "." ++ m.displayName
      ++ " must be called from a coroutine\");")]

/-- The steps read the instance from the first stack index. -/
def ReadsSelf (c : Converter) (owner : ClassRef) (steps : List Step) : Prop :=
  ∃ self : Read, self.name = "_self" ∧ self.type = .object owner ∧ self.index = some 1 ∧ self.Valid c ∧
    steps = self.statement

/-- The end of a wrapper, from the native call on: whether the wrapper yields, and whether the caller
receives a value. A value is pushed by fixed texts around the call. -/
inductive Finishes (c : Converter) (m : Method) (call : String) : Bool → Bool → List Step → Prop
  | yields {withValue} : Finishes c m call true withValue
      (Code.lines (call ++ ";") ++ [.line "return lua_yield(L, 0);"])
  | value {pre post} : (∀ e, (c.convert m.sig.ret).toHost e = .ok (pre ++ e ++ post)) →
      Finishes c m call false true (Code.lines (pre ++ call ++ post ++ ";") ++ [.line "return 1;"])
  | nothing : Finishes c m call false false (Code.lines (call ++ ";") ++ [.line "return 0;"])

/-- The wrapper keeps the convention `k`, with the parameters `reads` and the completion handler that it
passes last, if any. -/
structure Implements (c : Converter) (m : Method) (k : Convention) (reads : List Read)
    (handler : Option String) (steps : List Step) : Prop where
  valid : ∀ x ∈ reads, x.Valid c
  /-- The arguments of the convention stand on consecutive stack indices, behind the instance. -/
  supplied : (reads.filter (·.index.isSome)).map Read.param = k.params
  indices : reads.filterMap (·.index) = List.range' (if k.onInstance then 2 else 1) k.params.length
  /-- The native method is passed one expression for each of its parameters, in order. -/
  order : reads.map Read.param <+: m.sig.params
  arity : (reads.map Read.passed ++ handler.toList).length = m.sig.params.length
  handled : handler.isSome = k.awaits
  resumes : ∀ h ∈ handler, Resumes h k.givesValue
  /-- The native method is called with these expressions, behind the statements that read them. -/
  steps_eq : ∃ self call,
    (if k.onInstance then ReadsSelf c m.owner self else self = []) ∧
    Finishes c m (m.callee "_self" ++ "(" ++ ", ".intercalate (reads.map Read.passed ++ handler.toList) ++ ")")
      k.awaits k.givesValue call ∧
    steps = Code.block ("static int " ++ wrapperName m ++ "(lua_State* L) \x7b")
      ((if k.awaits then guardYield m else []) ++ self ++ reads.flatMap Read.statement ++ call)
      ++ [Code.blank]

theorem resumeLines_eq_ok {params : List (String × Ty)} (hlen : params.length ≤ 2) {resume : List String}
    (h : resumeLines c params = .ok resume) : ∃ before, resume = before ++
      [if params.length == 2 then "_thread->resume(1);" else "_thread->resume(0);"] := by
  match params with
  | [] => cases h; exact ⟨[], rfl⟩
  | [err] => cases h; exact ⟨[], rfl⟩
  | [value, err] =>
    obtain ⟨push, -, h⟩ := Except.bind_eq_ok.mp h
    cases h
    exact ⟨[push ++ ";"], rfl⟩
  | _ :: _ :: _ :: _ => simp at hlen

theorem lastWrapped_of_asyncCallback? {callback : Ty} {rest : List Ty}
    (h : m.sig.asyncCallback? = some (callback :: rest)) : lastWrapped m = .ok callback := by
  obtain ⟨-, p, hlast, hbare⟩ := Signature.asyncCallback?_eq_some.mp h
  unfold lastWrapped
  simp only [hlast, hbare, Ty.firstArg]

/-- The handler takes what the callback of the method does. -/
theorem resumes_of_completionHandler {cb : Signature Ty} {rest : List Ty} {handler : String}
    (hcall : m.sig.asyncCallback? = some (.func cb :: rest)) (hlen : cb.params.length ≤ 2)
    (h : completionHandler c m = .ok handler) : Resumes handler (cb.params.length == 2) := by
  rw [completionHandler, lastWrapped_of_asyncCallback? hcall, Except.ok_bind] at h
  obtain ⟨params, -, h⟩ := Except.bind_eq_ok.mp h
  split at h
  · cases h
  · obtain ⟨push, -, h⟩ := Except.bind_eq_ok.mp h
    obtain ⟨resume, hresume, h⟩ := Except.bind_eq_ok.mp h
    obtain ⟨before, rfl⟩ := resumeLines_eq_ok hlen hresume
    cases h
    exact ⟨_ ++ before, by simp only [List.append_assoc]; rfl⟩

/-- What is pushed for one expression is pushed for every other by the same texts around it. -/
theorem exists_around_of_toHost {t : Ty} {e v : String} (h : (c.convert t).toHost e = .ok v) :
    ∃ pre post, ∀ e, (c.convert t).toHost e = .ok (pre ++ e ++ post) := by
  rcases (c.regular_convertTo _ t).toHost with ⟨err, herr⟩ | hlinear
  · rw [Converter.convert, herr] at h
    cases h
  · exact hlinear

/-- The native call of a method that is not asynchronous ends as its result says. -/
theorem finishes_of_callNative {args : List String} {call : List Step}
    (hcall : m.sig.asyncCallback? = none) (h : callNative c m false args = .ok call) :
    Finishes c m (m.callee "_self" ++ "(" ++ ", ".intercalate args ++ ")") false m.givesValue call := by
  rw [Method.givesValue, hcall, ← Method.call_eq]
  unfold callNative at h
  simp only [Bool.false_eq_true, if_false] at h
  split at h
  · rename_i hvoid
    cases h
    simp only [hvoid]
    exact .nothing
  · rename_i hvalue
    obtain ⟨push, hpush, h⟩ := Except.bind_eq_ok.mp h
    cases h
    simp only [hvalue]
    obtain ⟨pre, post, hlinear⟩ := exists_around_of_toHost hpush
    rw [hlinear] at hpush
    cases hpush
    exact .value hlinear

/-- An asynchronous method is passed a handler behind its arguments, and resumes with a value if its
callback takes one. -/
theorem exists_handler_of_callNative {cb : Signature Ty} {rest : List Ty} {args : List String}
    {call : List Step} (hsome : m.sig.asyncCallback? = some (.func cb :: rest))
    (hlen : cb.params.length ≤ 2) (h : callNative c m true args = .ok call) :
    ∃ handler, Resumes handler m.givesValue ∧
      Finishes c m (m.callee "_self" ++ "(" ++ ", ".intercalate (args ++ [handler]) ++ ")") true m.givesValue
        call := by
  obtain ⟨handler, hhandler, h⟩ := Except.bind_eq_ok.mp h
  rw [Method.call_eq] at h
  cases h
  have hvalue : m.givesValue = (cb.params.length == 2) := by rw [Method.givesValue, hsome]
  exact ⟨handler, hvalue ▸ resumes_of_completionHandler hsome hlen hhandler, .yields⟩

/-- **Calling the native method.** It is passed what was read for its parameters, and a completion handler
in the place of the callback if it is asynchronous. -/
theorem exists_passed_of_callNative {async : Option (Signature Ty)} {reads : List Read} {call : List Step}
    (hasync : m.sig.async? = .ok async) (hparams : reads.map Read.param = (async.getD m.sig).params)
    (h : callNative c m async.isSome (reads.map Read.passed) = .ok call) :
    ∃ handler : Option String, handler.isSome = m.sig.asyncCallback?.isSome ∧
      (∀ h ∈ handler, Resumes h m.givesValue) ∧ reads.map Read.param <+: m.sig.params ∧
      (reads.map Read.passed ++ handler.toList).length = m.sig.params.length ∧
      Finishes c m (m.callee "_self" ++ "(" ++ ", ".intercalate (reads.map Read.passed ++ handler.toList) ++ ")")
        m.sig.asyncCallback?.isSome m.givesValue call := by
  cases async with
  | none =>
    have hnone := Signature.async?_eq_none.mp hasync
    have hlength := congrArg List.length hparams
    refine ⟨none, by rw [hnone]; rfl, nofun, ⟨[], by simpa using hparams⟩, by simpa using hlength, ?_⟩
    simpa [hnone] using finishes_of_callNative hnone h
  | some sig =>
    obtain ⟨cb, rest, result, hsome, hresult, rfl⟩ := Signature.async?_eq_some hasync
    obtain ⟨-, p, hlast, -⟩ := Signature.asyncCallback?_eq_some.mp hsome
    have hsplit : reads.map Read.param ++ [p] = m.sig.params := by
      rw [hparams]
      exact List.dropLast_append_getLast? p hlast
    have hlength := congrArg List.length hsplit
    have hlen : cb.params.length ≤ 2 := by
      rcases callbackResult_eq_ok hresult with ⟨err, hcb, -⟩ | ⟨value, err, hcb, -⟩ <;> simp [hcb]
    obtain ⟨handler, hresumes, hfinishes⟩ := exists_handler_of_callNative hsome hlen h
    refine ⟨some handler, by rw [hsome]; rfl, ?_, ⟨[p], hsplit⟩, by simpa using hlength, ?_⟩
    · rintro _ ⟨⟩
      exact hresumes
    · simpa [hsome] using hfinishes

theorem supplied_eq {reads : List Read} (h : ∀ x ∈ reads, x.Valid c) :
    (reads.filter (·.index.isSome)).map Read.param =
      (reads.map Read.param).filter (!·.2.isIgnored) := by
  rw [List.filter_map]
  congr 1
  exact List.filter_congr fun x hx => (h x hx).isSome

theorem readsSelf_of_readSelf {owner : ClassRef} {steps : List Step} (h : readSelf c owner = .ok steps) :
    ReadsSelf c owner steps := by
  obtain ⟨value, hvalue, h⟩ := Except.bind_eq_ok.mp h
  cases h
  exact ⟨⟨"_self", .object owner, some 1, value⟩, rfl, rfl, rfl,
    ⟨nofun, (c.writes_fromHost _).exists_of_eq_ok hvalue⟩, rfl⟩

/-- The parts of a wrapper. -/
theorem exists_of_wrapper {steps : List Step} (h : wrapper c m = .ok steps) :
    ∃ async self statements args call, m.sig.async? = .ok async ∧
      (if m.isStatic then .ok [] else readSelf c m.owner) = .ok self ∧
      readParams c (if m.isStatic then 1 else 2) (async.getD m.sig).params = .ok (statements, args) ∧
      callNative c m async.isSome args = .ok call ∧
      steps = Code.block ("static int " ++ wrapperName m ++ "(lua_State* L) \x7b")
        ((if async.isSome then guardYield m else []) ++ self ++ statements ++ call) ++ [Code.blank] := by
  obtain ⟨async, hasync, h⟩ := Except.bind_eq_ok.mp h
  obtain ⟨self, hself, h⟩ := Except.ite_bind_eq_ok.mp h
  obtain ⟨⟨statements, args⟩, hreads, h⟩ := Except.bind_eq_ok.mp h
  obtain ⟨call, hcall, h⟩ := Except.bind_eq_ok.mp h
  exact ⟨async, self, statements, args, call, hasync, hself, hreads, hcall,
    (Except.pure_eq_ok_iff.mp h).symm⟩

/-- **Wrappers keep the convention of their method.** -/
theorem implements_of_wrapper {steps : List Step} (h : wrapper c m = .ok steps) :
    ∃ sig reads handler, m.sig.effective = .ok sig ∧
      Implements c m (m.convention sig) reads handler steps := by
  -- the wrapper in its parts: the receiver, the reads of the parameters, and the call
  obtain ⟨async, self, statements, args, call, hasync, hself, hreads, hcall, rfl⟩ := exists_of_wrapper h
  obtain ⟨reads, hparams, hvalid, hindices, rfl, rfl⟩ := readParams_eq_ok hreads
  obtain ⟨handler, hhandled, hresumes, horder, harity, hfinishes⟩ :=
    exists_passed_of_callNative hasync hparams hcall
  refine ⟨_, reads, handler, Signature.effective_of_async? hasync, ?_⟩
  constructor
  case valid => exact hvalid
  case supplied => rw [supplied_eq hvalid, hparams]; rfl
  case indices =>
    rw [hindices]
    cases hstatic : m.isStatic <;> simp [Method.convention, hstatic, Signature.visible]
  case order => exact horder
  case arity => exact harity
  case handled => exact hhandled
  case resumes => exact hresumes
  case steps_eq =>
    refine ⟨self, call, ?_, hfinishes, ?_⟩
    · cases hstatic : m.isStatic with
      | true =>
        rw [hstatic] at hself
        cases hself
        simp [Method.convention, hstatic]
      | false =>
        rw [hstatic] at hself
        simpa [Method.convention, hstatic] using readsSelf_of_readSelf hself
    · rw [Signature.isSome_async? hasync]
      rfl

/-- A method that returns an asynchronous result without being asynchronous has no wrapper, since such a
result cannot be handed to Lua. -/
theorem ret_of_wrapper {steps : List Step} (h : wrapper c m = .ok steps)
    (hnone : m.sig.asyncCallback? = none) : ¬m.sig.ret.isTemplate asyncResultName := by
  obtain ⟨async, self, statements, args, call, hasync, -, -, hcall, -⟩ := exists_of_wrapper h
  rw [Signature.async?_eq_none.mpr hnone] at hasync
  cases hasync
  intro hret
  have hfinishes := finishes_of_callNative hnone hcall
  generalize hvalue : m.givesValue = withValue at hfinishes
  cases hfinishes with
  | value hpush =>
    cases hty : m.sig.ret with
    | template n ts =>
      have hn : n = asyncResultName := by simpa [hty, Ty.isTemplate] using hret
      subst hn
      have herror := hpush ""
      rw [hty] at herror
      cases herror
    | _ => rw [hty] at hret; cases hret
  | nothing =>
    have hvoid : m.sig.ret.isVoid := by simpa [Method.givesValue, hnone] using hvalue
    rw [Ty.isVoid_iff.mp hvoid] at hret
    cases hret

end Lua

/-! ## Annotations -/

namespace Annotations

variable {module owner : String} {model : Model} {m : Method}

/-- The lines of a method tell of the convention `k`: a line for each argument, one for the value if it
is `shown`, and the head of a function with the names of the arguments. -/
def Announces (module : String) (model : Model) (owner : String) (m : Method) (k : Convention)
    (shown : Bool) (lines : List String) : Prop :=
  ∃ params results,
    List.Forall₂ (fun p line => ∃ type, spellType module model p.2 = .ok type ∧
      line = "---@param " ++ Lua.safeName p.1 ++ " " ++ type) k.params params ∧
    (if shown then ∃ type, results = ["---@return " ++ type] else results = []) ∧
    lines = (if k.awaits then ["---@async"] else []) ++ params ++ results
      ++ ["function " ++ owner ++ (if k.onInstance then ":" else ".") ++ m.displayName ++ "("
        ++ ", ".intercalate (k.params.map fun p => Lua.safeName p.1) ++ ") end"]

/-- **Annotations tell of the convention of their method**, and show a value unless it is `void`. -/
theorem announces_of_methodLines {lines : List String}
    (h : methodLines module model owner m = .ok lines) :
    ∃ sig received, m.sig.effective = .ok sig ∧ receivedType sig.ret = .ok received ∧
      Announces module model owner m (m.convention sig) (!received.isVoid) lines := by
  obtain ⟨async, hasync, h⟩ := Except.bind_eq_ok.mp h
  obtain ⟨params, hparams, h⟩ := Except.bind_eq_ok.mp h
  obtain ⟨received, hreceived, h⟩ := Except.bind_eq_ok.mp h
  have hlines : List.Forall₂ (fun p line => ∃ type, spellType module model p.2 = .ok type ∧
      line = "---@param " ++ Lua.safeName p.1 ++ " " ++ type) (async.getD m.sig).visible params := by
    refine (Except.mapM_eq_ok.mp hparams).imp fun p line hline => ?_
    obtain ⟨type, htype, hline⟩ := Except.bind_eq_ok.mp hline
    exact ⟨type, htype, (Except.pure_eq_ok_iff.mp hline).symm⟩
  have hsep : (if m.isStatic then "." else ":") = if !m.isStatic then ":" else "." := by
    cases m.isStatic <;> rfl
  rw [hsep, Signature.isSome_async? hasync] at h
  obtain ⟨results, hresults, h⟩ := Except.ite_bind_eq_ok.mp h
  refine ⟨_, received, Signature.effective_of_async? hasync, hreceived, params, results, hlines, ?_,
    (Except.pure_eq_ok_iff.mp h).symm⟩
  by_cases hvoid : received.isVoid
  · simp only [hvoid, if_true] at hresults
    cases hresults
    simp [hvoid]
  · simp only [hvoid] at hresults
    obtain ⟨type, -, rfl⟩ := Except.map_eq_ok.mp hresults
    simp [hvoid]

theorem receivedType_of_not_async {t : Ty} (h : ¬t.isTemplate asyncResultName) :
    receivedType t = .ok t := by
  cases t with
  | template n args => exact if_neg h
  | _ => rfl

/-- What an annotation shows is what the method gives, unless that is `void`. -/
theorem shown_iff {sig : Signature Ty} {received : Ty} (heffective : m.sig.effective = .ok sig)
    (hreceived : receivedType sig.ret = .ok received)
    (hret : m.sig.asyncCallback? = none → ¬m.sig.ret.isTemplate asyncResultName) :
    (!received.isVoid) = m.givesValue ↔ ¬m.AwaitsVoid := by
  obtain ⟨async, hasync, hsig⟩ := Except.bind_eq_ok.mp heffective
  rw [Except.pure_eq_ok_iff] at hsig
  subst hsig
  cases async with
  | none =>
    have hnone := Signature.async?_eq_none.mp hasync
    -- without a callback the host receives the result itself
    have hsame : received = m.sig.ret := by
      rw [Option.getD_none, receivedType_of_not_async (hret hnone)] at hreceived
      exact (Except.ok.inj hreceived).symm
    have hno : ¬m.AwaitsVoid := by
      rintro ⟨cb, rest, value, err, hsome, -⟩
      rw [hnone] at hsome
      cases hsome
    rw [hsame, Method.givesValue, hnone]
    exact iff_of_true rfl hno
  | some sig =>
    obtain ⟨cb, rest, result, hsome, hresult, rfl⟩ := Signature.async?_eq_some hasync
    have hreceived : received = result := by
      cases hreceived
      rfl
    subst hreceived
    -- with one, whether there is a value is seen from the number of its parameters
    have hvalue : m.givesValue = (cb.params.length == 2) := by rw [Method.givesValue, hsome]
    have hawaits : m.AwaitsVoid ↔ ∃ value err, cb.params = [value, err] ∧ value.2.HoldsVoid := by
      constructor
      · rintro ⟨cb', rest', value, err, hsome', hparams, hvoid⟩
        rw [hsome] at hsome'
        cases hsome'
        exact ⟨value, err, hparams, hvoid⟩
      · rintro ⟨value, err, hparams, hvoid⟩
        exact ⟨cb, rest, value, err, hsome, hparams, hvoid⟩
    rw [hvalue, hawaits]
    -- a value that holds `void` is counted as one but not shown: this is the exception
    rcases callbackResult_eq_ok hresult with ⟨err, hparams, rfl⟩ | ⟨value, err, hparams, hresumed⟩
    · simp [hparams, Ty.isVoid_iff]
    · simp [hparams, ← Ty.resumedWith_void hresumed, ← Ty.isVoid_iff]

end Annotations

/-! ## Agreement -/

/-- **Wrapper and annotation of a method keep the same convention.** They differ at most in the value that
a caller receives, and that exactly when a completion handler receives a `void`. -/
theorem exists_convention {c : Lua.Converter} {m : Method} {steps : List Step} {module owner : String}
    {model : Model} {lines : List String} (hwrapper : Lua.wrapper c m = .ok steps)
    (hlines : Annotations.methodLines module model owner m = .ok lines) :
    ∃ sig reads handler shown, m.sig.effective = .ok sig ∧
      Lua.Implements c m (m.convention sig) reads handler steps ∧
      Annotations.Announces module model owner m (m.convention sig) shown lines ∧
      (shown = m.givesValue ↔ ¬m.AwaitsVoid) := by
  obtain ⟨sig, reads, handler, hsig, himplements⟩ := Lua.implements_of_wrapper hwrapper
  obtain ⟨sig', received, hsig', hreceived, hannounces⟩ := Annotations.announces_of_methodLines hlines
  rw [hsig] at hsig'
  cases hsig'
  refine ⟨sig, reads, handler, !received.isVoid, hsig, himplements, hannounces, ?_⟩
  exact Annotations.shown_iff hsig hreceived (Lua.ret_of_wrapper hwrapper)

/-- A class with an asynchronous method, whose callback receives a value of the given type. The host does
not supply all of its arguments. -/
def storeWith (value : TypeExpr) : Spec where
  primitives := [.str "void", .str "int", .str "std::string", .str "Status"]
  templates := [(.str "AsyncCallback", .exact 1), (.str "util::Optional", .exact 1),
    (.str "IgnoreArgument", .exact 1)]
  classes := [(.str "Store", {
    native := .str "Store"
    base := .null
    handle := .null
    methods := [(.str "fetch", [{
      sig := ⟨[("flags", .template "IgnoreArgument" [.named "int"]), ("count", .named "int"),
        ("hint", .template "IgnoreArgument" [.named "int"]),
        ("name", .modified .rref (.named "std::string")),
        ("done", .template "AsyncCallback"
          [.func ⟨[("value", value), ("err", .named "Status")], .named "void", {}⟩])],
        .named "void", {}⟩ }])]
    statics := [] })]

/-- The method of that class. -/
def fetchWith (value : Ty) : Method where
  owner := ⟨⟨"Store", .str "Store"⟩, false, false⟩
  kind := .onInstance
  name := .str "fetch"
  uniqueName := "fetch"
  native := .str "fetch"
  sig := ⟨[("flags", .template "IgnoreArgument" [.primitive "int"]), ("count", .primitive "int"),
    ("hint", .template "IgnoreArgument" [.primitive "int"]),
    ("name", .modified .rref (.primitive "std::string")),
    ("done", .template "AsyncCallback"
      [.func ⟨[("value", value), ("err", .primitive "Status")], .void, {}⟩])], .void, {}⟩

/-- The convention of that method, whatever the type of the value. -/
def fetchConvention : Convention where
  onInstance := true
  params := [("count", .primitive "int"), ("name", .modified .rref (.primitive "std::string"))]
  awaits := true
  givesValue := true

/-- An optional value is shown. -/
theorem exists_convention_optional :
    ∃ model cls steps lines reads handler,
      Model.ofSpec (storeWith (.template "util::Optional" [.named "int"])) = .ok model ∧
      cls ∈ model.classes ∧ fetchWith (.template "util::Optional" [.primitive "int"]) ∈ cls.methods ∧
      Lua.wrapper ⟨"app", model, true⟩ (fetchWith (.template "util::Optional" [.primitive "int"]))
        = .ok steps ∧
      Annotations.methodLines "app" model "app.Store"
        (fetchWith (.template "util::Optional" [.primitive "int"])) = .ok lines ∧
      Lua.Implements ⟨"app", model, true⟩ (fetchWith (.template "util::Optional" [.primitive "int"]))
        fetchConvention reads handler steps ∧
      Annotations.Announces "app" model "app.Store"
        (fetchWith (.template "util::Optional" [.primitive "int"])) fetchConvention true lines := by
  obtain ⟨model, hmodel, cls, hcls, hm⟩ : ∃ model,
      Model.ofSpec (storeWith (.template "util::Optional" [.named "int"])) = .ok model ∧
      ∃ cls ∈ model.classes, fetchWith (.template "util::Optional" [.primitive "int"]) ∈ cls.methods :=
    ⟨_, rfl, _, List.mem_singleton.mpr rfl, List.mem_singleton.mpr rfl⟩
  obtain ⟨steps, hsteps⟩ : ∃ steps, Lua.wrapper ⟨"app", model, true⟩
      (fetchWith (.template "util::Optional" [.primitive "int"])) = .ok steps := ⟨_, rfl⟩
  obtain ⟨lines, hlines⟩ : ∃ lines, Annotations.methodLines "app" model "app.Store"
      (fetchWith (.template "util::Optional" [.primitive "int"])) = .ok lines := ⟨_, rfl⟩
  obtain ⟨sig, reads, handler, shown, hsig, himplements, hannounces, hshown⟩ :=
    exists_convention hsteps hlines
  cases hsig
  have hvalue : ¬(fetchWith (.template "util::Optional" [.primitive "int"])).AwaitsVoid := by
    rintro ⟨cb, rest, value, err, hsome, hparams, hvoid⟩
    cases hsome
    cases hparams
    simp [Ty.HoldsVoid, Ty.bare, Ty.void] at hvoid
  cases hshown.mpr hvalue
  exact ⟨model, cls, steps, lines, reads, handler, hmodel, hcls, hm, hsteps, hlines, himplements,
    hannounces⟩

/-- A constant `void`, which is neither `void` nor a template of it, is not shown, though the completion
handler resumes with a value. -/
theorem constVoid_not_shown :
    ∃ model cls steps lines reads handler,
      Model.ofSpec (storeWith (.modified .const (.named "void"))) = .ok model ∧
      cls ∈ model.classes ∧ fetchWith (.modified .const .void) ∈ cls.methods ∧
      (∀ cb rest value err, (fetchWith (.modified .const .void)).sig.asyncCallback? =
        some (.func cb :: rest) → cb.params = [value, err] →
          value.2 ≠ .void ∧ ∀ n args, value.2 ≠ .template n args) ∧
      Lua.wrapper ⟨"app", model, true⟩ (fetchWith (.modified .const .void)) = .ok steps ∧
      Annotations.methodLines "app" model "app.Store" (fetchWith (.modified .const .void)) = .ok lines ∧
      Lua.Implements ⟨"app", model, true⟩ (fetchWith (.modified .const .void)) fetchConvention reads
        handler steps ∧
      Annotations.Announces "app" model "app.Store" (fetchWith (.modified .const .void)) fetchConvention
        false lines := by
  obtain ⟨model, hmodel, cls, hcls, hm⟩ : ∃ model,
      Model.ofSpec (storeWith (.modified .const (.named "void"))) = .ok model ∧
      ∃ cls ∈ model.classes, fetchWith (.modified .const .void) ∈ cls.methods :=
    ⟨_, rfl, _, List.mem_singleton.mpr rfl, List.mem_singleton.mpr rfl⟩
  obtain ⟨steps, hsteps⟩ : ∃ steps, Lua.wrapper ⟨"app", model, true⟩
      (fetchWith (.modified .const .void)) = .ok steps := ⟨_, rfl⟩
  obtain ⟨lines, hlines⟩ : ∃ lines, Annotations.methodLines "app" model "app.Store"
      (fetchWith (.modified .const .void)) = .ok lines := ⟨_, rfl⟩
  obtain ⟨sig, reads, handler, hsig, himplements⟩ := Lua.implements_of_wrapper hsteps
  obtain ⟨sig', received, hsig', hreceived, hannounces⟩ := Annotations.announces_of_methodLines hlines
  cases hsig
  cases hsig'
  cases hreceived
  refine ⟨model, cls, steps, lines, reads, handler, hmodel, hcls, hm, ?_, hsteps, hlines, himplements,
    hannounces⟩
  intro cb rest value err hsome hparams
  cases hsome
  cases hparams
  exact ⟨nofun, nofun⟩

end LuaGlue
