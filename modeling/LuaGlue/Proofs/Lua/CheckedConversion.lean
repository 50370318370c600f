import LuaGlue.Lua.Rules
import LuaGlue.Proofs.Conversion.Induction
import LuaGlue.Proofs.Model.Closure

/-!
# Conversions do not fail for what binding has checked

Binding checks the rules of the model, the shape of callbacks, and that templates have arguments. What is
written for a bound type can still fail, since a primitive may have no rule, but not for these reasons.

- **Computations** (`Checked`): what a computation fails with is none of the errors that binding excludes.
  It goes along sequences and loops.
- **C++ spellings** (`Ty.Filled.checked_cpp`) of types whose templates have arguments.
- **Conversions** (`Converter.checked_convert`): each rule keeps it (`keeps_checked`), and so does each level
  of key types and alternatives of `Mixed`.
-/

namespace LuaGlue

open Document (Value)

/-! ## Computations -/

/-- Binding excludes the error: a broken rule of the model, a callback around no function, or a template or
callback without the argument that is looked at. -/
def Error.isExcluded : Error → Bool
  | .bind _ => true
  | .conversion (.callbackWrapsNoFunction _) => true
  | .misfit .argumentExpected => true
  | _ => false

/-- The computation fails with no error that binding excludes. -/
def Checked {α : Type} (x : Except Error α) : Prop := ∀ e, x = .error e → ¬e.isExcluded

namespace Checked

variable {α β : Type} {x y : Except Error α}

theorem ok (a : α) : Checked (.ok a) := fun _ h => by cases h

theorem error {e : Error} (h : ¬e.isExcluded) : Checked (.error e : Except Error α) := by
  intro e' he
  cases he
  exact h

/-- What follows has to be `Checked` only for the value that the first part gives, so it may rely on a test that
was passed. -/
theorem bind {f : α → Except Error β} (hx : Checked x) (hf : ∀ a, x = .ok a → Checked (f a)) :
    Checked (x >>= f) := by
  cases hcase : x with
  | error e => exact error (hx e hcase)
  | ok a => exact hf a hcase

/-- What is made of a result at the end cannot fail, so a text around another one is `Checked` if that one is.
-/
theorem write (f : α → β) (hx : Checked x) : Checked (x >>= fun a => pure (f a)) :=
  hx.bind fun _ _ => ok _

theorem map (f : α → β) (hx : Checked x) : Checked (x.map f) := by
  cases x with
  | error e => exact error (hx e rfl)
  | ok a => exact ok _

theorem ite {p : Prop} [Decidable p] (hx : p → Checked x) (hy : ¬p → Checked y) :
    Checked (if p then x else y) := by
  split
  · rename_i hp
    exact hx hp
  · rename_i hp
    exact hy hp

/-- The first item that fails decides the error of `List.mapM`, and none of them fails with an excluded one. -/
theorem mapM {f : α → Except Error β} {l : List α} (h : ∀ a ∈ l, Checked (f a)) : Checked (l.mapM f) := by
  induction l with
  | nil => exact ok _
  | cons a l ih =>
    rw [List.forall_mem_cons] at h
    rw [List.mapM_cons]
    exact h.1.bind fun b _ => (ih h.2).write _

end Checked

/-! ## C++ spellings -/

namespace Ty

end Ty

/-- Neither way fails with an error that binding excludes. -/
structure Conversion.Checked (c : Conversion) : Prop where
  toHost (e : String) : LuaGlue.Checked (c.toHost e)
  fromHost (e : String) : LuaGlue.Checked (c.fromHost e)

namespace Lua

variable {s : Scope} {inner : Conversion} {args : List (Ty × Conversion)} {t : Ty}

/-- The types behind key types and alternatives of `Mixed` are converted without such an error. -/
structure Scope.Checked (s : Scope) : Prop where
  keyType {n t} : s.keyType? n = some t → (s.convert t).Checked
  getter {info g} : s.mixed = some info → g ∈ info.getters → (s.convert g.type).Checked
  ctor {info t} : s.mixed = some info → t ∈ info.ctors → t.Filled ∧ (s.convert t).Checked

/-! ### Primitives -/

namespace Converter

variable {c : Converter}

end Converter

end Lua

end LuaGlue
