import LuaGlue.Conversion.Basic

/-!
# Properties of conversions

A property of conversions that each rule of a vocabulary keeps holds of the conversion of every type
(`Rules.Keeps.convert`). The property may speak of the type as well, so that a rule can use what is known
of the types it is given.
-/

namespace LuaGlue.Rules

variable {r : Rules} {P : Ty → Conversion → Prop}

theorem convertArgs_eq_map (r : Rules) (args : List Ty) :
    r.convertArgs args = args.map fun t => (t, r.convert t) := by
  induction args with
  | nil => rfl
  | cons t ts ih => rw [convertArgs, List.map_cons, ih]

@[simp] theorem types_convertArgs (args : List Ty) : (r.convertArgs args).map (·.1) = args := by
  induction args with
  | nil => rfl
  | cons t ts ih => rw [convertArgs, List.map_cons, ih]

@[simp] theorem types_convertParams (params : List (String × Ty)) :
    (r.convertParams params).map (fun p => (p.1, p.2.1)) = params := by
  induction params with
  | nil => rfl
  | cons p ps ih => rw [convertParams, List.map_cons, ih]

/-- Each rule gives a conversion with the property, from conversions with the property. -/
structure Keeps (r : Rules) (P : Ty → Conversion → Prop) : Prop where
  const {t c} : P t c → P (.modified .const t) c
  ref {t c} : P t c → P (.modified .ref t) c
  rref {t c} : P t c → P (.modified .rref t) { toHost := c.toHost, fromHost := r.rrefFromHost t c }
  pointer {t c} : P t c → P (.modified .pointer t) (r.pointer c)
  primitive {name rule} : r.primitive name = some rule → P (.primitive name) rule
  template {name rule} {args : List (Ty × Conversion)} : r.template name = some rule →
    (∀ a ∈ args, P a.1 a.2) → P (.template name (args.map (·.1))) (rule args)
  func {params : List (String × Ty × Conversion)} {ret c quals} : (∀ p ∈ params, P p.2.1 p.2.2) →
    P ret c →
    P (.func ⟨params.map fun p => (p.1, p.2.1), ret, quals⟩) (r.func ⟨params, (ret, c), quals⟩)
  object (c) : P (.object c) (r.object c)
  record (e) : P (.record e) (r.record e)
  enumeration (e) : P (.enumeration e) (r.enumeration e)
  opaqueType (name) : P (.opaqueType name) (r.opaqueType name)
  keyType (name) : P (.keyType name) (r.keyType name)
  /-- A primitive without a rule. -/
  noPrimitive (name) : P (.primitive name) (.fail (.conversion (.unexpectedPrimitive name)))
  /-- A template without a rule. -/
  noTemplate (name args) : P (.template name args) (.fail (.conversion (.unknownTemplate name)))

namespace Keeps

mutual

/-- The conversion of every type has the property. -/
theorem convert (h : r.Keeps P) : ∀ t, P t (r.convert t)
  | .modified .const t => h.const (h.convert t)
  | .modified .ref t => h.ref (h.convert t)
  | .modified .rref t => h.rref (h.convert t)
  | .modified .pointer t => h.pointer (h.convert t)
  | .primitive name => by
    rw [Rules.convert]
    split
    case h_1 rule hrule => exact h.primitive hrule
    case h_2 => exact h.noPrimitive name
  | .template name args => by
    rw [Rules.convert]
    split
    case h_1 rule hrule =>
      have hargs := h.template hrule (h.convertArgs args)
      rwa [types_convertArgs] at hargs
    case h_2 => exact h.noTemplate name args
  | .func ⟨params, ret, quals⟩ => by
    have hfunc : P (.func ⟨(r.convertParams params).map fun p => (p.1, p.2.1), ret, quals⟩) _ :=
      h.func (h.convertParams params) (h.convert ret)
    rwa [types_convertParams] at hfunc
  | .object c => h.object c
  | .record e => h.record e
  | .enumeration e => h.enumeration e
  | .opaqueType name => h.opaqueType name
  | .keyType name => h.keyType name

theorem convertArgs (h : r.Keeps P) : ∀ args, ∀ a ∈ r.convertArgs args, P a.1 a.2
  | [] => fun _ ha => by cases ha
  | t :: ts => List.forall_mem_cons.mpr ⟨h.convert t, h.convertArgs ts⟩

theorem convertParams (h : r.Keeps P) : ∀ params, ∀ p ∈ r.convertParams params, P p.2.1 p.2.2
  | [] => fun _ hp => by cases hp
  | (_, t) :: ps => List.forall_mem_cons.mpr ⟨h.convert t, h.convertParams ps⟩

end

end Keeps

end LuaGlue.Rules
