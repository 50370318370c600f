import LuaGlue.Annotations.Type
import LuaGlue.Proofs.Model.Closure
import Mathlib.Data.Finset.Card
import Mathlib.Order.Monotone.Basic

/-!
# Types that annotations can write

- **Annotatable types** (`Annotatable`): templates that annotations know, with as many arguments as they
  write, around entities, primitives and key types. Parameters that the host does not supply, and the
  result of a function without one, are not written.
- **Key types** (`keyTypesTo`): those that can be written through so many key types.
- **Depth** (`keyTypesTo_length`): a key type that can be written at all can be written through as many key
  types as the model has. Each level but the last adds a key type, and there are no more to add then.
-/

namespace LuaGlue.Annotations

/-- A template of this shape is written by its first argument. -/
def Shape.isUnary : Shape → Bool
  | .transparent | .optional | .array => true
  | .tuple | .table => false

/-- The type can be written if the key types in `known` can. -/
inductive Annotatable (known : String → Prop) : Ty → Prop
  | primitive {n} : Annotatable known (.primitive n)
  | modified {m t} : Annotatable known t → Annotatable known (.modified m t)
  | unary {n shape a args} : Shape.ofTemplate? n = some shape → shape.isUnary → Annotatable known a →
      Annotatable known (.template n (a :: args))
  | tuple {n args} : Shape.ofTemplate? n = some .tuple → (∀ a ∈ args, Annotatable known a) →
      Annotatable known (.template n args)
  | table {n key value} : Shape.ofTemplate? n = some .table → Annotatable known key →
      Annotatable known value → Annotatable known (.template n [key, value])
  | func {params ret quals} : (∀ p ∈ params, ¬p.2.isIgnored → Annotatable known p.2) →
      (¬ret.isVoid → Annotatable known ret) → Annotatable known (.func ⟨params, ret, quals⟩)
  | object {c} : Annotatable known (.object c)
  | record {r} : Annotatable known (.record r)
  | enumeration {e} : Annotatable known (.enumeration e)
  | opaqueType {n} : Annotatable known (.opaqueType n)
  | keyType {n} : known n → Annotatable known (.keyType n)

theorem Annotatable.mono {known known' : String → Prop} {t : Ty} (h : Annotatable known t)
    (hknown : ∀ n, known n → known' n) : Annotatable known' t := by
  induction h with
  | primitive => exact .primitive
  | modified _ ih => exact .modified ih
  | unary hshape hunary _ ih => exact .unary hshape hunary ih
  | tuple hshape _ ih => exact .tuple hshape ih
  | table hshape _ _ ihk ihv => exact .table hshape ihk ihv
  | func _ _ ihp ihr => exact .func ihp ihr
  | object => exact .object
  | record => exact .record
  | enumeration => exact .enumeration
  | opaqueType => exact .opaqueType
  | keyType hn => exact .keyType (hknown _ hn)

namespace Annotatable

variable {known : String → Prop}

theorem bare : ∀ {t : Ty}, Annotatable known t → Annotatable known t.bare
  | .modified .const _, .modified h | .modified .ref _, .modified h | .modified .rref _, .modified h => h.bare
  | .modified .pointer _, h | .primitive _, h | .template _ _, h | .func _, h | .object _, h | .record _, h
  | .enumeration _, h | .opaqueType _, h | .keyType _, h => h

theorem firstArg {n : String} {a : Ty} {args : List Ty} (h : Annotatable known (.template n (a :: args))) :
    Annotatable known a := by
  cases h with
  | unary _ _ ha => exact ha
  | tuple _ hargs => exact hargs a (by simp)
  | table _ hkey _ => exact hkey

/-- What a callback resumes with can be written if what it receives can. -/
theorem resumedWith {t u : Ty} (h : Annotatable known t) (hu : t.resumedWith = .ok u) :
    Annotatable known u := by
  have hbare := h.bare
  unfold Ty.resumedWith at hu
  split at hu
  · rename_i n args heq
    rw [heq] at hbare
    split at hu
    · cases args with
      | nil => cases hu
      | cons a args => cases hu; exact hbare.firstArg
    · cases hu; exact hbare
  · cases hu; exact hbare

end Annotatable

/-! ## Writing -/

section

variable {module : String} {keyType : String → Except Error String}

theorem spellArgs_ok {args : List Ty} (h : ∀ a ∈ args, ∃ text, spell module keyType a = .ok text) :
    ∃ texts, spellArgs module keyType args = .ok texts := by
  induction args with
  | nil => exact ⟨[], rfl⟩
  | cons a args ih =>
    obtain ⟨text, htext⟩ := h a (by simp)
    obtain ⟨texts, htexts⟩ := ih fun b hb => h b (by simp [hb])
    exact ⟨text :: texts, by rw [spellArgs, htext, Except.ok_bind, htexts]; rfl⟩

theorem spellParams_ok {params : List (String × Ty)}
    (h : ∀ p ∈ params, ¬p.2.isIgnored → ∃ text, spell module keyType p.2 = .ok text) :
    ∃ texts, spellParams module keyType params = .ok texts := by
  induction params with
  | nil => exact ⟨[], rfl⟩
  | cons p params ih =>
    obtain ⟨texts, htexts⟩ := ih fun q hq => h q (by simp [hq])
    by_cases hp : p.2.isIgnored
    · exact ⟨texts, by rw [spellParams, if_pos hp, htexts]⟩
    · obtain ⟨text, htext⟩ := h p (by simp) hp
      exact ⟨_, by rw [spellParams, if_neg hp, htext, Except.ok_bind, htexts]; rfl⟩

/-- An annotatable type is written over any way to write the key types it needs. -/
theorem spell_ok {known : String → Prop} (hknown : ∀ n, known n → ∃ text, keyType n = .ok text)
    {t : Ty} (h : Annotatable known t) : ∃ text, spell module keyType t = .ok text := by
  induction h with
  | primitive | object | record | enumeration | opaqueType => exact ⟨_, by rw [spell]⟩
  | modified _ ih => rwa [spell]
  | @unary n shape a args hshape hunary _ ih =>
    obtain ⟨text, htext⟩ := ih
    rw [spell, hshape]
    cases shape with
    | transparent => exact ⟨text, htext⟩
    | optional => exact ⟨orNil text, by simp only [htext]; rfl⟩
    | array => exact ⟨arrayOf text, by simp only [htext]; rfl⟩
    | tuple | table => cases hunary
  | tuple hshape _ ih =>
    obtain ⟨texts, htexts⟩ := spellArgs_ok ih
    unfold spell
    rw [hshape]
    exact ⟨_, by simp only [htexts]; rfl⟩
  | table hshape _ _ ihk ihv =>
    obtain ⟨key, hkey⟩ := ihk
    obtain ⟨value, hvalue⟩ := ihv
    rw [spell, hshape]
    exact ⟨_, by simp only [hkey, hvalue]; rfl⟩
  | @func params ret quals _ _ ihp ihr =>
    obtain ⟨texts, htexts⟩ := spellParams_ok ihp
    rw [spell, htexts, Except.ok_bind]
    by_cases hret : ret.isVoid
    · exact ⟨_, if_pos hret⟩
    · obtain ⟨text, htext⟩ := ihr hret
      exact ⟨_, by rw [if_neg hret, htext]; rfl⟩
  | keyType hn => rw [spell]; exact hknown _ hn

end

/-! ## Depth -/

/-- The key types that can be written through at most `depth` key types, themselves included. -/
def keyTypesTo (model : Model) : Nat → String → Prop
  | 0, _ => False
  | depth + 1, n => ∃ t, model.keyType? n = some t ∧ Annotatable (keyTypesTo model depth) t

variable {model : Model} {module : String} {depth : Nat}

theorem spellTo_ok {t : Ty} (h : Annotatable (keyTypesTo model depth) t) :
    ∃ text, spellTo module model (depth + 1) t = .ok text := by
  induction depth generalizing t with
  | zero => exact spell_ok (fun _ hn => hn.elim) h
  | succ depth ih =>
    refine spell_ok (fun n hn => ?_) h
    obtain ⟨u, hu, hwritten⟩ := hn
    simp only [hu]
    exact ih hwritten

theorem keyTypesTo_succ {n : String} (h : keyTypesTo model depth n) :
    keyTypesTo model (depth + 1) n := by
  induction depth generalizing n with
  | zero => exact h.elim
  | succ depth ih =>
    obtain ⟨t, ht, hwritten⟩ := h
    exact ⟨t, ht, hwritten.mono fun _ => ih⟩

/-- A level that adds no key type is followed by one that adds none. -/
theorem keyTypesTo_stable (h : ∀ n, keyTypesTo model (depth + 1) n → keyTypesTo model depth n)
    {n : String} (hn : keyTypesTo model (depth + 2) n) : keyTypesTo model (depth + 1) n := by
  obtain ⟨t, ht, hwritten⟩ := hn
  exact ⟨t, ht, hwritten.mono h⟩

open Classical in
/-- The names of the key types of a level. -/
noncomputable def level (model : Model) (depth : Nat) : Finset String :=
  (model.keyTypes.map (·.1)).toFinset.filter (keyTypesTo model depth)

open Classical in
theorem mem_level {n : String} : n ∈ level model depth ↔ keyTypesTo model depth n := by
  rw [level, Finset.mem_filter, List.mem_toFinset, and_iff_right_iff_imp]
  intro h
  cases depth with
  | zero => exact h.elim
  | succ depth =>
    obtain ⟨t, ht, -⟩ := h
    exact List.mem_map_of_mem (Model.mem_of_keyType? ht)

theorem level_subset_succ (depth : Nat) : level model depth ⊆ level model (depth + 1) :=
  fun _ hn => mem_level.mpr (keyTypesTo_succ (mem_level.mp hn))

open Classical in
theorem card_level_le (depth : Nat) : (level model depth).card ≤ model.keyTypes.length :=
  calc (level model depth).card
      ≤ (model.keyTypes.map (·.1)).toFinset.card := Finset.card_filter_le _ _
    _ ≤ (model.keyTypes.map (·.1)).length := List.toFinset_card_le _
    _ = model.keyTypes.length := List.length_map _

theorem level_eq_of_card (h : (level model depth).card = (level model (depth + 1)).card) :
    level model (depth + 1) = level model depth :=
  (Finset.eq_of_subset_of_card_le (level_subset_succ depth) h.ge).symm

/-- A key type that can be written at all can be written through as many key types as there are. -/
theorem keyTypesTo_length {n : String} (h : keyTypesTo model depth n) :
    keyTypesTo model model.keyTypes.length n := by
  have hmono : Monotone (level model) := monotone_nat_of_le_succ level_subset_succ
  rcases Nat.le_total depth model.keyTypes.length with hle | hle
  · exact mem_level.mp (hmono hle (mem_level.mpr h))
  · have hstep (d : Nat) (hd : (level model d).card = (level model (d + 1)).card) :
        (level model (d + 1)).card = (level model (d + 2)).card := by
      have heq := level_eq_of_card hd
      refine congrArg Finset.card (Finset.Subset.antisymm (level_subset_succ _) fun k hk => ?_)
      refine mem_level.mpr (keyTypesTo_stable (fun j hj => ?_) (mem_level.mp hk))
      exact mem_level.mp (heq ▸ mem_level.mpr hj)
    have hcard : (level model depth).card = (level model model.keyTypes.length).card :=
      Nat.stabilises_of_monotone (fun _ _ hd => Finset.card_le_card (hmono hd)) card_level_le hstep hle
    have heq := Finset.eq_of_subset_of_card_le (hmono hle) hcard.le
    exact mem_level.mp (heq ▸ mem_level.mpr h)

/-- A type that can be written over some depth of key types has its spelling. -/
theorem spellType_ok {t : Ty} (h : Annotatable (keyTypesTo model depth) t) :
    ∃ text, spellType module model t = .ok text :=
  spellTo_ok (h.mono fun _ => keyTypesTo_length)

end LuaGlue.Annotations
