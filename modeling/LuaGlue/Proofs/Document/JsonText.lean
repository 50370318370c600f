import LuaGlue.Document.Json

/-!
# Values without a JSON text

`Value.json?` gives a text for exactly those values that hold nothing but what JSON can spell
(`Value.json?_eq_none_iff`).

- **Keys** (`Value.JsonKey`): texts, numbers, truth values and null.
- **Values** (`Value.NoJson`): a day, a moment, bytes or a set is at fault, wherever it stands in the value, and so
  is a key of another kind.
-/

namespace LuaGlue.Document.Value

/-- The keys that a mapping may have in a JSON text. -/
inductive JsonKey : Value → Prop
  | null : JsonKey .null
  | bool (b : Bool) : JsonKey (.bool b)
  | int (n : Int) : JsonKey (.int n)
  | float (text : String) : JsonKey (.float text)
  | str (s : String) : JsonKey (.str s)

/-- The value has no JSON text: it is of a kind that JSON lacks, or holds such a value or key. -/
inductive NoJson : Value → Prop
  | day (d : Day) : NoJson (.day d)
  | moment (m : Moment) : NoJson (.moment m)
  | bytes (bs : List UInt8) : NoJson (.bytes bs)
  | set (items : List Value) : NoJson (.set items)
  | item {items : List Value} {v : Value} : v ∈ items → NoJson v → NoJson (.list items)
  | key {es : Entries} {e : Value × Value} : e ∈ es → ¬JsonKey e.1 → NoJson (.map es)
  | value {es : Entries} {e : Value × Value} : e ∈ es → NoJson e.2 → NoJson (.map es)

theorem jsonKey?_eq_none_iff (k : Value) : k.jsonKey? = none ↔ ¬k.JsonKey := by
  constructor
  · rintro h ⟨⟩ <;> cases h
  · intro h
    cases k with
    | null => exact absurd .null h
    | bool b => exact absurd (.bool b) h
    | int n => exact absurd (.int n) h
    | float text => exact absurd (.float text) h
    | str s => exact absurd (.str s) h
    | day _ | moment _ | bytes _ | list _ | set _ | map _ => rfl

mutual

/-- **Values without a JSON text** are those of `NoJson`. -/
theorem json?_eq_none_iff : ∀ v : Value, v.json? = none ↔ v.NoJson
  | .null => iff_of_false (by simp [json?]) (by rintro ⟨⟩)
  | .bool _ => iff_of_false (by simp [json?]) (by rintro ⟨⟩)
  | .int _ => iff_of_false (by simp [json?]) (by rintro ⟨⟩)
  | .float _ => iff_of_false (by simp [json?]) (by rintro ⟨⟩)
  | .str _ => iff_of_false (by simp [json?]) (by rintro ⟨⟩)
  | .day d => ⟨fun _ => .day d, fun _ => rfl⟩
  | .moment m => ⟨fun _ => .moment m, fun _ => rfl⟩
  | .bytes bs => ⟨fun _ => .bytes bs, fun _ => rfl⟩
  | .set items => ⟨fun _ => .set items, fun _ => rfl⟩
  | .list items => by
    rw [json?, Option.map_eq_none_iff, jsonItems?_eq_none_iff items]
    constructor
    · rintro ⟨v, hv, h⟩
      exact .item hv h
    · intro h
      cases h with
      | item hv h => exact ⟨_, hv, h⟩
  | .map es => by
    rw [json?, Option.map_eq_none_iff, jsonEntries?_eq_none_iff es]
    constructor
    · rintro ⟨e, he, h | h⟩
      · exact .key he h
      · exact .value he h
    · intro h
      cases h with
      | key he h => exact ⟨_, he, .inl h⟩
      | value he h => exact ⟨_, he, .inr h⟩

theorem jsonItems?_eq_none_iff : ∀ items : List Value, jsonItems? items = none ↔ ∃ v ∈ items, v.NoJson
  | [] => by simp [jsonItems?]
  | v :: vs => by
    simp only [jsonItems?, List.mem_cons, exists_eq_or_imp]
    rw [← json?_eq_none_iff v, ← jsonItems?_eq_none_iff vs]
    cases v.json? with
    | none => simp
    | some text => cases jsonItems? vs <;> simp

theorem jsonEntries?_eq_none_iff : ∀ es : List (Value × Value),
    jsonEntries? es = none ↔ ∃ e ∈ es, ¬JsonKey e.1 ∨ NoJson e.2
  | [] => by simp [jsonEntries?]
  | (k, v) :: es => by
    simp only [jsonEntries?, List.mem_cons, exists_eq_or_imp]
    rw [← jsonKey?_eq_none_iff k, ← json?_eq_none_iff v, ← jsonEntries?_eq_none_iff es]
    cases k.jsonKey? with
    | none => simp
    | some key =>
      cases v.json? with
      | none => simp
      | some text => cases jsonEntries? es <;> simp

end

end LuaGlue.Document.Value
