import Stencil.Json
import Stencil.Proofs.Number.Integer
import Stencil.Proofs.Value.Nested

/-! The JSON form of values, read back: nothing is lost of a value that has one but the sign of its
zeros, and what is written as null stays null. -/
namespace Stencil

namespace Json

variable {n : Number} {k : Int}

theorem ofNumber_of_integer (integer : n.integer? = some k) (small : k.natAbs < 2 ^ 53) :
    ofNumber n = .integer k := by
  obtain ⟨m, q, fields, -, -⟩ := Number.integer?_eq_some_iff.1 integer
  simp only [ofNumber, fields, integer]
  exact if_pos small

/-- The three forms of a number. -/
theorem ofNumber_cases (n : Number) :
    (∃ k, n.integer? = some k ∧ k.natAbs < 2 ^ 53 ∧ ofNumber n = .integer k) ∨
      n.IsFinite ∧ ofNumber n = .decimal n ∨ ¬ n.IsFinite ∧ ofNumber n = .null := by
  cases fields : n.absolute with
  | nan => exact .inr (.inr ⟨by simp [Number.IsFinite, fields], by simp [ofNumber, fields]⟩)
  | infinite => exact .inr (.inr ⟨by simp [Number.IsFinite, fields], by simp [ofNumber, fields]⟩)
  | finite m q =>
    have finite : n.IsFinite := ⟨m, q, fields⟩
    cases integer : n.integer? with
    | none => exact .inr (.inl ⟨finite, by simp [ofNumber, fields, integer]⟩)
    | some k =>
      by_cases small : k.natAbs < 2 ^ 53
      · exact .inl ⟨k, rfl, small, ofNumber_of_integer integer small⟩
      · refine .inr (.inl ⟨finite, ?_⟩)
        simp only [ofNumber, fields, integer]
        exact if_neg small

theorem toValue_integer (integer : n.integer? = some k) :
    toValue (.integer k) = .number n.canonical := by
  rw [toValue, Number.nearest_of_integer integer]

/-- Written again, a number that was read back has the form that it was read from. -/
theorem toJson_toValue_ofNumber (n : Number) : (ofNumber n).toValue.toJson = ofNumber n := by
  obtain ⟨k, integer, small, form⟩ | ⟨finite, form⟩ | ⟨-, form⟩ := ofNumber_cases n
  · obtain ⟨m, q, fields, -⟩ := Number.integer?_eq_some_iff.1 integer
    have equal := Number.equal_canonical (Number.ordered_of_absolute fields)
    have again : n.canonical.integer? = some k := (Number.integer?_congr equal).trans integer
    rw [form, toValue_integer integer, Value.toJson, ofNumber_of_integer again small]
  · rw [form, toValue, Value.toJson, form]
  · rw [form, toValue, Value.toJson]

end Json

namespace Value

variable {items : List Value} {entries : List (String × Value)}

/-- The value is in JSON what it is: in no place of it stands a callable, NaN or an infinity. -/
def HasJsonForm : Value → Prop := Everywhere fun
  | .number n => n.IsFinite
  | .callable _ => False
  | _ => True

@[simp] theorem hasJsonForm_number {n : Number} : (number n).HasJsonForm ↔ n.IsFinite :=
  everywhere_iff.trans (iff_of_eq (and_true _))

@[simp] theorem hasJsonForm_callable {f : Callable} : ¬ (callable f).HasJsonForm :=
  fun form => (everywhere_iff.1 form).1

@[simp] theorem hasJsonForm_array :
    (array items).HasJsonForm ↔ ∀ v ∈ items, v.HasJsonForm :=
  everywhere_iff.trans (iff_of_eq (true_and _))

@[simp] theorem hasJsonForm_mapping :
    (mapping entries).HasJsonForm ↔ ∀ e ∈ entries, e.2.HasJsonForm :=
  everywhere_iff.trans (iff_of_eq (true_and _))

/-- The same value with the same order everywhere, in which numbers are equal as numbers: zeros may
differ in their sign. -/
inductive EqualInOrder : Value → Value → Prop
  | null : EqualInOrder .null .null
  | bool (b : Bool) : EqualInOrder (.bool b) (.bool b)
  | number {a b : Number} (equal : a.equal b = true) : EqualInOrder (.number a) (.number b)
  | string (s : String) : EqualInOrder (.string s) (.string s)
  | array {vs ws : List Value} (items : List.Forall₂ EqualInOrder vs ws) :
      EqualInOrder (.array vs) (.array ws)
  | mapping {d e : Dict Value} (keys : Dict.keys d = Dict.keys e)
      (values : List.Forall₂ EqualInOrder (Dict.values d) (Dict.values e)) :
      EqualInOrder (.mapping d) (.mapping e)
  | callable (f : Callable) : EqualInOrder (.callable f) (.callable f)

theorem equalInOrder_ofNumber {n : Number} (finite : n.IsFinite) :
    EqualInOrder (Json.ofNumber n).toValue (.number n) := by
  obtain ⟨k, integer, -, form⟩ | ⟨-, form⟩ | ⟨infinite, -⟩ := Json.ofNumber_cases n
  · rw [form, Json.toValue_integer integer]
    exact .number (Number.equal_canonical finite.ordered)
  · rw [form, Json.toValue]
    exact .number (Number.equal_self_iff.2 finite.ordered)
  · exact absurd finite infinite

theorem toValue_toJson (v : Value) (form : v.HasJsonForm) : EqualInOrder v.toJson.toValue v := by
  induction v with
  | null => exact .null
  | bool b => exact .bool b
  | number n => exact equalInOrder_ofNumber (hasJsonForm_number.1 form)
  | string s => exact .string s
  | array items ih =>
    rw [toJson, Json.toValue, jsonOfItems_eq_map, Json.valuesOfItems_eq_map, List.map_map]
    refine .array (List.forall₂_map_left_iff.2 (List.forall₂_same.2 fun v member => ?_))
    exact ih v member (hasJsonForm_array.1 form v member)
  | mapping entries ih =>
    rw [toJson, Json.toValue, jsonOfEntries_eq_map, Json.valuesOfEntries_eq_map, List.map_map]
    refine .mapping (by simp [Dict.keys, Function.comp_def]) ?_
    rw [Dict.values, Dict.values, List.map_map, List.forall₂_map_left_iff, List.forall₂_map_right_iff]
    refine List.forall₂_same.2 fun e member => ?_
    exact ih e member (hasJsonForm_mapping.1 form e member)
  | callable f => exact absurd form hasJsonForm_callable

theorem toJson_toValue_toJson (v : Value) : v.toJson.toValue.toJson = v.toJson := by
  induction v with
  | null | bool | string | callable => rfl
  | number n => exact Json.toJson_toValue_ofNumber n
  | array items ih =>
    have same : items.map (toJson ∘ Json.toValue ∘ toJson) = items.map toJson :=
      List.map_congr_left ih
    simp only [toJson, Json.toValue, jsonOfItems_eq_map, Json.valuesOfItems_eq_map, List.map_map, same]
  | mapping entries ih =>
    simp only [toJson, Json.toValue, jsonOfEntries_eq_map, Json.valuesOfEntries_eq_map, List.map_map]
    refine congrArg _ (List.map_congr_left fun e member => ?_)
    exact congrArg _ (ih e member)

/-- A value without callables, NaN and infinities comes back from its JSON form as it was, but for
the sign of zeros; and whatever the value, what comes back has the same JSON form again. -/
theorem json_round_trip :
    (∀ v : Value, v.HasJsonForm → EqualInOrder v.toJson.toValue v) ∧
      ∀ v : Value, v.toJson.toValue.toJson = v.toJson :=
  ⟨toValue_toJson, toJson_toValue_toJson⟩

/-- On either side of the largest numbers that are written as integers, and with a zero that loses its
sign. -/
theorem json_round_trip_of_minus_zero :
    let v : Value := .mapping [("z", .array [.number (.ofMagnitude true 0), .string "\n"]),
      ("a", .array [.number (.ofNat (2 ^ 53 - 1)), .number (.ofNat (2 ^ 53))])]
    v.HasJsonForm ∧ EqualInOrder v.toJson.toValue v ∧ v.toJson.toValue.toJson = v.toJson := by
  intro v
  have zero : (Number.ofMagnitude true 0).IsFinite := ⟨0, -1074, by decide +kernel⟩
  have largest : (Number.ofNat (2 ^ 53 - 1)).IsFinite := ⟨2 ^ 53 - 1, 0, by decide +kernel⟩
  have next : (Number.ofNat (2 ^ 53)).IsFinite := ⟨2 ^ 52, 1, by decide +kernel⟩
  have form : v.HasJsonForm := by
    simp only [v, hasJsonForm_mapping, List.forall_mem_cons, hasJsonForm_array, hasJsonForm_number]
    exact ⟨⟨zero, everywhere_iff.2 ⟨trivial, trivial⟩, nofun⟩, ⟨largest, next, nofun⟩, nofun⟩
  exact ⟨form, json_round_trip.1 v form, json_round_trip.2 v⟩

end Value
end Stencil
