import Stencil.Filter.Apply
import Stencil.Proofs.Number.Natural
import Stencil.Proofs.Value.Json

/-! The JSON text of values, and which whole numbers are written with a decimal point in it. -/
namespace Stencil

namespace Number

variable {n : Number} {m : Nat} {q : Int} {d : Decimal}

theorem point_notMem_toDigits (k : Nat) : '.' ∉ Nat.toDigits 10 k := fun member =>
  absurd (Nat.isDigit_of_mem_toDigits (by decide) (by decide) member) (by decide)

/-- Without an exponent there is always a decimal point, and with one there is if there are two digits. -/
theorem mem_json_decimal : '.' ∈ (Layout.json.decimal d).toList ↔
    Layout.json.isPlain d.point = true ∨ 1 < d.digits.length := by
  have no_point (k : Nat) : '.' ∉ d.digits.take k :=
    mt List.mem_of_mem_take (point_notMem_toDigits d.coefficient)
  simp only [Layout.decimal]
  by_cases plain : Layout.json.isPlain d.point = true
  · rw [if_pos plain]
    refine iff_of_true ?_ (.inl plain)
    split
    · simp [Layout.json]
    · split <;> simp
  · have more : (d.digits.drop 1).isEmpty = false ↔ 1 < d.digits.length := by
      rw [List.isEmpty_eq_false_iff, ne_eq, List.drop_eq_nil_iff, not_le]
    rw [if_neg plain, or_iff_right plain, ← more]
    cases (d.digits.drop 1).isEmpty
    · simp
    · have sign (p : Prop) [Decidable p] : '.' ∉ (if p then Layout.json.plus else "-").toList := by
        split <;> simp [Layout.json]
      simp [no_point, point_notMem_toDigits, sign]

/-- `1e16` -/
def exponentStart : Number := (Decimal.mk 1 16).toNumber false

theorem absolute_exponentStart : exponentStart.absolute = .finite (5 * 10 ^ 15) 1 := by
  decide +kernel

/-- Whole numbers from `2 ^ 53` on are written without an exponent below `10 ^ 16`. -/
theorem json_isPlain_iff {k : Nat} (fields : n.absolute = .finite m q) (positive : 0 < m)
    (exact : (k : ℚ) = m * 2 ^ q) (large : 2 ^ 53 ≤ k) :
    Layout.json.isPlain (shortest .even m q).point = true ↔ k < 10 ^ 16 := by
  have stop : 16 < (shortest .even m q).point ↔ exponentStart.magnitude ≤ n.magnitude := by
    apply lt_point_shortest_iff fields positive absolute_exponentStart
    · norm_num [lowQuarters, exponentBit]
    · norm_num
    · decide +kernel
  have start : 0 < (shortest .even m q).point := by
    have near : Near m q (shortest .even m q).value := near_shortest positive
    have bound := (Decimal.value_bounds (Decimal.coefficient_pos_of_value (near.pos positive))).2
    have one_lt : (10 : ℚ) ^ (0 : Int) < 10 ^ (shortest .even m q).point := by
      have wide := le_lowQuarters m q
      have quarter : (0 : ℚ) < 2 ^ (q - 2) := by positivity
      have some_quarters : (1 : ℚ) ≤ m := by exact_mod_cast positive
      have value : (2 ^ 53 : ℚ) ≤ k := by exact_mod_cast large
      rw [exact, zpow_eq_quarters q] at value
      have low := near.1
      rw [zpow_zero]
      nlinarith
    exact (zpow_lt_zpow_iff_right₀ (by norm_num)).1 one_lt
  have below : -5 < (shortest .even m q).point := by omega
  have value : n.magnitude < exponentStart.magnitude ↔ k < 10 ^ 16 := by
    rw [magnitude_lt_iff fields absolute_exponentStart, ← exact]
    have whole : (((5 * 10 ^ 15 : Nat) : ℚ) * 2 ^ (1 : Int)) = ((10 ^ 16 : Nat) : ℚ) := by norm_num
    rw [whole, Nat.cast_lt]
  rw [← value, ← not_le, ← stop]
  simp [Layout.json, below]

end Number

namespace Json

variable {n : Number} {k : Int}

theorem point_notMem_integerText (k : Int) : '.' ∉ (integerText k).toList := by
  unfold integerText
  split <;> simp [Nat.toList_repr, Number.point_notMem_toDigits]

/-- A whole number is written with a decimal point from `2 ^ 53` up to below `10 ^ 16`, and then again
unless a single digit is read as the number. -/
theorem mem_text_ofNumber_iff (integer : n.integer? = some k) :
    '.' ∈ (ofNumber n).text.toList ↔ 2 ^ 53 ≤ k.natAbs ∧ (k.natAbs < 10 ^ 16 ∨
      ∀ d : Decimal, d.toNumber n.isNegative = n → 1 < d.digits.length) := by
  obtain ⟨m, q, fields, exact, -⟩ := Number.integer?_eq_some_iff.1 integer
  by_cases small : k.natAbs < 2 ^ 53
  · rw [ofNumber_of_integer integer small, text]
    exact iff_of_false (point_notMem_integerText k) (by omega)
  have large : 2 ^ 53 ≤ k.natAbs := not_lt.1 small
  have positive : 0 < m := by
    refine Nat.pos_of_ne_zero fun zero => ?_
    rw [zero, Nat.cast_zero, zero_mul, Nat.cast_eq_zero] at exact
    omega
  have form : ofNumber n = .decimal n := by
    simp only [ofNumber, fields, integer]
    exact if_neg small
  have written : Number.Layout.json.write n =
      (if n.isNegative then "-" else "") ++ Number.Layout.json.decimal (Number.shortest .even m q) := by
    simp [Number.Layout.write, fields, Nat.ne_of_gt positive, Number.Layout.json]
  have sign : '.' ∉ (if n.isNegative then "-" else "").toList := by
    cases n.isNegative <;> simp
  have fewest : 1 < (Number.shortest .even m q).digits.length ↔
      ∀ d : Decimal, d.toNumber n.isNegative = n → 1 < d.digits.length := by
    constructor
    · intro two d reads
      exact two.trans_le
        (Number.length_shortest_le fields positive ((Decimal.toNumber_eq_iff fields positive).1 reads))
    · intro all
      exact all _ ((Decimal.toNumber_eq_iff fields positive).2 (Number.near_shortest positive))
  rw [form, text, written, String.toList_append, List.mem_append, or_iff_right sign,
    Number.mem_json_decimal, Number.json_isPlain_iff fields positive exact large, fewest, and_iff_right large]

variable {ns : List Number} {t : String}

theorem textsOfItems_eq_map (js : List Json) : textsOfItems js = js.map text := by
  induction js with
  | nil => rfl
  | cons j js ih => simp [textsOfItems, ih]

theorem textsOfEntries_eq_map (es : List (String × Json)) :
    textsOfEntries es = es.map fun e => quoted e.1 ++ ":" ++ text e.2 := by
  induction es with
  | nil => rfl
  | cons e es ih => simp [textsOfEntries, ih]

/-- The text holds the JSON texts of the numbers one behind the other, with other text between them. -/
inductive Interleaves : List Number → String → Prop
  | text (t : String) : Interleaves [] t
  | number (n : Number) : Interleaves [n] (ofNumber n).text
  | append {ns ms : List Number} {t u : String} (first : Interleaves ns t)
      (second : Interleaves ms u) : Interleaves (ns ++ ms) (t ++ u)

theorem Interleaves.behind (interleaves : Interleaves ns t) (front : String) :
    Interleaves ns (front ++ t) :=
  .append (.text front) interleaves

theorem Interleaves.before (interleaves : Interleaves ns t) (behind : String) :
    Interleaves ns (t ++ behind) := by
  simpa using interleaves.append (.text behind)

theorem Interleaves.join {parts : List (List Number)} {texts : List String} (separator : String)
    (each : List.Forall₂ Interleaves parts texts) :
    Interleaves parts.flatten (Text.join separator texts) := by
  cases each with
  | nil => exact .text ""
  | @cons ns t parts texts first others =>
    -- What is joined already grows from the left.
    suffices all : Interleaves (ns ++ parts.flatten)
        (texts.foldl (fun text next => text ++ separator ++ next) t) from all
    induction others generalizing ns t with
    | nil => simpa using first
    | @cons ms u _ _ next _ ih =>
      have longer := ih ((first.before separator).append next)
      simpa using longer

end Json

namespace Value

mutual

/-- The numbers of a value at every depth, in the order in which it holds them. -/
def numbers : Value → List Number
  | .number n => [n]
  | .array items => numbersOfItems items
  | .mapping entries => numbersOfEntries entries
  | _ => []

def numbersOfItems : List Value → List Number
  | [] => []
  | v :: vs => numbers v ++ numbersOfItems vs

def numbersOfEntries : List (String × Value) → List Number
  | [] => []
  | (_, v) :: es => numbers v ++ numbersOfEntries es

end

theorem numbersOfItems_eq_flatten (vs : List Value) :
    numbersOfItems vs = (vs.map numbers).flatten := by
  induction vs with
  | nil => rfl
  | cons v vs ih => simp [numbersOfItems, ih]

theorem numbersOfEntries_eq_flatten (es : List (String × Value)) :
    numbersOfEntries es = (es.map fun e => numbers e.2).flatten := by
  induction es with
  | nil => rfl
  | cons e es ih => simp [numbersOfEntries, ih]

/-- Every number of a value is written, at whatever depth, and in its order. -/
theorem toJson_interleaves (v : Value) : Json.Interleaves v.numbers v.toJson.text := by
  induction v with
  | null | callable => exact .text "null"
  | bool b => exact .text _
  | string s => exact .text _
  | number n => exact .number n
  | array items ih =>
    rw [toJson, Json.text, jsonOfItems_eq_map, Json.textsOfItems_eq_map, numbers,
      numbersOfItems_eq_flatten, List.map_map]
    refine ((Json.Interleaves.join "," ?_).behind "[").before "]"
    exact List.forall₂_map_left_iff.2 (List.forall₂_map_right_iff.2 (List.forall₂_same.2 ih))
  | mapping entries ih =>
    rw [toJson, Json.text, jsonOfEntries_eq_map, Json.textsOfEntries_eq_map, numbers,
      numbersOfEntries_eq_flatten, List.map_map]
    refine ((Json.Interleaves.join "," ?_).behind "\x7b").before "\x7d"
    refine List.forall₂_map_left_iff.2 (List.forall₂_map_right_iff.2 (List.forall₂_same.2 ?_))
    exact fun e member => (ih e member).behind (Json.quoted e.1 ++ ":")

/-- The text that `json_encode` gives for a value holds the texts of its numbers, in their order. A
number that is whole is written with a decimal point from `2 ^ 53` up to below `10 ^ 16`, and then again
unless a single digit is read as the number. -/
theorem jsonEncode_decimal_points (v : Value) (args : List Value) (config : Config) (now : Instant) :
    ∃ t, Filter.applyNamed "json_encode" v args config now = .ok (.string t) ∧
      Json.Interleaves v.numbers t ∧
      ∀ n ∈ v.numbers, ∀ k, n.integer? = some k →
        ('.' ∈ (Json.ofNumber n).text.toList ↔ 2 ^ 53 ≤ k.natAbs ∧ (k.natAbs < 10 ^ 16 ∨
          ∀ d : Decimal, d.toNumber n.isNegative = n → 1 < d.digits.length)) :=
  ⟨v.toJson.text, rfl, v.toJson_interleaves, fun _ _ _ => Json.mem_text_ofNumber_iff⟩

/-- The largest whole number without a point and the first with one, inside a mapping. -/
theorem jsonEncode_decimal_points_around_limit :
    let n : Number := .ofNat (2 ^ 53 - 1)
    let n' : Number := .ofNat (2 ^ 53)
    let v : Value := .mapping [("a", .array [.number n]), ("b", .number n')]
    v.numbers = [n, n'] ∧ '.' ∉ (Json.ofNumber n).text.toList ∧
      '.' ∈ (Json.ofNumber n').text.toList := by
  intro n n' v
  obtain ⟨t, -, -, points⟩ := jsonEncode_decimal_points v [] {} ⟨0, 0⟩
  have members : v.numbers = [n, n'] := rfl
  have first : n.integer? = some (2 ^ 53 - 1) := by decide +kernel
  have second : n'.integer? = some (2 ^ 53) := by decide +kernel
  rw [members] at points
  refine ⟨members, ?_, (points n' (by simp) _ second).2 ⟨by decide, .inl (by decide)⟩⟩
  intro member
  exact absurd ((points n (by simp) _ first).1 member).1 (by decide)

/-- The number `2 ^ 53` is whole, and it is written with a fraction. -/
theorem jsonEncode_of_two_pow_53 :
    (Number.ofNat (2 ^ 53)).integer? = some (2 ^ 53) ∧
      Filter.applyNamed "json_encode" (.number (.ofNat (2 ^ 53))) [] {} ⟨0, 0⟩ =
        .ok (.string "9007199254740992.0") := by
  have written : (Json.ofNumber (.ofNat (2 ^ 53))).text = "9007199254740992.0" := by decide +kernel
  refine ⟨by decide +kernel, ?_⟩
  exact congrArg (fun t => Except.ok (string t)) written

end Value
end Stencil
