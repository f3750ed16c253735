import Mathlib.Data.String.Basic
import Stencil.Value.Compare

/-! Natural order is a total preorder of all values. Numbers have a rank among the integers, which
gives NaN the last place, and what is ordered by its text comes after them. -/
namespace Stencil

namespace Number

variable {a b : Number}

/-- The place of a number in a total order: NaN comes last. -/
def rank (n : Number) : Int := if n.isUnordered then infinityMagnitude + 1 else n.key

theorem rank_of_unordered (nan : a.isUnordered = true) : a.rank = infinityMagnitude + 1 := by
  rw [rank, if_pos nan]

theorem rank_of_ordered (ordered : a.isUnordered = false) : a.rank = a.key := by
  rw [rank, ordered]
  rfl

theorem key_le (ordered : a.isUnordered = false) : a.key ≤ infinityMagnitude := by
  have bound : a.magnitude ≤ infinityMagnitude := by simpa [isUnordered] using ordered
  unfold key
  split <;> omega

theorem rank_lt_rank (ordered : a.isUnordered = false) (nan : b.isUnordered = true) :
    a.rank < b.rank := by
  have bound := key_le ordered
  rw [rank_of_ordered ordered, rank_of_unordered nan]
  omega

end Number

namespace Value

namespace SortKey

theorem order_numeric (a b : Number) : order (.numeric a) (.numeric b) = compare a.rank b.rank := by
  unfold order Number.compare?
  cases left : a.isUnordered <;> cases right : b.isUnordered <;> simp only [left, right]
  · rw [Number.rank_of_ordered left, Number.rank_of_ordered right]
    rfl
  · exact (compare_lt_iff_lt.2 (Number.rank_lt_rank left right)).symm
  · exact (compare_gt_iff_gt.2 (Number.rank_lt_rank right left)).symm
  · rw [Number.rank_of_unordered left, Number.rank_of_unordered right]
    exact (compare_eq_iff_eq.2 rfl).symm

theorem order_text (s t : String) : order (.text s) (.text t) = compare s t := rfl

instance : Std.TransCmp order where
  eq_swap {a b} := by
    cases a <;> cases b
    case numeric.numeric =>
      rw [order_numeric, order_numeric]
      exact Std.OrientedCmp.eq_swap
    case text.text =>
      rw [order_text, order_text]
      exact Std.OrientedCmp.eq_swap
    all_goals rfl
  isLE_trans {a b c} ab bc := by
    cases a <;> cases b <;> cases c
    case numeric.numeric.numeric =>
      rw [order_numeric] at ab bc ⊢
      exact Std.TransCmp.isLE_trans ab bc
    case text.text.text =>
      rw [order_text] at ab bc ⊢
      exact Std.TransCmp.isLE_trans ab bc
    -- A text does not come before a number.
    case text.numeric.numeric | text.numeric.text => cases ab
    case numeric.text.numeric | text.text.numeric => cases bc
    all_goals rfl

theorem order_nan {a b : Number} (nan : a.isUnordered = true) (ordered : b.isUnordered = false) :
    order (.numeric a) (.numeric b) = .gt := by
  rw [order_numeric]
  exact compare_gt_iff_gt.2 (Number.rank_lt_rank ordered nan)

end SortKey

instance : Std.TransCmp naturalOrder where
  eq_swap := by
    unfold naturalOrder
    exact Std.OrientedCmp.eq_swap
  isLE_trans := by
    unfold naturalOrder
    exact Std.TransCmp.isLE_trans

theorem isLE_naturalOrder_iff {a b : Value} :
    (a.naturalOrder b).isLE = true ↔ a.naturalOrder b ≠ .gt := Ordering.isLE_iff_ne_gt

/-- Null, booleans, numbers, and the strings that write a number. -/
def IsNumeric : Value → Prop
  | .null | .bool _ | .number _ => True
  | .string s => (Number.ofText? s.toList).isSome
  | .array _ | .mapping _ | .callable _ => False

theorem isNumeric_iff {v : Value} : v.IsNumeric ↔ ∃ n, v.sortKey = .numeric n := by
  cases v with
  | string s => cases read : Number.ofText? s.toList <;> simp [IsNumeric, sortKey, read]
  | _ => simp [IsNumeric, sortKey]

/-- Natural order compares every two values, one way round as the other, and it is transitive; equal
values stand in the same order to all others. Numbers come before texts, and NaN after the other
numbers. -/
theorem naturalOrder_preorder :
    (∀ a : Value, a.naturalOrder a = .eq) ∧
      (∀ a b : Value, a.naturalOrder b = (b.naturalOrder a).swap) ∧
      (∀ a b c : Value, a.naturalOrder b ≠ .gt → b.naturalOrder c ≠ .gt → a.naturalOrder c ≠ .gt) ∧
      (∀ a b : Value, a.naturalOrder b = .eq →
        ∀ c, a.naturalOrder c = b.naturalOrder c ∧ c.naturalOrder a = c.naturalOrder b) ∧
      (∀ (a b : Value) (s : String), a.IsNumeric → b.sortKey = .text s → a.naturalOrder b = .lt) ∧
      (∀ (a b : Value) (n m : Number), a.sortKey = .numeric n → n.isUnordered = true →
        b.sortKey = .numeric m → m.isUnordered = false → a.naturalOrder b = .gt) := by
  refine ⟨fun a => Std.ReflCmp.compare_self, fun a b => Std.OrientedCmp.eq_swap, ?_, ?_, ?_, ?_⟩
  · intro a b c ab bc
    rw [← isLE_naturalOrder_iff] at ab bc ⊢
    exact Std.TransCmp.isLE_trans ab bc
  · intro a b same c
    exact ⟨Std.TransCmp.congr_left same, Std.TransCmp.congr_right same⟩
  · intro a b s numeric text
    obtain ⟨n, number⟩ := isNumeric_iff.1 numeric
    rw [naturalOrder, number, text]
    rfl
  · intro a b n m left nan right ordered
    rw [naturalOrder, left, right]
    exact SortKey.order_nan nan ordered

/-- NaN stands between the other numbers and the texts. -/
theorem naturalOrder_preorder_of_nan :
    let nan : Value := .number .nan
    nan.naturalOrder (.string "1e3") = .gt ∧ nan.naturalOrder (.string "x") = .lt ∧
      (Value.string "1e3").naturalOrder (.string "x") ≠ .gt ∧
      (Value.string "0").naturalOrder nan = Value.null.naturalOrder nan := by
  intro nan
  obtain ⟨-, swaps, transitive, congruent, texts_last, nan_last⟩ := naturalOrder_preorder
  have above : nan.naturalOrder (.string "1e3") = .gt :=
    nan_last nan (.string "1e3") .nan (.ofNat 1000) rfl (by decide) rfl (by decide)
  have below : nan.naturalOrder (.string "x") = .lt := texts_last nan (.string "x") "x" trivial rfl
  refine ⟨above, below, transitive _ nan _ ?_ ?_, (congruent (.string "0") .null rfl nan).1⟩
  · rw [swaps, above]
    decide
  · rw [below]
    decide

end Value
end Stencil
