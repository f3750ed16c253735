import Stencil.Filter.Apply
import Stencil.Proofs.Value.Order

/-! Sorting puts items, and entries by their values, into natural order. Nothing is lost, and what
is equal in that order stays as it stood, so sorting again changes nothing. -/
namespace Stencil

namespace Value

variable {α : Type} {value : α → Value} {xs ys : List α} {a b c : Value}

theorem naturalAtMost_iff : naturalAtMost a b = true ↔ a.naturalOrder b ≠ .gt := bne_iff_ne

theorem naturalAtMost_trans (ab : naturalAtMost a b = true) (bc : naturalAtMost b c = true) :
    naturalAtMost a c = true := by
  rw [naturalAtMost_iff, ← isLE_naturalOrder_iff] at ab bc ⊢
  exact Std.TransCmp.isLE_trans ab bc

theorem naturalAtMost_total (a b : Value) : (naturalAtMost a b || naturalAtMost b a) = true := by
  have swaps : a.naturalOrder b = (b.naturalOrder a).swap := Std.OrientedCmp.eq_swap
  rw [Bool.or_eq_true, naturalAtMost_iff, naturalAtMost_iff, swaps]
  cases b.naturalOrder a <;> decide

/-- Values that are equal to one value are allowed in any order. -/
theorem naturalAtMost_of_eq (ab : a.naturalOrder b = .eq) (ac : a.naturalOrder c = .eq) :
    naturalAtMost b c = true := by
  have same : b.naturalOrder c = .eq := (Std.TransCmp.congr_left ab).symm.trans ac
  rw [naturalAtMost_iff, same]
  decide

/-- `ys` has what `xs` has, in the natural order of the values; of what has equal values, each
stands where it stood among the others. -/
structure Arranges (value : α → Value) (xs ys : List α) : Prop where
  perm : ys.Perm xs
  ordered : ys.Pairwise fun x y => (value x).naturalOrder (value y) ≠ .gt
  stable : ∀ v : Value, (ys.filter fun x => v.naturalOrder (value x) == .eq) =
    xs.filter fun x => v.naturalOrder (value x) == .eq

theorem arranges_arrange (value : α → Value) (xs : List α) :
    Arranges value xs (arrange value xs) := by
  have trans (x y z : α) : naturalAtMost (value x) (value y) = true →
      naturalAtMost (value y) (value z) = true → naturalAtMost (value x) (value z) = true :=
    naturalAtMost_trans
  have total (x y : α) := naturalAtMost_total (value x) (value y)
  have perm : (arrange value xs).Perm xs := List.mergeSort_perm _ _
  refine ⟨perm, ?_, fun v => ?_⟩
  · exact (List.pairwise_mergeSort trans total xs).imp naturalAtMost_iff.1
  · -- Equal ones are in order already, so they are found again one behind the other.
    let equal (x : α) : Bool := v.naturalOrder (value x) == .eq
    have inOrder : (xs.filter equal).Pairwise fun x y => naturalAtMost (value x) (value y) = true :=
      List.pairwise_of_forall_mem_list fun x inX y inY => naturalAtMost_of_eq
        (eq_of_beq (List.mem_filter.1 inX).2) (eq_of_beq (List.mem_filter.1 inY).2)
    have kept : (xs.filter equal).Sublist ((arrange value xs).filter equal) := by
      simpa [arrange] using
        (List.sublist_mergeSort trans total inOrder List.filter_sublist).filter equal
    exact (kept.eq_of_length (perm.filter equal).length_eq.symm).symm

theorem Arranges.arrange_eq (arranged : Arranges value xs ys) : arrange value ys = ys :=
  List.mergeSort_of_pairwise (arranged.ordered.imp naturalAtMost_iff.2)

end Value

/-- The entries in order make up a mapping again, since no key comes twice. -/
theorem Value.sort_mapping {entries : Dict Value} (distinct : Dict.Distinct entries) :
    sort (.mapping entries) = .ok (.mapping (arrange Prod.snd entries)) := by
  rw [sort, Dict.ofList_of_distinct (distinct.perm (arranges_arrange _ _).perm.symm)]

namespace Filter

open Value (Arranges arranges_arrange)

theorem apply_sort (v : Value) (args : List Value) (config : Config) (now : Instant) :
    apply .sort v args config now = v.sort := rfl

/-- Sorting arranges the items of an array and the entries of a mapping, and leaves alone what it
has arranged. -/
theorem sort_arranges (args : List Value) (config : Config) (now : Instant) :
    (∀ items, ∃ sorted,
      apply .sort (.array items) args config now = .ok (.array sorted) ∧
        Arranges id items sorted ∧
        apply .sort (.array sorted) args config now = .ok (.array sorted)) ∧
      ∀ entries, Dict.Distinct entries → ∃ sorted,
        apply .sort (.mapping entries) args config now = .ok (.mapping sorted) ∧
          Arranges Prod.snd entries sorted ∧
          apply .sort (.mapping sorted) args config now = .ok (.mapping sorted) := by
  constructor
  · intro items
    have arranged := arranges_arrange id items
    refine ⟨_, rfl, arranged, ?_⟩
    rw [apply_sort, Value.sort, arranged.arrange_eq]
  · intro entries distinct
    have arranged := arranges_arrange Prod.snd entries
    refine ⟨_, Value.sort_mapping distinct, arranged, ?_⟩
    rw [apply_sort, Value.sort_mapping (distinct.perm arranged.perm.symm), arranged.arrange_eq]

/-- One and the text of one are equal, so they stay as they stand, and NaN goes behind them. -/
theorem sort_arranges_of_equal_values :
    let one : String × Value := ("b", .number (.ofNat 1))
    let text : String × Value := ("a", .string "1.0")
    ∃ sorted, apply .sort (.mapping [("c", .number .nan), one, text]) [] {} ⟨0, 0⟩ =
        .ok (.mapping sorted) ∧
      (sorted.filter fun e => one.2.naturalOrder e.2 == .eq) = [one, text] ∧
      apply .sort (.mapping sorted) [] {} ⟨0, 0⟩ = .ok (.mapping sorted) := by
  intro one text
  have distinct : Dict.Distinct [("c", Value.number .nan), one, text] := by
    simp [Dict.Distinct, Dict.keys, one, text]
  obtain ⟨sorted, done, arranged, again⟩ := (sort_arranges [] {} ⟨0, 0⟩).2 _ distinct
  refine ⟨sorted, done, ?_, again⟩
  rw [arranged.stable]
  rfl

end Filter
end Stencil
