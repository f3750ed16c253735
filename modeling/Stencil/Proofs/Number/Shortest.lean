import Stencil.Number.Shortest
import Stencil.Proofs.Number.Rounding

/-! The shortest digits of a number stand for a rational that is rounded to it. -/
namespace Stencil

/-- What the decimal stands for. -/
def Decimal.value (d : Decimal) : ℚ := d.coefficient * 10 ^ d.exponent

namespace Number

variable {m : Nat} {q : Int} {tie : Tie} {grid : Int} {c : Nat}

theorem interval_low (m : Nat) (q : Int) :
    (interval m q).low = lowQuarters m q * power 2 (q - 2) := by
  simp only [interval, lowQuarters, Bool.and_eq_true, decide_eq_true_eq]
  split <;> rfl

/-- How much finer the common grid of naturals is than the rationals. -/
def fineness (q grid : Int) : ℚ := power 2 (2 - q) * power 10 (-grid)

theorem fineness_pos (q grid : Int) : 0 < fineness q grid := by
  have unit : 0 < power 2 (2 - q) := power_pos (by norm_num) _
  have scale : 0 < power 10 (-grid) := power_pos (by norm_num) _
  unfold fineness
  positivity

theorem quarters_scaled (k : Nat) (q grid : Int) :
    ((k * power 2 (q - 2) * power 10 (-grid) : Nat) : ℚ) = k * 2 ^ (q - 2) * fineness q grid := by
  have unit : (0 : ℚ) < power 2 (2 - q) := by exact_mod_cast power_pos (by norm_num) _
  have grid := power_div_power 2 (by norm_num) (q - 2)
  rw [neg_sub, div_eq_iff unit.ne'] at grid
  push_cast at grid ⊢
  rw [fineness, grid]
  ring

theorem point_scaled (c : Nat) (q grid : Int) :
    ((c * power 10 grid * power 2 (2 - q) : Nat) : ℚ) = c * 10 ^ grid * fineness q grid := by
  have scale : (0 : ℚ) < power 10 (-grid) := by exact_mod_cast power_pos (by norm_num) _
  have grid := power_div_power 10 (by norm_num) grid
  rw [div_eq_iff scale.ne'] at grid
  push_cast at grid ⊢
  rw [fineness, grid]
  ring

theorem holds_iff :
    (interval m q).holds grid c = true ↔
      (if m % 2 = 0 then
        lowQuarters m q * 2 ^ (q - 2) ≤ (c * 10 ^ grid : ℚ) ∧
          (c * 10 ^ grid : ℚ) ≤ (4 * m + 2) * 2 ^ (q - 2)
      else
        lowQuarters m q * 2 ^ (q - 2) < (c * 10 ^ grid : ℚ) ∧
          (c * 10 ^ grid : ℚ) < (4 * m + 2) * 2 ^ (q - 2)) := by
  have fine := fineness_pos q grid
  have low := quarters_scaled (lowQuarters m q) q grid
  have high := quarters_scaled (4 * m + 2) q grid
  have point := point_scaled c q grid
  have closed : (interval m q).closed = (m % 2 == 0) := rfl
  have above : (interval m q).high = (4 * m + 2) * power 2 (q - 2) := rfl
  have unit : (interval m q).unit = power 2 (2 - q) := rfl
  simp only [Interval.holds, interval_low, closed, above, unit, beq_iff_eq]
  split
  · rw [Bool.and_eq_true, decide_eq_true_eq, decide_eq_true_eq, ← Nat.cast_le (α := ℚ),
      ← Nat.cast_le (α := ℚ), low, high, point, mul_le_mul_iff_left₀ fine, mul_le_mul_iff_left₀ fine]
    push_cast
    rfl
  · rw [Bool.and_eq_true, decide_eq_true_eq, decide_eq_true_eq, ← Nat.cast_lt (α := ℚ),
      ← Nat.cast_lt (α := ℚ), low, high, point, mul_lt_mul_iff_left₀ fine, mul_lt_mul_iff_left₀ fine]
    push_cast
    rfl

theorem near_of_holds (holds : (interval m q).holds grid c = true) : Near m q (c * 10 ^ grid) := by
  have ends := holds_iff.1 holds
  split at ends
  · next even => exact ⟨ends.1, ends.2, .inl even⟩
  · exact ⟨ends.1.le, ends.2.le, .inr ends⟩

theorem holds_of_choice {i : Interval} {a b : Nat} {none : Prop} [Decidable none]
    (chosen : (if none then Option.none else if i.holds grid a then some a
      else if i.holds grid b then some b else Option.none) = some c) : i.holds grid c = true := by
  split at chosen
  · cases chosen
  split at chosen
  · next holds =>
    cases chosen
    exact holds
  split at chosen
  · next holds =>
    cases chosen
    exact holds
  · cases chosen

theorem holds_of_hit? {i : Interval} (hit : i.hit? tie grid = some c) : i.holds grid c = true :=
  holds_of_choice hit

theorem near_exact (hm : 0 < m) : Near m q (m * 2 ^ q) := by
  have split : q = 2 + (q - 2) := by ring
  have whole : (m : ℚ) * 2 ^ q = 4 * m * 2 ^ (q - 2) := by
    conv_lhs => rw [split, zpow_add₀ (by norm_num)]
    ring
  have quarter : (0 : ℚ) < 2 ^ (q - 2) := by positivity
  have below : (lowQuarters m q : ℚ) + 1 ≤ 4 * m := by
    have cast : lowQuarters m q + 1 ≤ 4 * m := by
      rcases lowQuarters_cases m q with ⟨same, -⟩ | ⟨same, -⟩ <;> omega
    exact_mod_cast cast
  have low : lowQuarters m q * 2 ^ (q - 2) < (m : ℚ) * 2 ^ q := by
    rw [whole]
    nlinarith
  have high : (m : ℚ) * 2 ^ q < (4 * m + 2) * 2 ^ (q - 2) := by
    rw [whole]
    nlinarith
  exact ⟨low.le, high.le, .inr ⟨low, high⟩⟩

theorem exactDecimal_value (m : Nat) (q : Int) : (exactDecimal m q).value = m * 2 ^ q := by
  unfold exactDecimal Decimal.value
  obtain ⟨k, rfl | rfl⟩ := q.eq_nat_or_neg
  · have none : (-(k : Int)).toNat = 0 := by omega
    simp [power, none]
  · have none : (-(k : Int)).toNat = 0 := by omega
    have least : min (-(k : Int)) 0 = -k := by omega
    have ten : (10 : ℚ) ^ k = 5 ^ k * 2 ^ k := by rw [← mul_pow]; norm_num
    simp only [power, none, neg_neg, Int.toNat_natCast, least, zpow_neg, zpow_natCast]
    rw [ten, Nat.pow_eq, Nat.pow_eq]
    push_cast
    field_simp

theorem stripZeros_value (fuel : Nat) (d : Decimal) : (stripZeros fuel d).value = d.value := by
  induction fuel generalizing d with
  | zero => rfl
  | succ fuel ih =>
    rw [stripZeros]
    split
    · next zero =>
      rw [ih]
      have whole : d.coefficient = 10 * (d.coefficient / 10) := by omega
      have cast : (d.coefficient : ℚ) = 10 * (d.coefficient / 10 : Nat) := by exact_mod_cast whole
      rw [Decimal.value, Decimal.value, cast, zpow_add₀ (by norm_num), zpow_one]
      ring
    · rfl

theorem near_shortest (hm : 0 < m) : Near m q (shortest tie m q).value := by
  unfold shortest
  simp only [stripZeros_value]
  generalize search : List.findSome? _ _ = found
  cases found with
  | none =>
    rw [Option.getD_none, exactDecimal_value]
    exact near_exact hm
  | some d =>
    obtain ⟨k, -, mapped⟩ := List.exists_of_findSome?_eq_some search
    obtain ⟨c, hit, rfl⟩ := Option.map_eq_some_iff.1 mapped
    exact near_of_holds (holds_of_hit? hit)

end Number
end Stencil
