import Stencil.Number.Decimal
import Stencil.Proofs.Number.Shortest

/-! A decimal in the interval of a number is read as that number. -/
namespace Stencil.Decimal

open Number

variable {d : Decimal} {n : Number} {m : Nat} {q : Int}

theorem coefficient_bounds (positive : 0 < d.coefficient) :
    10 ^ (d.digits.length - 1) ≤ d.coefficient ∧ d.coefficient < 10 ^ d.digits.length := by
  have length : 0 < d.digits.length := Nat.length_toDigits_pos
  constructor
  · by_cases single : d.digits.length = 1
    · rw [single]
      exact positive
    · rw [← Nat.not_lt, ← Nat.length_toDigits_le_iff (b := 10) (by norm_num) (by omega)]
      change ¬ d.digits.length ≤ d.digits.length - 1
      omega
  · exact (Nat.length_toDigits_le_iff (b := 10) (by norm_num) length).1 le_rfl

theorem coefficient_pos_of_value (positive : 0 < d.value) : 0 < d.coefficient := by
  rw [Nat.pos_iff_ne_zero]
  intro zero
  simp [value, zero] at positive

/-- The decimal point tells the order of magnitude. -/
theorem value_bounds (positive : 0 < d.coefficient) :
    (10 : ℚ) ^ (d.point - 1) ≤ d.value ∧ d.value < 10 ^ d.point := by
  obtain ⟨low, high⟩ := coefficient_bounds positive
  have length : 0 < d.digits.length := Nat.length_toDigits_pos
  have unit : (0 : ℚ) < 10 ^ d.exponent := by positivity
  have before : d.point - 1 = (d.digits.length - 1 : Nat) + d.exponent := by
    unfold point
    omega
  constructor
  · rw [before, zpow_add₀ (by norm_num), zpow_natCast, value]
    apply mul_le_mul_of_nonneg_right _ unit.le
    exact_mod_cast low
  · rw [point, zpow_add₀ (by norm_num), zpow_natCast, value]
    apply mul_lt_mul_of_pos_right _ unit
    exact_mod_cast high

theorem two_pow_le_ten_pow : (2 : ℚ) ^ 1075 ≤ 10 ^ 330 := by
  calc (2 : ℚ) ^ 1075 ≤ 2 ^ (99 * 11) := pow_le_pow_right₀ (by norm_num) (by norm_num)
    _ = (2 ^ 99) ^ 11 := pow_mul 2 99 11
    _ ≤ (10 ^ 30) ^ 11 := pow_le_pow_left₀ (by norm_num) (by norm_num) 11
    _ = 10 ^ 330 := (pow_mul 10 30 11).symm

theorem two_pow_lt_ten_pow : (2 : ℚ) ^ 1024 < 10 ^ 309 := by
  calc (2 : ℚ) ^ 1024 = (2 ^ 93) ^ 11 * 2 := by rw [← pow_mul, ← pow_succ]
    _ < (10 ^ 28) ^ 11 * 10 :=
      mul_lt_mul'' (pow_lt_pow_left₀ (by norm_num) (by norm_num) (by norm_num)) (by norm_num)
        (by positivity) (by norm_num)
    _ = 10 ^ 309 := by rw [← pow_mul, ← pow_succ]

theorem near_bounds {x : ℚ} (finite : n.absolute = .finite m q) (hm : 0 < m) (near : Near m q x) :
    (10 : ℚ) ^ (-330 : Int) ≤ x ∧ x < 10 ^ (309 : Int) := by
  obtain ⟨-, low_q, high_q, fields⟩ := magnitude_of_absolute finite
  obtain ⟨low, high, -⟩ := near
  have quarter : (0 : ℚ) < 2 ^ (q - 2) := by positivity
  constructor
  · have two : (2 : ℚ) ≤ lowQuarters m q := by
      exact_mod_cast two_le_lowQuarters hm q
    have least : (10 : ℚ) ^ (-330 : Int) ≤ 2 ^ (-1075 : Int) := by
      rw [zpow_neg, zpow_neg, zpow_ofNat, zpow_ofNat]
      exact inv_anti₀ (by positivity) two_pow_le_ten_pow
    calc (10 : ℚ) ^ (-330 : Int) ≤ 2 ^ (-1075 : Int) := least
      _ ≤ 2 ^ (q - 1) := zpow_le_zpow_right₀ (by norm_num) (by omega)
      _ = 2 * 2 ^ (q - 2) := zpow_half q
      _ ≤ lowQuarters m q * 2 ^ (q - 2) := mul_le_mul_of_nonneg_right two quarter.le
      _ ≤ x := low
  · have top : (4 * m + 2 : ℚ) ≤ 2 ^ 55 := by
      have bound : 4 * m + 2 ≤ 2 ^ 55 := by omega
      exact_mod_cast bound
    calc x ≤ (4 * m + 2) * 2 ^ (q - 2) := high
      _ ≤ 2 ^ 55 * 2 ^ (q - 2) := mul_le_mul_of_nonneg_right top quarter.le
      _ = 2 ^ (q + 53) := (zpow_quarters q 53).symm
      _ ≤ 2 ^ (1024 : Int) := zpow_le_zpow_right₀ (by norm_num) (by omega)
      _ < 10 ^ (309 : Int) := by
        rw [zpow_ofNat, zpow_ofNat]
        exact two_pow_lt_ten_pow

/-- The quotient that reading a decimal rounds. -/
theorem quotient_eq_value (d : Decimal) :
    ((d.coefficient * power 10 d.exponent : Nat) : ℚ) / (power 10 (-d.exponent) : Nat) = d.value := by
  have unit := power_div_power 10 (by norm_num) d.exponent
  push_cast at unit ⊢
  rw [value, ← unit]
  ring

theorem toNumber_of_near (finite : n.absolute = .finite m q) (nonneg : n.isNegative = false)
    (hm : 0 < m) (near : Near m q d.value) : d.toNumber false = n := by
  obtain ⟨low, high⟩ := near_bounds finite hm near
  have positive := coefficient_pos_of_value (lt_of_lt_of_le (by positivity) low)
  obtain ⟨point_low, point_high⟩ := value_bounds positive
  have one_lt : (1 : ℚ) < 10 := by norm_num
  have above : -330 < d.point := (zpow_lt_zpow_iff_right₀ one_lt).1 (low.trans_lt point_high)
  have below : d.point - 1 < 309 := (zpow_lt_zpow_iff_right₀ one_lt).1 (point_low.trans_lt high)
  have no_zero : ¬ (d.coefficient = 0 || d.point < -330) := by
    simp only [Bool.or_eq_true, decide_eq_true_eq]
    omega
  rw [toNumber, if_neg no_zero, if_neg (by omega)]
  apply nearest_of_near finite nonneg (Nat.mul_pos positive (power_pos (by norm_num) _))
    (power_pos (by norm_num) _)
  rw [quotient_eq_value]
  exact near

end Stencil.Decimal
