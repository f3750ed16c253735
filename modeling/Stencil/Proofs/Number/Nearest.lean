import Stencil.Proofs.Number.Interval

/-! Rounding, the other way round: only the rationals in the interval of a number are rounded to it. -/
namespace Stencil

namespace Number

variable {num den m : Nat} {q g : Int} {n : Number}

theorem roundQuotient_bounds (num : Nat) (hden : 0 < den) :
    2 * roundQuotient num den * den ≤ 2 * num + den ∧
      2 * num ≤ (2 * roundQuotient num den + 1) * den ∧
      (roundQuotient num den % 2 = 0 ∨ 2 * roundQuotient num den * den < 2 * num + den ∧
        2 * num < (2 * roundQuotient num den + 1) * den) := by
  have whole := Nat.div_add_mod num den
  have rest := Nat.mod_lt num hden
  unfold roundQuotient
  generalize num / den = k at *
  generalize num % den = l at *
  subst whole
  simp only [Bool.or_eq_true, Bool.and_eq_true, decide_eq_true_eq, beq_iff_eq]
  split
  · next up =>
    have odd : (k + 1) % 2 = 0 ∨ den < 2 * l := by omega
    have half : den ≤ 2 * l := by omega
    refine ⟨by nlinarith, by nlinarith, odd.imp_right fun strict => ⟨by nlinarith, by nlinarith⟩⟩
  · next down =>
    have even : k % 2 = 0 ∨ 2 * l < den := by omega
    have half : 2 * l ≤ den := by omega
    refine ⟨by nlinarith, by nlinarith, even.imp_right fun strict => ⟨by nlinarith, by nlinarith⟩⟩

/-- The same on a grid of powers of two, in quarters of it. -/
theorem roundQuotient_near (num : Nat) (hden : 0 < den) (g : Int) {r : Nat}
    (round : roundQuotient (num * power 2 (-g)) (den * power 2 g) = r) :
    (4 * r - 2 : ℚ) * 2 ^ (g - 2) ≤ num / den ∧ (num : ℚ) / den ≤ (4 * r + 2) * 2 ^ (g - 2) ∧
      (r % 2 = 0 ∨ (4 * r - 2 : ℚ) * 2 ^ (g - 2) < num / den ∧
        (num : ℚ) / den < (4 * r + 2) * 2 ^ (g - 2)) := by
  have up_pos : 0 < power 2 g := power_pos (by norm_num) g
  have down_pos : (0 : ℚ) < power 2 (-g) := by exact_mod_cast power_pos (by norm_num) (-g)
  have den_pos : (0 : ℚ) < den := by exact_mod_cast hden
  obtain ⟨low, high, tie⟩ := roundQuotient_bounds (num * power 2 (-g)) (Nat.mul_pos hden up_pos)
  rw [round] at low high tie
  have grid : (2 : ℚ) ^ g = power 2 g / power 2 (-g) := (power_div_power 2 (by norm_num) g).symm
  have below (x : ℚ) : (4 * x - 2) * 2 ^ (g - 2) =
      (2 * x * power 2 g - power 2 g) / (2 * power 2 (-g)) := by
    have scaled : (4 * x - 2) * 2 ^ (g - 2) = (x - 1 / 2) * 2 ^ g := by
      rw [zpow_eq_quarters g]
      ring
    rw [scaled, grid]
    field_simp
  have above (x : ℚ) : (4 * x + 2) * 2 ^ (g - 2) = (2 * x + 1) * power 2 g / (2 * power 2 (-g)) := by
    have scaled : (4 * x + 2) * 2 ^ (g - 2) = (x + 1 / 2) * 2 ^ g := by
      rw [zpow_eq_quarters g]
      ring
    rw [scaled, grid]
    field_simp
  rw [below, above, div_le_div_iff₀ (by positivity) den_pos, div_le_div_iff₀ den_pos (by positivity),
    div_lt_div_iff₀ (by positivity) den_pos, div_lt_div_iff₀ den_pos (by positivity)]
  refine ⟨?_, ?_, tie.imp_right fun ⟨low, high⟩ => ⟨?_, ?_⟩⟩
  · have cast : (2 * r * (den * power 2 g) : ℚ) ≤ 2 * (num * power 2 (-g)) + den * power 2 g := by
      exact_mod_cast low
    linarith
  · have cast : (2 * (num * power 2 (-g)) : ℚ) ≤ (2 * r + 1) * (den * power 2 g) := by
      exact_mod_cast high
    linarith
  · have cast : (2 * r * (den * power 2 g) : ℚ) < 2 * (num * power 2 (-g)) + den * power 2 g := by
      exact_mod_cast low
    linarith
  · have cast : (2 * (num * power 2 (-g)) : ℚ) < (2 * r + 1) * (den * power 2 g) := by
      exact_mod_cast high
    linarith

/-- The bits of a finite number tell the grid and the significand that were rounded to; a carry is
on the next grid. -/
theorem fields_of_magnitude {r : Nat} (finite : n.absolute = .finite m q) (low : -1074 ≤ g)
    (small : r ≤ 2 ^ 53) (normal : g = -1074 ∨ 2 ^ 52 ≤ r)
    (bits : n.magnitude = (g + 1074).toNat * 2 ^ 52 + r) :
    q = g ∧ m = r ∨ q = g + 1 ∧ m = 2 ^ 52 ∧ r = 2 ^ 53 := by
  have fields := magnitude_of_absolute finite
  rcases Nat.lt_or_ge r (2 ^ 53) with below | carry
  · left
    have same : q = g := by
      by_contra other
      rcases lt_or_gt_of_ne other with finer | coarser <;> omega
    subst same
    omega
  · have grid : q = g + 1 := by
      by_contra other
      rcases lt_or_gt_of_ne other with finer | coarser <;> omega
    subst grid
    omega

variable {r : Nat} {x : ℚ}

theorem le_of_below_carry (low : (4 * r - 2 : ℚ) * 2 ^ (g - 2) ≤ x) (top : x < 2 ^ (g + 53)) :
    r ≤ 2 ^ 53 := by
  have quarter : (0 : ℚ) < 2 ^ (g - 2) := by positivity
  have quarters : (2 : ℚ) ^ (g + 53) = 2 ^ 55 * 2 ^ (g - 2) := zpow_quarters g 53
  rw [quarters] at top
  have scaled : (4 * r - 2 : ℚ) < 2 ^ 55 := lt_of_mul_lt_mul_right (low.trans_lt top) quarter.le
  have cast : (r : ℚ) < 2 ^ 53 + 1 := by linarith
  have whole : r < 2 ^ 53 + 1 := by exact_mod_cast cast
  omega

theorem le_of_normal (high : x ≤ (4 * r + 2 : ℚ) * 2 ^ (g - 2)) (start : 2 ^ 54 * 2 ^ (g - 2) ≤ x) :
    2 ^ 52 ≤ r := by
  have quarter : (0 : ℚ) < 2 ^ (g - 2) := by positivity
  have scaled : (2 : ℚ) ^ 54 ≤ 4 * r + 2 := le_of_mul_le_mul_right (start.trans high) quarter
  have cast : (2 : ℚ) ^ 52 < r + 1 := by linarith
  have whole : 2 ^ 52 < r + 1 := by exact_mod_cast cast
  omega

/-- What rounds to a significand is in the interval of the number, be it the least one of its grid. -/
theorem near_of_grid (hm : 0 < m) (low : (4 * m - 2 : ℚ) * 2 ^ (q - 2) ≤ x)
    (high : x ≤ (4 * m + 2) * 2 ^ (q - 2))
    (tie : m % 2 = 0 ∨ (4 * m - 2 : ℚ) * 2 ^ (q - 2) < x ∧ x < (4 * m + 2) * 2 ^ (q - 2))
    (large : q = -1074 ∨ 2 ^ 54 * 2 ^ (q - 2) ≤ x) : Near m q x := by
  rcases lowQuarters_cases m q with ⟨same, -⟩ | ⟨same, rfl, above⟩
  · rw [Near, cast_lowQuarters hm same]
    exact ⟨low, high, tie⟩
  · have quarter : (0 : ℚ) < 2 ^ (q - 2) := by positivity
    have bound := large.resolve_left (by omega)
    have cast : (lowQuarters (2 ^ 52) q : ℚ) ≤ 2 ^ 54 := by
      exact_mod_cast (show lowQuarters (2 ^ 52) q ≤ 2 ^ 54 by omega)
    exact ⟨(mul_le_mul_of_nonneg_right cast quarter.le).trans bound, high, .inl (by norm_num)⟩

/-- A carry is the least significand of the next grid. -/
theorem near_of_carry (low : (4 * (2 ^ 53 : Nat) - 2 : ℚ) * 2 ^ (g - 2) ≤ x)
    (high : x ≤ (4 * (2 ^ 53 : Nat) + 2) * 2 ^ (g - 2)) (bottom : -1074 ≤ g) :
    Near (2 ^ 52) (g + 1) x := by
  have half : (2 : ℚ) ^ (g + 1 - 2) = 2 * 2 ^ (g - 2) := by
    have split : g + 1 - 2 = g - 1 := by ring
    rw [split, zpow_half]
  have quarter : (0 : ℚ) < 2 ^ (g - 2) := by positivity
  have edge : lowQuarters (2 ^ 52) (g + 1) = 2 ^ 54 - 1 := by
    rcases lowQuarters_cases (2 ^ 52) (g + 1) with ⟨same, inner⟩ | ⟨same, -⟩ <;> omega
  refine ⟨?_, ?_, .inl (by norm_num)⟩
  · rw [edge, half]
    push_cast at low ⊢
    linarith
  · rw [half]
    push_cast at high ⊢
    linarith

theorem near_of_nearest (finite : n.absolute = .finite m q) (hm : 0 < m) (hnum : 0 < num)
    (hden : 0 < den) (round : nearest false num den = n) : Near m q (num / den) := by
  obtain ⟨bits, low_q, high_q, fields⟩ := magnitude_of_absolute finite
  obtain ⟨log_low, log_high⟩ := floorLog_bounds hnum hden
  rw [nearest, if_neg (by omega)] at round
  simp only [exponentBit_eq] at round
  generalize grid : max (-1074) (floorLog num den - 52) = g at round
  generalize significand : roundQuotient (num * power 2 (-g)) (den * power 2 g) = r at round
  obtain ⟨low, high, tie⟩ := roundQuotient_near num hden g significand
  have small : r ≤ 2 ^ 53 :=
    le_of_below_carry low (log_high.trans_le (zpow_le_zpow_right₀ (by norm_num) (by omega)))
  have large : g = -1074 ∨ (2 : ℚ) ^ 54 * 2 ^ (g - 2) ≤ num / den := by
    rcases eq_or_ne g (-1074) with bottom | above
    · exact .inl bottom
    · right
      rw [← zpow_quarters g 52]
      exact (zpow_le_zpow_right₀ (by norm_num) (by push_cast; omega)).trans log_low
  have normal : g = -1074 ∨ 2 ^ 52 ≤ r := large.imp_right (le_of_normal high)
  have magnitude := magnitude_eq_of_ofMagnitude finite round
  rcases fields_of_magnitude finite (by omega) small normal magnitude with
    ⟨rfl, rfl⟩ | ⟨rfl, rfl, rfl⟩
  · exact near_of_grid hm low high tie large
  · exact near_of_carry low high (by omega)

theorem isNegative_nearest (negative : Bool) (num den : Nat) :
    (nearest negative num den).isNegative = negative := by
  rw [nearest_eq, isNegative_ofMagnitude]

end Number

namespace Decimal

open Number

variable {n : Number} {m : Nat} {q : Int} {d : Decimal}

/-- A decimal is read as a finite number other than zero exactly if it stands for a rational in the
interval of that number. -/
theorem toNumber_eq_iff (finite : n.absolute = .finite m q) (positive : 0 < m) :
    d.toNumber n.isNegative = n ↔ Near m q d.value := by
  refine ⟨fun read => ?_, toNumber_of_near_abs finite positive⟩
  have fields := magnitude_of_absolute finite
  unfold toNumber at read
  split at read
  · have zero := magnitude_eq_of_ofMagnitude finite read
    omega
  split at read
  · have infinite := magnitude_eq_of_ofMagnitude finite read
    rw [infinityMagnitude_eq] at infinite
    omega
  · next some_digits _ =>
    have nonzero : 0 < d.coefficient := by
      rw [Nat.pos_iff_ne_zero]
      rintro zero
      simp [zero] at some_digits
    rw [← quotient_eq_value]
    generalize num_eq : d.coefficient * power 10 d.exponent = num at *
    have hnum : 0 < num := by
      rw [← num_eq]
      exact Nat.mul_pos nonzero (power_pos (by norm_num) _)
    have hden : 0 < power 10 (-d.exponent) := power_pos (by norm_num) _
    have ordered := ordered_of_absolute finite
    have unsigned : nearest false num (power 10 (-d.exponent)) = n.abs := by
      apply eq_of_magnitude
      · rw [isNegative_nearest, isNegative_abs]
      · rw [nearest_eq] at read
        rw [magnitude_abs ordered, magnitude_eq_of_ofMagnitude finite read]
    exact near_of_nearest ((absolute_abs ordered).trans finite) positive hnum hden unsigned

end Decimal
end Stencil
