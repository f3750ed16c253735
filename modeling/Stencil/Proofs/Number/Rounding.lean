import Stencil.Proofs.Number.Bits

/-! Rounding: every rational in the interval of a number is rounded to that number. -/
namespace Stencil.Number

variable {num den m r : Nat} {q e : Int} {x : ℚ}

theorem power_pos {base : Nat} (positive : 0 < base) (exponent : Int) : 0 < power base exponent :=
  Nat.pow_pos positive

theorem power_div_power (base : Nat) (positive : 0 < base) (exponent : Int) :
    (power base exponent : ℚ) / power base (-exponent) = (base : ℚ) ^ exponent := by
  have nonzero : (base : ℚ) ≠ 0 := by positivity
  obtain ⟨k, rfl | rfl⟩ := exponent.eq_nat_or_neg
  · have none : (-(k : Int)).toNat = 0 := by omega
    simp [power, none]
  · have none : (-(k : Int)).toNat = 0 := by omega
    simp [power, none]

theorem log2_bounds (positive : 0 < num) :
    (2 : ℚ) ^ (num.log2 : Int) ≤ num ∧ (num : ℚ) < 2 ^ ((num.log2 : Int) + 1) := by
  have low := Nat.log2_self_le (Nat.ne_of_gt positive)
  have high := Nat.lt_log2_self (n := num)
  constructor
  · rw [zpow_natCast]
    exact_mod_cast low
  · rw [← Nat.cast_succ, zpow_natCast]
    exact_mod_cast high

/-- A power lies below a quotient exactly if it does so on the common grid of naturals. -/
theorem zpow_le_div_iff (base : Nat) (positive : 0 < base) (hden : 0 < den) :
    (base : ℚ) ^ e ≤ num / den ↔ den * power base e ≤ num * power base (-e) := by
  have den_pos : (0 : ℚ) < den := by exact_mod_cast hden
  have below_pos : (0 : ℚ) < power base (-e) := by exact_mod_cast power_pos positive (-e)
  rw [← power_div_power base positive, div_le_div_iff₀ below_pos den_pos, mul_comm (power base e : ℚ)]
  exact_mod_cast Iff.rfl

theorem floorLog_bounds (hnum : 0 < num) (hden : 0 < den) :
    (2 : ℚ) ^ floorLog num den ≤ num / den ∧ (num : ℚ) / den < 2 ^ (floorLog num den + 1) := by
  have den_pos : (0 : ℚ) < den := by exact_mod_cast hden
  obtain ⟨num_low, num_high⟩ := log2_bounds hnum
  obtain ⟨den_low, den_high⟩ := log2_bounds hden
  generalize guess : (num.log2 : Int) - den.log2 = g
  have high : (num : ℚ) / den < 2 ^ (g + 1) := by
    rw [div_lt_iff₀ den_pos]
    calc (num : ℚ) < 2 ^ ((num.log2 : Int) + 1) := num_high
      _ = 2 ^ (g + 1) * 2 ^ (den.log2 : Int) := by
        rw [← zpow_add₀ (by norm_num), ← guess]
        ring_nf
      _ ≤ 2 ^ (g + 1) * den := mul_le_mul_of_nonneg_left den_low (by positivity)
  have low : (2 : ℚ) ^ (g - 1) ≤ num / den := by
    rw [le_div_iff₀ den_pos]
    calc (2 : ℚ) ^ (g - 1) * den ≤ 2 ^ (g - 1) * 2 ^ ((den.log2 : Int) + 1) :=
          mul_le_mul_of_nonneg_left den_high.le (by positivity)
      _ = 2 ^ (num.log2 : Int) := by
        rw [← zpow_add₀ (by norm_num), ← guess]
        ring_nf
      _ ≤ num := num_low
  have reaches : (2 : ℚ) ^ g ≤ num / den ↔ den * power 2 g ≤ num * power 2 (-g) :=
    zpow_le_div_iff 2 (by norm_num) hden
  unfold floorLog
  simp only [guess]
  by_cases reached : den * power 2 g ≤ num * power 2 (-g)
  · rw [if_pos reached]
    exact ⟨reaches.2 reached, high⟩
  · rw [if_neg reached, sub_add_cancel]
    exact ⟨low, lt_of_not_ge fun h => reached (reaches.1 h)⟩

theorem floorLog_eq (hnum : 0 < num) (hden : 0 < den) (low : (2 : ℚ) ^ e ≤ num / den)
    (high : (num : ℚ) / den < 2 ^ (e + 1)) : floorLog num den = e := by
  obtain ⟨floor_low, floor_high⟩ := floorLog_bounds hnum hden
  have one_lt : (1 : ℚ) < 2 := by norm_num
  have above : e < floorLog num den + 1 := (zpow_lt_zpow_iff_right₀ one_lt).1 (low.trans_lt floor_high)
  have below : floorLog num den < e + 1 := (zpow_lt_zpow_iff_right₀ one_lt).1 (floor_low.trans_lt high)
  omega

theorem floorLog_lt (hnum : 0 < num) (hden : 0 < den) (high : (num : ℚ) / den < 2 ^ e) :
    floorLog num den < e := by
  obtain ⟨floor_low, -⟩ := floorLog_bounds hnum hden
  exact (zpow_lt_zpow_iff_right₀ (by norm_num)).1 (floor_low.trans_lt high)

/-- Half-way cases go to an even number. -/
theorem roundQuotient_eq (hden : 0 < den) (low : 2 * r * den ≤ 2 * num + den)
    (high : 2 * num ≤ (2 * r + 1) * den)
    (tie : r % 2 = 0 ∨ 2 * r * den < 2 * num + den ∧ 2 * num < (2 * r + 1) * den) :
    roundQuotient num den = r := by
  have whole := Nat.div_add_mod num den
  have rest := Nat.mod_lt num hden
  unfold roundQuotient
  generalize num / den = k at *
  generalize num % den = l at *
  subst whole
  have at_least : k ≤ r := by
    by_contra above
    have next : r + 1 ≤ k := by omega
    nlinarith
  have at_most : r ≤ k + 1 := by
    by_contra above
    have next : k + 2 ≤ r := by omega
    nlinarith
  simp only [Bool.or_eq_true, Bool.and_eq_true, decide_eq_true_eq, beq_iff_eq]
  rcases Nat.lt_or_ge k r with up | down
  · obtain rfl : r = k + 1 := by omega
    have half : den ≤ 2 * l := by nlinarith
    have odd : k % 2 = 1 ∨ den < 2 * l := by
      rcases tie with even | ⟨strict, -⟩
      · left
        omega
      · right
        nlinarith
    rw [if_pos (by omega)]
  · obtain rfl : r = k := by omega
    have half : 2 * l ≤ den := by nlinarith
    have even : r % 2 = 0 ∨ 2 * l < den := by
      rcases tie with even | ⟨-, strict⟩
      · exact .inl even
      · right
        nlinarith
    rw [if_neg (by omega)]

/-- The same on a grid of powers of two. -/
theorem roundQuotient_grid (hden : 0 < den) (low : (r - 1 / 2 : ℚ) * 2 ^ e ≤ num / den)
    (high : (num : ℚ) / den ≤ (r + 1 / 2) * 2 ^ e)
    (tie : r % 2 = 0 ∨ (r - 1 / 2 : ℚ) * 2 ^ e < num / den ∧ (num : ℚ) / den < (r + 1 / 2) * 2 ^ e) :
    roundQuotient (num * power 2 (-e)) (den * power 2 e) = r := by
  have up_pos : 0 < power 2 e := power_pos (by norm_num) e
  have down_pos : (0 : ℚ) < power 2 (-e) := by exact_mod_cast power_pos (by norm_num) (-e)
  have den_pos : (0 : ℚ) < den := by exact_mod_cast hden
  have grid : (2 : ℚ) ^ e = power 2 e / power 2 (-e) := (power_div_power 2 (by norm_num) e).symm
  have below (x : ℚ) : (x - 1 / 2) * 2 ^ e = (2 * x * power 2 e - power 2 e) / (2 * power 2 (-e)) := by
    rw [grid]
    field_simp
  have above (x : ℚ) : (x + 1 / 2) * 2 ^ e = (2 * x + 1) * power 2 e / (2 * power 2 (-e)) := by
    rw [grid]
    field_simp
  rw [below, above] at tie
  rw [below, div_le_div_iff₀ (by positivity) den_pos] at low
  rw [above, div_le_div_iff₀ den_pos (by positivity)] at high
  rw [div_lt_div_iff₀ (by positivity) den_pos, div_lt_div_iff₀ den_pos (by positivity)] at tie
  apply roundQuotient_eq (Nat.mul_pos hden up_pos)
  · have cast : (2 * r * (den * power 2 e) : ℚ) ≤ 2 * (num * power 2 (-e)) + den * power 2 e := by
      linarith
    exact_mod_cast cast
  · have cast : (2 * (num * power 2 (-e)) : ℚ) ≤ (2 * r + 1) * (den * power 2 e) := by linarith
    exact_mod_cast cast
  · rcases tie with even | ⟨low, high⟩
    · exact .inl even
    · right
      constructor
      · have cast : (2 * r * (den * power 2 e) : ℚ) < 2 * (num * power 2 (-e)) + den * power 2 e := by
          linarith
        exact_mod_cast cast
      · have cast : (2 * (num * power 2 (-e)) : ℚ) < (2 * r + 1) * (den * power 2 e) := by linarith
        exact_mod_cast cast

/-- The lower end of the interval around `m · 2 ^ q`, in quarters of its grid. -/
def lowQuarters (m : Nat) (q : Int) : Nat :=
  if m = exponentBit ∧ -1074 < q then 4 * m - 1 else 4 * m - 2

/-- Is `x` in the interval of reals that are rounded to `m · 2 ^ q`? -/
def Near (m : Nat) (q : Int) (x : ℚ) : Prop :=
  lowQuarters m q * 2 ^ (q - 2) ≤ x ∧ x ≤ (4 * m + 2) * 2 ^ (q - 2) ∧
    (m % 2 = 0 ∨ lowQuarters m q * 2 ^ (q - 2) < x ∧ x < (4 * m + 2) * 2 ^ (q - 2))

theorem lowQuarters_cases (m : Nat) (q : Int) :
    lowQuarters m q = 4 * m - 2 ∧ ¬ (m = 2 ^ 52 ∧ -1074 < q) ∨
      lowQuarters m q = 4 * m - 1 ∧ m = 2 ^ 52 ∧ -1074 < q := by
  unfold lowQuarters
  split
  · next edge => exact .inr ⟨rfl, edge⟩
  · next inner => exact .inl ⟨rfl, inner⟩

theorem two_le_lowQuarters (hm : 0 < m) (q : Int) : 2 ≤ lowQuarters m q := by
  rcases lowQuarters_cases m q with ⟨same, -⟩ | ⟨same, -⟩ <;> omega

theorem le_lowQuarters (m : Nat) (q : Int) : (4 * m - 2 : ℚ) ≤ lowQuarters m q := by
  have wide : 4 * m ≤ lowQuarters m q + 2 := by
    rcases lowQuarters_cases m q with ⟨same, -⟩ | ⟨same, -⟩ <;> omega
  have cast : (4 * m : ℚ) ≤ lowQuarters m q + 2 := by exact_mod_cast wide
  linarith

theorem cast_lowQuarters (hm : 0 < m) (same : lowQuarters m q = 4 * m - 2) :
    (lowQuarters m q : ℚ) = 4 * m - 2 := by
  rw [same, Nat.cast_sub (by omega)]
  push_cast
  ring

theorem zpow_quarters (q : Int) (k : Nat) : (2 : ℚ) ^ (q + k) = 2 ^ (k + 2) * 2 ^ (q - 2) := by
  rw [← zpow_natCast, ← zpow_add₀ (by norm_num)]
  congr 1
  push_cast
  ring

theorem zpow_eq_quarters (q : Int) : (2 : ℚ) ^ q = 4 * 2 ^ (q - 2) := by
  have same := zpow_quarters q 0
  norm_num at same
  exact same

theorem zpow_half (q : Int) : (2 : ℚ) ^ (q - 1) = 2 * 2 ^ (q - 2) := by
  have split : q - 1 = 1 + (q - 2) := by ring
  rw [split, zpow_add₀ (by norm_num), zpow_one]

variable {n : Number}

theorem nearest_of_grid (finite : n.absolute = .finite m q) (nonneg : n.isNegative = false)
    (hnum : 0 < num) {g : Int} (grid : max (-1074) (floorLog num den - 52) = g)
    (round : roundQuotient (num * power 2 (-g)) (den * power 2 g) = r)
    (bits : (g + 1074).toNat * 2 ^ 52 + r = n.magnitude) : nearest false num den = n := by
  have unit : exponentBit = 2 ^ 52 := rfl
  rw [nearest, if_neg (by omega)]
  simp only [grid, round, unit, bits]
  exact ofMagnitude_magnitude finite nonneg

/-- On the grid of the number itself. -/
theorem nearest_of_near_grid (finite : n.absolute = .finite m q) (nonneg : n.isNegative = false)
    (hnum : 0 < num) (hden : 0 < den) (near : Near m q (num / den))
    (grid : max (-1074) (floorLog num den - 52) = q) : nearest false num den = n := by
  obtain ⟨bits, -⟩ := magnitude_of_absolute finite
  obtain ⟨low, high, tie⟩ := near
  have quarter : (0 : ℚ) < 2 ^ (q - 2) := by positivity
  have lower : (4 * m - 2 : ℚ) * 2 ^ (q - 2) ≤ lowQuarters m q * 2 ^ (q - 2) :=
    mul_le_mul_of_nonneg_right (le_lowQuarters m q) quarter.le
  refine nearest_of_grid finite nonneg hnum grid (roundQuotient_grid hden ?_ ?_ ?_) bits.symm
  · rw [zpow_eq_quarters q]
    linarith
  · rw [zpow_eq_quarters q]
    linarith
  · rw [zpow_eq_quarters q]
    rcases tie with even | ⟨low, high⟩
    · exact .inl even
    · right
      constructor <;> linarith

/-- Just below a power of two the grid is finer. -/
theorem nearest_of_near_edge (finite : n.absolute = .finite m q) (nonneg : n.isNegative = false)
    (hnum : 0 < num) (hden : 0 < den) (near : Near m q (num / den)) (above : -1074 < q)
    (small : (num : ℚ) / den < 2 ^ (q + 52)) : nearest false num den = n := by
  obtain ⟨bits, -, -, fields⟩ := magnitude_of_absolute finite
  obtain ⟨low, -, -⟩ := near
  have quarter : (0 : ℚ) < 2 ^ (q - 2) := by positivity
  have normal : 2 ^ 52 ≤ m := by omega
  have top : (2 : ℚ) ^ (q + 52) = 2 ^ 54 * 2 ^ (q - 2) := zpow_quarters q 52
  have quarters : lowQuarters m q < 2 ^ 54 := by
    have scaled : (lowQuarters m q : ℚ) * 2 ^ (q - 2) < 2 ^ 54 * 2 ^ (q - 2) := by linarith
    have cast : (lowQuarters m q : ℚ) < 2 ^ 54 := lt_of_mul_lt_mul_right scaled quarter.le
    exact_mod_cast cast
  obtain ⟨edge, rfl⟩ : lowQuarters m q = 2 ^ 54 - 1 ∧ m = 2 ^ 52 := by
    rcases lowQuarters_cases m q with ⟨same, inner⟩ | ⟨same, rfl, -⟩ <;> omega
  have low : (2 ^ 54 - 1 : ℚ) * 2 ^ (q - 2) ≤ num / den := by
    have cast : (lowQuarters (2 ^ 52) q : ℚ) = 2 ^ 54 - 1 := by
      rw [edge]
      norm_num
    rwa [cast] at low
  have log : floorLog num den = q + 51 := by
    apply floorLog_eq hnum hden
    · have middle : (2 : ℚ) ^ (q + 51) = 2 ^ 53 * 2 ^ (q - 2) := zpow_quarters q 51
      rw [middle]
      linarith
    · simpa [add_assoc] using small
  have grid : max (-1074) (floorLog num den - 52) = q - 1 := by omega
  have round : roundQuotient (num * power 2 (-(q - 1))) (den * power 2 (q - 1)) = 2 ^ 53 := by
    apply roundQuotient_grid hden
    · rw [zpow_half q]
      push_cast
      linarith
    · rw [zpow_half q]
      push_cast
      linarith
    · exact .inl (by norm_num)
  refine nearest_of_grid finite nonneg hnum grid round ?_
  rw [bits]
  omega

theorem nearest_of_near (finite : n.absolute = .finite m q) (nonneg : n.isNegative = false)
    (hnum : 0 < num) (hden : 0 < den) (near : Near m q (num / den)) :
    nearest false num den = n := by
  obtain ⟨-, low_q, -, fields⟩ := magnitude_of_absolute finite
  have below : (num : ℚ) / den < 2 ^ (q + 53) := by
    have high : (num : ℚ) / den ≤ (4 * m + 2) * 2 ^ (q - 2) := near.2.1
    have bound : (m : ℚ) + 1 ≤ 2 ^ 53 := by
      have : m + 1 ≤ 2 ^ 53 := by omega
      exact_mod_cast this
    have top : (2 : ℚ) ^ (q + 53) = 2 ^ 55 * 2 ^ (q - 2) := zpow_quarters q 53
    have quarter : (0 : ℚ) < 2 ^ (q - 2) := by positivity
    rw [top]
    nlinarith
  have log := floorLog_lt hnum hden below
  by_cases small : (num : ℚ) / den < 2 ^ (q + 52)
  · by_cases above : -1074 < q
    · exact nearest_of_near_edge finite nonneg hnum hden near above small
    · exact nearest_of_near_grid finite nonneg hnum hden near (by omega)
  · have log : floorLog num den = q + 52 :=
      floorLog_eq hnum hden (not_lt.1 small) (by simpa [add_assoc] using below)
    exact nearest_of_near_grid finite nonneg hnum hden near (by omega)

end Stencil.Number
