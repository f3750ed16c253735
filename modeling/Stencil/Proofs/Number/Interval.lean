import Stencil.Proofs.Number.Sign

/-! The intervals that are rounded to numbers lie in the order of the numbers, and without overlap. -/
namespace Stencil.Number

variable {a b n : Number} {m k : Nat} {q e : Int} {x y z : ℚ}

/-- Everything between two rationals that are rounded to a number is rounded to it. -/
theorem Near.between (low : Near m q x) (high : Near m q z) (above : x ≤ y) (below : y ≤ z) :
    Near m q y := by
  obtain ⟨start, -, left⟩ := low
  obtain ⟨-, stop, right⟩ := high
  refine ⟨start.trans above, below.trans stop, ?_⟩
  rcases left with even | ⟨left, -⟩
  · exact .inl even
  rcases right with even | ⟨-, right⟩
  · exact .inl even
  · exact .inr ⟨left.trans_le above, below.trans_lt right⟩

theorem Near.pos (near : Near m q x) (positive : 0 < m) : 0 < x := by
  have wide : (0 : ℚ) < lowQuarters m q := by
    exact_mod_cast Nat.zero_lt_two.trans_le (two_le_lowQuarters positive q)
  have quarter : (0 : ℚ) < 2 ^ (q - 2) := by positivity
  exact lt_of_lt_of_le (mul_pos wide quarter) near.1

/-- The interval of a lesser number ends where that of a greater one begins, or before. -/
theorem high_le_low (ha : a.absolute = .finite m q) (hb : b.absolute = .finite k e)
    (less : a.magnitude < b.magnitude) :
    ((4 * m + 2) * 2 ^ (q - 2) : ℚ) ≤ lowQuarters k e * 2 ^ (e - 2) := by
  obtain ⟨bits_a, low_a, -, fields_a⟩ := magnitude_of_absolute ha
  obtain ⟨bits_b, low_b, -, fields_b⟩ := magnitude_of_absolute hb
  have quarter : (0 : ℚ) < 2 ^ (q - 2) := by positivity
  have grids : q ≤ e := by
    by_contra finer
    omega
  rcases eq_or_lt_of_le grids with rfl | finer
  · have quarters : 4 * m + 2 ≤ lowQuarters k q := by
      rcases lowQuarters_cases k q with ⟨same, -⟩ | ⟨same, edge, -⟩ <;> omega
    have cast : (4 * m + 2 : ℚ) ≤ lowQuarters k q := by exact_mod_cast quarters
    exact mul_le_mul_of_nonneg_right cast quarter.le
  · have quarters : 4 * m + 2 ≤ lowQuarters k e * 2 := by
      rcases lowQuarters_cases k e with ⟨same, inner⟩ | ⟨same, edge, -⟩ <;> omega
    have cast : (4 * m + 2 : ℚ) ≤ lowQuarters k e * 2 := by exact_mod_cast quarters
    have double : (2 : ℚ) * 2 ^ (q - 2) ≤ 2 ^ (e - 2) := by
      calc (2 : ℚ) * 2 ^ (q - 2) = 2 ^ (q - 1) := (zpow_half q).symm
        _ ≤ 2 ^ (e - 2) := zpow_le_zpow_right₀ (by norm_num) (by omega)
    calc ((4 * m + 2) * 2 ^ (q - 2) : ℚ) ≤ lowQuarters k e * 2 * 2 ^ (q - 2) :=
          mul_le_mul_of_nonneg_right cast quarter.le
      _ = lowQuarters k e * (2 * 2 ^ (q - 2)) := by ring
      _ ≤ lowQuarters k e * 2 ^ (e - 2) := mul_le_mul_of_nonneg_left double (by positivity)

/-- The magnitudes of numbers lie in the order of their exact values. -/
theorem magnitude_lt_iff (ha : a.absolute = .finite m q) (hb : b.absolute = .finite k e) :
    a.magnitude < b.magnitude ↔ (m * 2 ^ q : ℚ) < k * 2 ^ e := by
  have below {a b : Number} {m k : Nat} {q e : Int} (ha : a.absolute = .finite m q)
      (hb : b.absolute = .finite k e) (less : a.magnitude < b.magnitude) :
      (m * 2 ^ q : ℚ) < k * 2 ^ e := by
    have apart := high_le_low ha hb less
    have low : (lowQuarters k e : ℚ) ≤ 4 * k := by
      have quarters : lowQuarters k e ≤ 4 * k := by
        rcases lowQuarters_cases k e with ⟨same, -⟩ | ⟨same, -⟩ <;> omega
      exact_mod_cast quarters
    have quarter : (0 : ℚ) < 2 ^ (q - 2) := by positivity
    have quarter' : (0 : ℚ) < 2 ^ (e - 2) := by positivity
    rw [zpow_eq_quarters q, zpow_eq_quarters e]
    nlinarith
  refine ⟨below ha hb, fun less => ?_⟩
  rcases Nat.lt_trichotomy a.magnitude b.magnitude with lt | same | gt
  · exact lt
  · have alike := absolute_congr same
    rw [ha, hb, Absolute.finite.injEq] at alike
    obtain ⟨rfl, rfl⟩ := alike
    exact absurd less (lt_irrefl _)
  · exact absurd less (not_lt.2 (below hb ha gt).le)

/-- If a power of ten is read as `b`, the numbers from `b` on are those whose shortest digits reach
that power. -/
theorem lt_point_shortest_iff {tie : Tie} {g : Int} (hn : n.absolute = .finite m q) (positive : 0 < m)
    (hb : b.absolute = .finite k e) (low : (lowQuarters k e * 2 ^ (e - 2) : ℚ) < 10 ^ g)
    (high : (10 : ℚ) ^ g ≤ (4 * k + 2) * 2 ^ (e - 2)) (reaches : g < (shortest tie k e).point) :
    g < (shortest tie m q).point ↔ b.magnitude ≤ n.magnitude := by
  have near : Near m q (shortest tie m q).value := near_shortest positive
  obtain ⟨point_low, point_high⟩ :=
    Decimal.value_bounds (Decimal.coefficient_pos_of_value (near.pos positive))
  have one_lt : (1 : ℚ) < 10 := by norm_num
  rcases Nat.lt_trichotomy n.magnitude b.magnitude with less | same | greater
  · have below : (10 : ℚ) ^ ((shortest tie m q).point - 1) < 10 ^ g :=
      point_low.trans_lt ((near.2.1.trans (high_le_low hn hb less)).trans_lt low)
    have := (zpow_lt_zpow_iff_right₀ one_lt).1 below
    omega
  · have alike := absolute_congr same
    rw [hn, hb, Absolute.finite.injEq] at alike
    obtain ⟨rfl, rfl⟩ := alike
    exact iff_of_true reaches same.ge
  · have above : (10 : ℚ) ^ g < 10 ^ (shortest tie m q).point :=
      (high.trans ((high_le_low hb hn greater).trans near.1)).trans_lt point_high
    exact iff_of_true ((zpow_lt_zpow_iff_right₀ one_lt).1 above) greater.le

end Stencil.Number
