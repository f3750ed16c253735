import Stencil.Proofs.Number.Canonical

/-! Whole numbers of either sign: the integer that a number is, rounded, is that number again. -/
namespace Stencil.Number

variable {a b n : Number} {k : Int} {m : Nat} {q : Int}

theorem eq_mul_zpow_iff (k m : Nat) (q : Int) :
    (k : ℚ) = m * 2 ^ q ↔ m % power 2 (-q) = 0 ∧ wholePart m q = k := by
  obtain ⟨j, rfl | rfl⟩ := q.eq_nat_or_neg
  · have none : (-(j : Int)).toNat = 0 := by omega
    simp only [wholePart, power, none, Int.toNat_natCast, Nat.pow_eq, pow_zero, Nat.mod_one, Nat.div_one,
      true_and, zpow_natCast]
    rw [eq_comm]
    exact_mod_cast Iff.rfl
  · have none : (-(j : Int)).toNat = 0 := by omega
    have unit : (0 : ℚ) < 2 ^ j := by positivity
    simp only [wholePart, power, none, neg_neg, Int.toNat_natCast, Nat.pow_eq, pow_zero, mul_one,
      zpow_neg, zpow_natCast]
    rw [eq_mul_inv_iff_mul_eq₀ unit.ne']
    have cast : (k * 2 ^ j : ℚ) = m ↔ k * 2 ^ j = m := by exact_mod_cast Iff.rfl
    rw [cast]
    constructor
    · rintro rfl
      exact ⟨Nat.mul_mod_left _ _, Nat.mul_div_cancel _ (Nat.two_pow_pos j)⟩
    · rintro ⟨whole, rfl⟩
      exact Nat.div_mul_cancel (Nat.dvd_of_mod_eq_zero whole)

theorem isMinus_of_absolute (fields : n.absolute = .finite m q) :
    n.isMinus = true ↔ n.isNegative = true ∧ m ≠ 0 := by
  have zero : n.magnitude = 0 ↔ m = 0 := by
    have := magnitude_of_absolute fields
    omega
  simp [isMinus, isZero, zero]

theorem wholePart_eq_zero_iff (whole : m % power 2 (-q) = 0) : wholePart m q = 0 ↔ m = 0 := by
  have exact := (eq_mul_zpow_iff _ m q).2 ⟨whole, rfl⟩
  have unit : (2 : ℚ) ^ q ≠ 0 := by positivity
  rw [← Nat.cast_eq_zero (R := ℚ), exact, mul_eq_zero, or_iff_left unit, Nat.cast_eq_zero]

/-- A number is the integer that its exact value is. -/
theorem integer?_eq_some_iff : n.integer? = some k ↔
    ∃ m q, n.absolute = .finite m q ∧ (k.natAbs : ℚ) = m * 2 ^ q ∧ (n.isMinus = true ↔ k < 0) := by
  cases fields : n.absolute with
  | nan => simp [integer?, fields]
  | infinite => simp [integer?, fields]
  | finite m q =>
    have value : (∃ m' q', Absolute.finite m q = .finite m' q' ∧ (k.natAbs : ℚ) = m' * 2 ^ q' ∧
        (n.isMinus = true ↔ k < 0)) ↔
          (k.natAbs : ℚ) = m * 2 ^ q ∧ (n.isMinus = true ↔ k < 0) := by
      simp
    rw [value, eq_mul_zpow_iff]
    by_cases whole : m % power 2 (-q) = 0
    · have sign := isMinus_of_absolute fields
      rw [ne_eq, ← wholePart_eq_zero_iff whole] at sign
      rw [sign]
      simp only [integer?, truncate?, fields, whole, if_true, true_and, Option.some.injEq]
      cases n.isNegative <;> simp <;> omega
    · simp [integer?, fields, whole]

theorem integer?_congr (equal : a.equal b = true) : a.integer? = b.integer? := by
  obtain ⟨-, -, keys⟩ := equal_iff.1 equal
  obtain ⟨signs, magnitudes⟩ := eq_of_key keys
  apply Option.ext
  intro k
  rw [integer?_eq_some_iff, integer?_eq_some_iff, absolute_congr magnitudes, signs]

/-- The number nearest to the integer that a number is. -/
theorem nearest_of_integer (integer : n.integer? = some k) :
    nearest (k < 0) k.natAbs 1 = n.canonical := by
  obtain ⟨m, q, fields, exact, sign⟩ := integer?_eq_some_iff.1 integer
  have ordered := ordered_of_absolute fields
  have negative : decide (k < 0) = n.isMinus := by rw [Bool.eq_iff_iff, sign, decide_eq_true_iff]
  rw [negative, canonical]
  rcases Nat.eq_zero_or_pos m with rfl | positive
  · have zero : k.natAbs = 0 := by
      rw [Nat.cast_zero, zero_mul] at exact
      exact_mod_cast exact
    have bits : n.magnitude = 0 := by
      have := magnitude_of_absolute fields
      omega
    rw [nearest, if_pos zero, bits]
  · have nonzero : 0 < k.natAbs := by
      have above : (0 : ℚ) < k.natAbs := by
        rw [exact]
        positivity
      exact_mod_cast above
    have near : Near m q (k.natAbs / (1 : Nat)) := by
      rw [Nat.cast_one, div_one, exact]
      exact near_exact positive
    have unsigned : nearest false k.natAbs 1 = n.abs :=
      nearest_of_near ((absolute_abs ordered).trans fields) (isNegative_abs n) nonzero one_pos near
    rw [nearest_eq, unsigned, magnitude_abs ordered]

end Stencil.Number
