import Mathlib
import Stencil.Number.Basic

/-! The bits of a number, by its exact value. -/
namespace Stencil.Number

variable {n : Number} {m : Nat} {q : Int}

theorem toBits_of_nonneg (nonneg : n.isNegative = false) : n.toBits.toNat = n.magnitude := by
  have below : n.toBits.toNat < signBit := by simpa [isNegative] using nonneg
  rw [magnitude, Nat.mod_eq_of_lt below]

/-- The fields of a finite number. -/
theorem magnitude_of_absolute (finite : n.absolute = .finite m q) :
    n.magnitude = (q + 1074).toNat * 2 ^ 52 + m ∧ -1074 ≤ q ∧ q ≤ 971 ∧
      (2 ^ 52 ≤ m ∧ m < 2 ^ 53 ∨ m < 2 ^ 52 ∧ q = -1074) := by
  have unit : exponentBit = 2 ^ 52 := rfl
  have small : n.magnitude < 2 ^ 63 := Nat.mod_lt _ (by decide)
  have whole := Nat.div_add_mod n.magnitude (2 ^ 52)
  have fraction := Nat.mod_lt n.magnitude (Nat.two_pow_pos 52)
  unfold absolute at finite
  simp only [unit] at finite
  split at finite
  · split at finite <;> cases finite
  split at finite
  · next zero =>
    cases finite
    omega
  · next top bottom =>
    cases finite
    omega

theorem ofMagnitude_magnitude (finite : n.absolute = .finite m q) (nonneg : n.isNegative = false) :
    ofMagnitude false n.magnitude = n := by
  have fields := magnitude_of_absolute finite
  have limit : infinityMagnitude = 2047 * 2 ^ 52 := rfl
  have below : min n.magnitude infinityMagnitude = n.magnitude := by omega
  have bits : UInt64.ofNat n.magnitude = n.toBits := by
    rw [← toBits_of_nonneg nonneg]
    exact UInt64.ofNat_toNat
  simp [ofMagnitude, below, bits]

end Stencil.Number
