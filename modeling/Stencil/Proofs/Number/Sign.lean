import Stencil.Proofs.Number.Decimal

/-! The sign of a number is one bit beside its magnitude: whatever is rounded, read or negated with
the other sign differs in that bit alone. -/
namespace Stencil

namespace Number

open Float.Model (Format)
open Float.Model.UnpackedFloat (Sign pack unpack pack_unpack unpackSign unpackExponent unpackMantissa
  isNaNBits unpackSign_def unpackExponent_def unpackMantissa_def)

variable {a b n : Number} {m : Nat} {q : Int}

/-- The bits that stand for a sign. -/
def signBits (negative : Bool) : Nat := if negative then signBit else 0

theorem signBits_cases (negative : Bool) :
    negative = false ∧ signBits negative = 0 ∨ negative = true ∧ signBits negative = 2 ^ 63 := by
  cases negative
  · exact .inl ⟨rfl, rfl⟩
  · exact .inr ⟨rfl, rfl⟩

theorem exponentBit_eq : exponentBit = 2 ^ 52 := rfl

theorem infinityMagnitude_eq : infinityMagnitude = 2047 * 2 ^ 52 := rfl

/-- The packed bits of a number up to infinity are the bits that were given. -/
theorem toNat_pack_unpack {bits : BitVec 64} (ordered : bits.toNat % 2 ^ 63 ≤ infinityMagnitude) :
    pack Format.binary64 (unpack Format.binary64 bits) = bits := by
  rw [infinityMagnitude_eq] at ordered
  rw [pack_unpack, if_neg]
  simp only [isNaNBits, unpackExponent_def, unpackMantissa_def, decide_eq_true_eq, not_and, not_not]
  intro exponent
  have top : bits.toNat / 2 ^ 52 % 2 ^ 11 = 2047 := by
    have := congrArg BitVec.toNat exponent
    simpa [Nat.shiftRight_eq_div_pow] using this
  apply BitVec.eq_of_toNat_eq
  have bottom : bits.toNat % 2 ^ 52 = 0 := by omega
  simpa using bottom

theorem toBits_ofMagnitude (negative : Bool) (k : Nat) :
    (ofMagnitude negative k).toBits.toNat = signBits negative + min k infinityMagnitude := by
  have limit := infinityMagnitude_eq
  have small : signBits negative + min k infinityMagnitude < 2 ^ 64 := by
    rcases signBits_cases negative with ⟨-, sign⟩ | ⟨-, sign⟩ <;> omega
  have bits : (BitVec.ofNat 64 (signBits negative + min k infinityMagnitude)).toNat =
      signBits negative + min k infinityMagnitude := by
    rw [BitVec.toNat_ofNat, Nat.mod_eq_of_lt small]
  change (pack Format.binary64 (unpack Format.binary64 (BitVec.ofNat 64 _))).toNat = _
  rw [toNat_pack_unpack]
  · exact bits
  · change (BitVec.ofNat 64 (signBits negative + min k infinityMagnitude)).toNat % _ ≤ _
    rw [bits]
    rcases signBits_cases negative with ⟨-, sign⟩ | ⟨-, sign⟩ <;> omega

@[simp] theorem magnitude_ofMagnitude (negative : Bool) (k : Nat) :
    (ofMagnitude negative k).magnitude = min k infinityMagnitude := by
  have limit := infinityMagnitude_eq
  have sign : signBit = 2 ^ 63 := rfl
  rw [magnitude, toBits_ofMagnitude, sign]
  rcases signBits_cases negative with ⟨-, sign⟩ | ⟨-, sign⟩ <;> omega

@[simp] theorem isNegative_ofMagnitude (negative : Bool) (k : Nat) :
    (ofMagnitude negative k).isNegative = negative := by
  have limit := infinityMagnitude_eq
  have sign : signBit = 2 ^ 63 := rfl
  rw [isNegative, toBits_ofMagnitude, sign]
  rcases signBits_cases negative with ⟨rfl, sign⟩ | ⟨rfl, sign⟩
  · rw [decide_eq_false_iff_not]
    omega
  · rw [decide_eq_true_iff]
    omega

theorem toBits_eq (n : Number) : n.toBits.toNat = signBits n.isNegative + n.magnitude := by
  have sign : signBit = 2 ^ 63 := rfl
  have small := n.toBits.toNat_lt
  unfold magnitude
  rw [sign]
  rcases signBits_cases n.isNegative with ⟨which, bits⟩ | ⟨which, bits⟩
  · have below : n.toBits.toNat < 2 ^ 63 := by simpa [isNegative, sign] using which
    omega
  · have above : 2 ^ 63 ≤ n.toBits.toNat := by simpa [isNegative, sign] using which
    omega

/-- A number is its sign and its magnitude. -/
theorem eq_of_magnitude (sign : a.isNegative = b.isNegative) (same : a.magnitude = b.magnitude) :
    a = b := by
  apply Float.toBits_inj.1
  apply UInt64.toNat_inj.1
  rw [toBits_eq, toBits_eq, sign, same]

theorem ofMagnitude_self (ordered : n.isUnordered = false) :
    ofMagnitude n.isNegative n.magnitude = n := by
  have bound : n.magnitude ≤ infinityMagnitude := by simpa [isUnordered] using ordered
  apply eq_of_magnitude
  · rw [isNegative_ofMagnitude]
  · rw [magnitude_ofMagnitude, Nat.min_eq_left bound]

/-- The exact value does not see the sign. -/
theorem absolute_congr (same : a.magnitude = b.magnitude) : a.absolute = b.absolute := by
  unfold absolute
  rw [same]

theorem isUnordered_congr (same : a.magnitude = b.magnitude) : a.isUnordered = b.isUnordered := by
  unfold isUnordered
  rw [same]

/-- Only bits from infinity on are cut off. -/
theorem magnitude_eq_of_ofMagnitude {negative : Bool} {k : Nat} (finite : n.absolute = .finite m q)
    (same : ofMagnitude negative k = n) : n.magnitude = k := by
  have fields := magnitude_of_absolute finite
  have cut := magnitude_ofMagnitude negative k
  rw [same, infinityMagnitude_eq] at cut
  omega

theorem ordered_of_absolute (finite : n.absolute = .finite m q) : n.isUnordered = false := by
  have fields := magnitude_of_absolute finite
  have limit := infinityMagnitude_eq
  rw [isUnordered, decide_eq_false_iff_not]
  omega

/-- The number without its sign. -/
def abs (n : Number) : Number := ofMagnitude false n.magnitude

theorem magnitude_abs (ordered : n.isUnordered = false) : n.abs.magnitude = n.magnitude := by
  have bound : n.magnitude ≤ infinityMagnitude := by simpa [isUnordered] using ordered
  rw [abs, magnitude_ofMagnitude, Nat.min_eq_left bound]

@[simp] theorem isNegative_abs (n : Number) : n.abs.isNegative = false := isNegative_ofMagnitude _ _

theorem absolute_abs (ordered : n.isUnordered = false) : n.abs.absolute = n.absolute :=
  absolute_congr (magnitude_abs ordered)

theorem unpack_flip {x y : BitVec 64}
    (mantissa : @unpackMantissa Format.binary64 x = @unpackMantissa Format.binary64 y)
    (exponent : @unpackExponent Format.binary64 x = @unpackExponent Format.binary64 y)
    (sign : Sign.ofBitVec (@unpackSign Format.binary64 x) =
      -Sign.ofBitVec (@unpackSign Format.binary64 y)) :
    unpack Format.binary64 x = (unpack Format.binary64 y).neg := by
  simp only [unpack, mantissa, exponent, sign]
  split
  · split <;> rfl
  · split
    · split <;> rfl
    · rfl

/-- Bits that differ in the sign alone. -/
theorem unpack_neg {x y : BitVec 64} (same : x.toNat % 2 ^ 63 = y.toNat % 2 ^ 63)
    (other : x.toNat / 2 ^ 63 = 1 - y.toNat / 2 ^ 63) :
    unpack Format.binary64 x = (unpack Format.binary64 y).neg := by
  have small := y.isLt
  apply unpack_flip
  · rw [unpackMantissa_def, unpackMantissa_def]
    apply BitVec.eq_of_toNat_eq
    simp only [BitVec.extractLsb'_toNat, Nat.shiftRight_eq_div_pow]
    omega
  · rw [unpackExponent_def, unpackExponent_def]
    apply BitVec.eq_of_toNat_eq
    simp only [BitVec.extractLsb'_toNat, Nat.shiftRight_eq_div_pow]
    omega
  · rw [unpackSign_def, unpackSign_def]
    simp only [Sign.ofBitVec, ← BitVec.toNat_inj, BitVec.extractLsb'_toNat, Nat.shiftRight_eq_div_pow]
    obtain positive | negative : y.toNat / 2 ^ 63 = 0 ∨ y.toNat / 2 ^ 63 = 1 := by omega
    · rw [if_neg (by simp; omega), if_pos (by simp; omega)]
      rfl
    · rw [if_pos (by simp; omega), if_neg (by simp; omega)]
      rfl

theorem neg_eq (ordered : n.isUnordered = false) :
    -n = ofMagnitude (!n.isNegative) n.magnitude := by
  have limit := infinityMagnitude_eq
  have bound : n.magnitude ≤ infinityMagnitude := by simpa [isUnordered] using ordered
  have bits := toBits_eq n
  have flipped := toBits_ofMagnitude (!n.isNegative) n.magnitude
  rw [Nat.min_eq_left bound] at flipped
  generalize ofMagnitude (!n.isNegative) n.magnitude = opposite at *
  have signs : signBits n.isNegative = 0 ∧ signBits (!n.isNegative) = 2 ^ 63 ∨
      signBits n.isNegative = 2 ^ 63 ∧ signBits (!n.isNegative) = 0 := by
    cases n.isNegative
    · exact .inl ⟨rfl, rfl⟩
    · exact .inr ⟨rfl, rfl⟩
  apply Float.toBits_inj.1
  apply UInt64.toBitVec_inj.1
  change pack Format.binary64 (unpack Format.binary64 n.toBits.toBitVec).neg = opposite.toBits.toBitVec
  have x : opposite.toBits.toBitVec.toNat = opposite.toBits.toNat := rfl
  have y : n.toBits.toBitVec.toNat = n.toBits.toNat := rfl
  rw [← unpack_neg (x := opposite.toBits.toBitVec), toNat_pack_unpack]
  all_goals omega

theorem ofMagnitude_min (negative : Bool) (k : Nat) :
    ofMagnitude negative (min k infinityMagnitude) = ofMagnitude negative k := by
  simp [ofMagnitude]

theorem nearest_eq (negative : Bool) (num den : Nat) :
    nearest negative num den = ofMagnitude negative (nearest false num den).magnitude := by
  unfold nearest
  split <;> rw [magnitude_ofMagnitude, ofMagnitude_min]

end Number

namespace Decimal

open Number

variable {n : Number} {m : Nat} {q : Int} {d : Decimal}

/-- A sign in front of a decimal sets the sign of the number and nothing else. -/
theorem toNumber_eq (negative : Bool) (d : Decimal) :
    d.toNumber negative = ofMagnitude negative (d.toNumber false).magnitude := by
  unfold toNumber
  split
  · rw [magnitude_ofMagnitude, ofMagnitude_min]
  · split
    · rw [magnitude_ofMagnitude, ofMagnitude_min]
    · exact nearest_eq negative _ _

theorem toNumber_of_near_abs (finite : n.absolute = .finite m q) (positive : 0 < m)
    (near : Near m q d.value) : d.toNumber n.isNegative = n := by
  have ordered := ordered_of_absolute finite
  have unsigned : d.toNumber false = n.abs :=
    toNumber_of_near ((absolute_abs ordered).trans finite) (isNegative_abs n) positive near
  rw [toNumber_eq, unsigned, magnitude_abs ordered, ofMagnitude_self ordered]

end Decimal
end Stencil
