/-! Numbers are IEEE 754 doubles. Everything here but the four operations of the hardware is said
through the bits: order, exact value, rounding to the nearest number. -/
namespace Stencil

abbrev Number := Float

namespace Number

/-- `base ^ exponent`; one if the exponent is negative. -/
def power (base : Nat) (exponent : Int) : Nat := Nat.pow base exponent.toNat

/-- The highest of the 64 bits. -/
def signBit : Nat := Nat.pow 2 63

/-- The lowest bit of the exponent, which is the highest of a normal significand. -/
def exponentBit : Nat := Nat.pow 2 52

/-- The bits below the sign. They put numbers of one sign in order. -/
def magnitude (n : Number) : Nat := n.toBits.toNat % signBit

def isNegative (n : Number) : Bool := signBit ≤ n.toBits.toNat

def infinityMagnitude : Nat := 2047 * exponentBit

/-- The absolute value: `finite m q` is `m · 2 ^ q`. -/
inductive Absolute
  | nan
  | infinite
  | finite (significand : Nat) (exponent : Int)
deriving DecidableEq, Repr

def absolute (n : Number) : Absolute :=
  let exponent : Nat := n.magnitude / exponentBit
  let fraction : Nat := n.magnitude % exponentBit
  if exponent = 2047 then if fraction = 0 then .infinite else .nan
  else if exponent = 0 then .finite fraction (-1074)
  else .finite (exponentBit + fraction) (exponent - 1075)

/-- The number with these bits below the sign; infinity bounds them. -/
def ofMagnitude (negative : Bool) (magnitude : Nat) : Number :=
  Float.ofBits (.ofNat ((if negative then signBit else 0) + min magnitude infinityMagnitude))

/-- The natural number nearest to `num / den`; half-way goes to the even one. -/
def roundQuotient (num den : Nat) : Nat :=
  let double := 2 * (num % den)
  if den < double || (double == den && num / den % 2 == 1) then num / den + 1 else num / den

/-- The greatest `e` with `2 ^ e ≤ num / den`, for positive `num` and `den`. -/
def floorLog (num den : Nat) : Int :=
  let guess : Int := (num.log2 : Int) - den.log2
  if den * power 2 guess ≤ num * power 2 (-guess) then guess else guess - 1

/-- The number nearest to `num / den`; half-way goes to the even significand. A number of the grid
`2 ^ q` has the bits `(q + 1074) · 2 ^ 52 + m`, and a carry of the rounding lands on the next one. -/
def nearest (negative : Bool) (num den : Nat) : Number :=
  if num = 0 then ofMagnitude negative 0
  else
    let grid := max (-1074) (floorLog num den - 52)
    let significand := roundQuotient (num * power 2 (-grid)) (den * power 2 grid)
    ofMagnitude negative ((grid + 1074).toNat * exponentBit + significand)

def ofNat (n : Nat) : Number := nearest false n 1

def nan : Number := Float.ofBits 0x7FF8000000000000

/-- NaN is unordered with every number, itself included. -/
def isUnordered (n : Number) : Bool := infinityMagnitude < n.magnitude

/-- The place of a number in the order; both zeros share one. -/
def key (n : Number) : Int := if n.isNegative then -n.magnitude else n.magnitude

def compare? (a b : Number) : Option Ordering :=
  if a.isUnordered || b.isUnordered then none else some (compare a.key b.key)

def equal (a b : Number) : Bool := compare? a b == some .eq

def less (a b : Number) : Bool := compare? a b == some .lt

def atMost (a b : Number) : Bool := less a b || equal a b

def isZero (n : Number) : Bool := n.magnitude == 0

/-- The whole number between zero and `m · 2 ^ q` that is nearest to `m · 2 ^ q`. -/
def wholePart (significand : Nat) (exponent : Int) : Nat :=
  significand * power 2 exponent / power 2 (-exponent)

/-- The number without its fraction, rounded toward zero. -/
def truncate? (n : Number) : Option Int :=
  match n.absolute with
  | .finite m q => some (if n.isNegative then -wholePart m q else wholePart m q)
  | _ => none

/-- The integer that the number is. -/
def integer? (n : Number) : Option Int :=
  match n.absolute with
  | .finite m q =>
    if m % power 2 (-q) = 0 then n.truncate? else none
  | _ => none

/-- The natural number that the number is. -/
def natural? (n : Number) : Option Nat :=
  match n.integer? with
  | some (.ofNat k) => some k
  | _ => none

/-- What is left of `a` after taking `b` away as often as possible. It is exact and has the sign
of `a`. -/
def remainder (a b : Number) : Number :=
  match a.absolute, b.absolute with
  | .finite m q, .finite m' q' =>
    if m' = 0 then nan
    else
      let grid := min q q'
      let rest := m * power 2 (q - grid) % (m' * power 2 (q' - grid))
      nearest a.isNegative (rest * power 2 grid) (power 2 (-grid))
  | .finite _ _, .infinite => a
  | _, _ => nan

end Number
end Stencil
