import Stencil.Number.Decimal

/-! The fewest digits that read back as a given number, and the nearest of those. -/
namespace Stencil.Number

/-- Which of two equally near decimals is taken. -/
inductive Tie
  | up
  | even
deriving DecidableEq, Repr

/-- `m · 2 ^ q` and the ends of the interval of reals that round to it, on one grid of the reals:
all three are multiples of `unit⁻¹`. -/
structure Interval where
  low : Nat
  value : Nat
  high : Nat
  unit : Nat
  closed : Bool
deriving Repr

/-- Below a power of two the numbers lie twice as dense, so the interval is shorter there. -/
def interval (significand : Nat) (exponent : Int) : Interval :=
  let scale := power 2 (exponent - 2)
  let below := if significand = exponentBit && -1074 < exponent then 1 else 2
  { low := (4 * significand - below) * scale
    value := 4 * significand * scale
    high := (4 * significand + 2) * scale
    unit := power 2 (2 - exponent)
    closed := significand % 2 == 0 }

namespace Interval

/-- Does `coefficient · 10 ^ grid` lie in the interval? -/
def holds (i : Interval) (grid : Int) (coefficient : Nat) : Bool :=
  let point := coefficient * power 10 grid * i.unit
  let scale := power 10 (-grid)
  if i.closed then i.low * scale ≤ point && point ≤ i.high * scale
  else i.low * scale < point && point < i.high * scale

/-- The coefficient on the grid of `10 ^ grid` that is nearest to the value among those in the
interval. -/
def hit? (i : Interval) (tie : Tie) (grid : Int) : Option Nat :=
  let num := i.value * power 10 (-grid)
  let den := i.unit * power 10 grid
  let lower := num / den
  let double := 2 * (num % den)
  let nearer := if double < den || (double == den && tie == .even && lower % 2 == 0)
    then lower else lower + 1
  let further := if nearer = lower then lower + 1 else lower
  if lower = 0 then none
  else if i.holds grid nearer then some nearer
  else if i.holds grid further then some further
  else none

end Interval

/-- `coefficient` without the zeros at its end; each one raises the exponent. -/
def stripZeros : Nat → Decimal → Decimal
  | 0, d => d
  | fuel + 1, d =>
    if d.coefficient % 10 = 0 then stripZeros fuel ⟨d.coefficient / 10, d.exponent + 1⟩ else d

/-- The exact value of `m · 2 ^ q`, since `2 ^ (-q) = 5 ^ q · 10 ^ (-q)`. -/
def exactDecimal (significand : Nat) (exponent : Int) : Decimal :=
  ⟨significand * power 2 exponent * power 5 (-exponent), min exponent 0⟩

/-- A power of ten that `m · 2 ^ q` does not reach by more than a factor of ten. -/
def topGrid (significand : Nat) (exponent : Int) : Int :=
  ((significand.log2 + exponent + 1) * 30103).fdiv 100000 + 1

/-- The first grid, from coarse to fine, that has a point in the interval gives the digits. Seventeen
digits always suffice; the exact value stands at the end of the search. -/
def shortest (tie : Tie) (significand : Nat) (exponent : Int) : Decimal :=
  let i := interval significand exponent
  let top := topGrid significand exponent
  let found := (List.range 20).findSome? fun (k : Nat) =>
    (i.hit? tie (top - k)).map fun coefficient => Decimal.mk coefficient (top - k)
  let d := found.getD (exactDecimal significand exponent)
  stripZeros (d.digits.length) d

end Stencil.Number
