import Stencil.Number.Basic
import Stencil.Text.Basic

/-! Decimals as they are written, and the number nearest to one. -/
namespace Stencil

/-- `coefficient · 10 ^ exponent`. -/
structure Decimal where
  coefficient : Nat
  exponent : Int
deriving DecidableEq, Repr

namespace Decimal

def digits (d : Decimal) : List Char := Nat.toDigits 10 d.coefficient

/-- Where the decimal point stands, counted from the first digit: the value is `0.digits · 10 ^ point`. -/
def point (d : Decimal) : Int := d.digits.length + d.exponent

/-- The nearest number. Beyond `10 ^ 310` that is infinity and below `10 ^ (-330)` zero, so the
powers of ten stay small. -/
def toNumber (negative : Bool) (d : Decimal) : Number :=
  if d.coefficient = 0 || d.point < -330 then .ofMagnitude negative 0
  else if 310 < d.point then .ofMagnitude negative Number.infinityMagnitude
  else .nearest negative (d.coefficient * Number.power 10 d.exponent) (Number.power 10 (-d.exponent))

/-- An optional sign in front of something. -/
def signed : List Char → Bool × List Char
  | '-' :: cs => (true, cs)
  | '+' :: cs => (false, cs)
  | cs => (false, cs)

/-- The power of ten after the digits: nothing, or `e` with an optional sign and digits. -/
def exponentOfChars? : List Char → Option Int
  | [] => some 0
  | mark :: cs =>
    let (negative, ds) := signed cs
    if (mark = 'e' || mark = 'E') && !ds.isEmpty && ds.all Char.isDigit then
      some (if negative then -Text.ofDigits ds else Text.ofDigits ds)
    else none

/-- The digits after a decimal point, if one comes next, and what follows. -/
def fractionOfChars : List Char → List Char × List Char
  | '.' :: cs => (cs.takeWhile Char.isDigit, cs.dropWhile Char.isDigit)
  | cs => ([], cs)

/-- Reads digits with an optional point among, before or after them and an optional exponent. -/
def ofChars? (cs : List Char) : Option Decimal :=
  let whole := cs.takeWhile Char.isDigit
  let (fraction, afterFraction) := fractionOfChars (cs.dropWhile Char.isDigit)
  if whole.isEmpty && fraction.isEmpty then none
  else (exponentOfChars? afterFraction).map fun exponent =>
    ⟨Text.ofDigits (whole ++ fraction), exponent - fraction.length⟩

end Decimal

namespace Number

/-- Reads an optional sign and a decimal, with white space around them. -/
def ofText? (text : List Char) : Option Number :=
  let (negative, cs) := Decimal.signed (Text.trim text)
  (Decimal.ofChars? cs).map (Decimal.toNumber negative)

end Number
end Stencil
