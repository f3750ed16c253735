import Stencil.Number.Shortest

/-! Texts of numbers: the shortest digits, and a layout that says how they are set. -/
namespace Stencil.Number

/-- The choices of one written form. -/
structure Layout where
  /-- Is a number whose decimal point stands here written without an exponent? -/
  isPlain : Int → Bool
  /-- What follows a whole number. -/
  wholeTail : String
  /-- The sign of an exponent that is not negative. -/
  plus : String
  tie : Tie
  infinity : String
  nan : String

namespace Layout

def zeros (n : Int) : String := String.ofList (List.replicate n.toNat '0')

/-- The digits of a positive decimal, laid out. -/
def decimal (l : Layout) (d : Decimal) : String :=
  let digits := d.digits
  let point := d.point
  if l.isPlain point then
    if digits.length ≤ point then String.ofList digits ++ zeros (point - digits.length) ++ l.wholeTail
    else if 0 < point then
      String.ofList (digits.take point.toNat) ++ "." ++ String.ofList (digits.drop point.toNat)
    else "0." ++ zeros (-point) ++ String.ofList digits
  else
    let exponent := point - 1
    let fraction := digits.drop 1
    String.ofList (digits.take 1) ++ (if fraction.isEmpty then "" else "." ++ String.ofList fraction)
      ++ "e" ++ (if 0 ≤ exponent then l.plus else "-") ++ Nat.repr exponent.natAbs

/-- The text of a number. Both zeros are written alike. -/
def write (l : Layout) (n : Number) : String :=
  let sign := if n.isNegative then "-" else ""
  match n.absolute with
  | .nan => l.nan
  | .infinite => sign ++ l.infinity
  | .finite m q => if m = 0 then "0" else sign ++ l.decimal (shortest l.tie m q)

/-- The canonical text: plain from `1e-6` up to below `1e21`. -/
def canonical : Layout where
  isPlain point := -6 < point && point ≤ 21
  wholeTail := ""
  plus := "+"
  tie := .up
  infinity := "Infinity"
  nan := "NaN"

/-- The text in error messages: never an exponent. -/
def positional : Layout where
  isPlain _ := true
  wholeTail := ""
  plus := ""
  tie := .up
  infinity := "inf"
  nan := "NaN"

/-- The text of a JSON number that is not written as an integer. -/
def json : Layout where
  isPlain point := -5 < point && point ≤ 16
  wholeTail := ".0"
  plus := "+"
  tie := .even
  infinity := "null"
  nan := "null"

end Layout

/-- The canonical text of a number. -/
def text (n : Number) : String := Layout.canonical.write n

end Stencil.Number
