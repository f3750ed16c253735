/-! The proleptic Gregorian calendar. Days are counted from the first of January 1970. -/
namespace Stencil

structure Date where
  year : Int
  month : Nat
  day : Nat
deriving DecidableEq, Repr

namespace Date

def isLeap (year : Int) : Bool := year % 4 == 0 && (year % 100 != 0 || year % 400 == 0)

def monthLengths (year : Int) : List Nat :=
  [31, if isLeap year then 29 else 28, 31, 30, 31, 30, 31, 31, 30, 31, 30, 31]

def monthLength (year : Int) (month : Nat) : Nat := (monthLengths year)[month - 1]?.getD 0

/-- Days from the first of January of the year 1 to that of `year`. -/
def daysBeforeYear (year : Int) : Int :=
  365 * (year - 1) + (year - 1) / 4 - (year - 1) / 100 + (year - 1) / 400

/-- The first of January 1970, counted from that of the year 1. -/
def epochDay : Int := 719162

/-- Days from the first of January of the same year. -/
def ordinal (d : Date) : Nat := ((monthLengths d.year).take (d.month - 1)).foldr (· + ·) 0 + (d.day - 1)

def toDays (d : Date) : Int := daysBeforeYear d.year + d.ordinal - epochDay

/-- The year that holds a day, counted from the first of January of the year 1. Cycles of 400, 100,
4 and 1 years are taken out one after the other; the last day of a long cycle stays in it. -/
def yearOfDay (day : Int) : Int :=
  let cycle := day / 146097
  let rest := (day % 146097).toNat
  let centuries := min 3 (rest / 36524)
  let rest := rest - 36524 * centuries
  let leaps := rest / 1461
  let rest := rest - 1461 * leaps
  let years := min 3 (rest / 365)
  400 * cycle + 100 * centuries + 4 * leaps + years + 1

/-- Month and day, from the months that are left and the days into them. -/
def monthOf (month : Nat) : List Nat → Nat → Nat × Nat
  | [], rest => (month, rest + 1)
  | length :: lengths, rest =>
    if rest < length then (month, rest + 1) else monthOf (month + 1) lengths (rest - length)

def ofDays (days : Int) : Date :=
  let year := yearOfDay (days + epochDay)
  let (month, day) := monthOf 1 (monthLengths year) (days + epochDay - daysBeforeYear year).toNat
  ⟨year, month, day⟩

/-- Years outside this range have no dates. -/
def firstYear : Int := -262143

def lastYear : Int := 262142

def isValid (d : Date) : Bool :=
  firstYear ≤ d.year && d.year ≤ lastYear && 1 ≤ d.month && d.month ≤ 12 && 1 ≤ d.day &&
    d.day ≤ monthLength d.year d.month

/-- Monday is zero. The first of January 1970 was a Thursday. -/
def weekday (d : Date) : Nat := ((d.toDays + 3) % 7).toNat

/-- The week of the ISO calendar. A week belongs to the year that holds its Thursday. -/
def isoWeek (d : Date) : Nat := (ofDays (d.toDays - d.weekday + 3)).ordinal / 7 + 1

def monthNames : List String := [
  "January", "February", "March", "April", "May", "June", "July", "August", "September", "October",
  "November", "December"]

def weekdayNames : List String := [
  "Monday", "Tuesday", "Wednesday", "Thursday", "Friday", "Saturday", "Sunday"]

def monthName (d : Date) : String := monthNames[d.month - 1]?.getD ""

def weekdayName (d : Date) : String := weekdayNames[d.weekday]?.getD ""

end Date
end Stencil
