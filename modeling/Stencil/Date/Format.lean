import Stencil.Date.Instant
import Stencil.Text.Basic

/-! Formats of dates. Letters stand for fields, a backslash takes the character behind it for
itself, and all else stands for itself. -/
namespace Stencil

/-- An instant and the zone that it is shown in. -/
structure Moment where
  instant : Instant
  zone : Zone

namespace Moment

def localTime (m : Moment) : LocalTime := m.instant.toLocal m.zone

/-- The distance from UTC in hours and minutes. -/
def offsetText (m : Moment) (separator : String) : String :=
  let seconds := m.zone.east.natAbs
  (if m.zone.east < 0 then "-" else "+") ++ Text.padded 2 (seconds / 3600) ++ separator ++
    Text.padded 2 (seconds % 3600 / 60)

def integerText (n : Int) : String := if n < 0 then "-" ++ Nat.repr n.natAbs else Nat.repr n.natAbs

def ordinalSuffix (day : Nat) : String :=
  if 11 ≤ day % 100 && day % 100 ≤ 13 then "th"
  else match day % 10 with
    | 1 => "st"
    | 2 => "nd"
    | 3 => "rd"
    | _ => "th"

/-- The hour on a clock with twelve hours. -/
def hour12 (t : LocalTime) : Nat := if t.hour % 12 = 0 then 12 else t.hour % 12

def shortName (name : String) : String := String.ofList (name.toList.take 3)

/-- The field that a letter stands for. -/
def field? (m : Moment) (letter : Char) : Option String :=
  let t := m.localTime
  let d := t.date
  match letter with
  | 'd' => some (Text.padded 2 d.day)
  | 'D' => some (shortName d.weekdayName)
  | 'j' => some (Nat.repr d.day)
  | 'l' => some d.weekdayName
  | 'S' => some (ordinalSuffix d.day)
  | 'N' => some (Nat.repr (d.weekday + 1))
  | 'w' => some (Nat.repr ((d.weekday + 1) % 7))
  | 'z' => some (Nat.repr d.ordinal)
  | 'W' => some (Text.padded 2 d.isoWeek)
  | 'F' => some d.monthName
  | 'M' => some (shortName d.monthName)
  | 'm' => some (Text.padded 2 d.month)
  | 'n' => some (Nat.repr d.month)
  | 't' => some (Nat.repr (Date.monthLength d.year d.month))
  | 'L' => some (if (Date.mk d.year 2 29).isValid then "1" else "0")
  | 'Y' => some (integerText d.year)
  | 'y' => some (Text.padded 2 (d.year % 100).toNat)
  | 'a' => some (if t.hour < 12 then "am" else "pm")
  | 'A' => some (if t.hour < 12 then "AM" else "PM")
  | 'g' => some (Nat.repr (hour12 t))
  | 'G' => some (Nat.repr t.hour)
  | 'h' => some (Text.padded 2 (hour12 t))
  | 'H' => some (Text.padded 2 t.hour)
  | 'i' => some (Text.padded 2 t.minute)
  | 's' => some (Text.padded 2 t.secondOfMinute)
  | 'u' => some (Text.padded 6 (t.nanos / 1000))
  | 'v' => some (Text.padded 3 (t.nanos / 1000000))
  | 'e' | 'P' => some (m.offsetText ":")
  | 'O' => some (m.offsetText "")
  | 'T' => some (if m.zone.east = 0 then "UTC" else m.offsetText ":")
  | 'U' => some (integerText m.instant.seconds)
  | _ => none

/-- Puts the fields for their letters. A backslash at the end stands for nothing. -/
def fill (field? : Char → Option String) : List Char → List Char
  | [] => []
  | ['\\'] => []
  | '\\' :: c :: cs => c :: fill field? cs
  | c :: cs => (match field? c with
    | some text => text.toList
    | none => [c]) ++ fill field? cs

def isoFormat : String := "Y-m-d\\TH:i:sP"

def mailFormat : String := "D, d M Y H:i:s O"

/-- Two more letters stand for whole formats. -/
def fieldOrFormat? (m : Moment) (letter : Char) : Option String :=
  match letter with
  | 'c' => some (String.ofList (fill m.field? isoFormat.toList))
  | 'r' => some (String.ofList (fill m.field? mailFormat.toList))
  | _ => m.field? letter

def format (m : Moment) (format : String) : String :=
  String.ofList (fill m.fieldOrFormat? format.toList)

def defaultFormat : String := "F j, Y H:i"

end Moment
end Stencil
