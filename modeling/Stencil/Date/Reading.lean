import Stencil.Date.Instant
import Stencil.Text.Basic

/-! Reading zones, and dates in a fixed set of layouts. -/
namespace Stencil

/-- `UTC`, `Z` and `GMT` in any case, or a sign and two or four digits for hours and minutes. Colons
among the digits are passed over. -/
def Zone.ofText? (text : String) : Option Zone :=
  let cs := Text.trim text.toList
  if ["UTC", "Z", "GMT"].contains (Text.asciiUpper (String.ofList cs)) then some .utc
  else match cs with
  | [] => none
  | sign :: rest =>
    let digits := rest.filter (· ≠ ':')
    let minutes := Text.ofDigits (digits.drop 2)
    let seconds : Int := Text.ofDigits (digits.take 2) * 3600 + minutes * 60
    if !digits.all Char.isDigit || (digits.length ≠ 2 && digits.length ≠ 4) || 60 ≤ minutes then none
    else if sign = '+' then Zone.ofSeconds? seconds
    else if sign = '-' then Zone.ofSeconds? (-seconds)
    else none

/-- A reader takes a part from the front of a text, or fails. -/
abbrev Reader := StateT (List Char) Option

namespace Reader

def char (c : Char) : Reader Unit := fun cs =>
  match cs with
  | d :: rest => if d = c then some ((), rest) else none
  | [] => none

def skipSpace : Reader Unit := fun cs => some ((), Text.trimLeft cs)

/-- White space that has to be there. -/
def space : Reader Unit := fun cs =>
  match cs with
  | c :: rest => if Text.isSpace c then some ((), Text.trimLeft rest) else none
  | [] => none

/-- At least `least` digits and at most `most`. -/
def digits (least most : Nat) : Reader (List Char) := fun cs =>
  let found := (cs.take most).takeWhile Char.isDigit
  if found.length < least then none else some (found, cs.drop found.length)

def number (least most : Nat) : Reader Nat := return Text.ofDigits (← digits least most)

/-- As many digits as there are. -/
def manyDigits (least : Nat) : Reader (List Char) := fun cs => digits least cs.length cs

/-- The place of the first three letters in a list of names, in any case. -/
def name (names : List String) : Reader Nat := fun cs =>
  let start := Text.asciiLower (String.ofList (cs.take 3))
  (names.findIdx? fun n => Text.asciiLower (String.ofList (n.toList.take 3)) == start).map
    fun i => (i, cs.drop 3)

/-- Does the text go on with something that `r` reads? Otherwise nothing is taken. -/
def maybe {α : Type} (r : Reader α) : Reader (Option α) := fun cs =>
  match r cs with
  | some (a, rest) => some (some a, rest)
  | none => some (none, cs)

/-- A sign, two digits of hours, a separator and two digits of minutes below sixty. -/
def signedOffset (signs : List (Char × Int)) (separator : Reader Unit) : Reader Int := fun cs =>
  match cs with
  | [] => none
  | c :: rest =>
    match signs.lookup c with
    | none => none
    | some sign =>
      (do
        let hours ← number 2 2
        separator
        let minutes ← number 2 2
        guard (minutes < 60)
        return sign * (hours * 3600 + minutes * 60 : Nat) : Reader Int) rest

def plainSigns : List (Char × Int) := [('+', 1), ('-', -1)]

/-- The sign of a number may also be the minus sign of mathematics. -/
def allSigns : List (Char × Int) := plainSigns ++ [('−', -1)]

end Reader

/-- The fields of a written date. What a layout lacks is zero or none. -/
structure DateFields where
  weekday : Option Nat := none
  year : Int := 0
  month : Nat := 0
  day : Nat := 0
  hour : Nat := 0
  minute : Nat := 0
  second : Nat := 0
  nanos : Nat := 0
  /-- Seconds east of UTC. -/
  offset : Option Int := none
deriving Repr

namespace DateFields

/-- The local time, if the fields name one. Second sixty is the leap second after fifty-nine, and a
weekday has to be that of the date. -/
def toLocal? (f : DateFields) : Option LocalTime :=
  let date : Date := ⟨f.year, f.month, f.day⟩
  let leap := f.second = 60
  if date.isValid && f.hour < 24 && f.minute < 60 && f.second ≤ 60 &&
      (f.weekday.all (· == date.weekday)) then
    some {
      date
      second := f.hour * 3600 + f.minute * 60 + (if leap then 59 else f.second)
      nanos := f.nanos + (if leap then 1000000000 else 0) }
  else none

/-- The instant, read in `zone` if the fields have no offset of their own. -/
def toInstant? (f : DateFields) (zone : Zone) : Option Instant := do
  let t ← f.toLocal?
  match f.offset with
  | some east => t.toInstant? (← Zone.ofSeconds? east)
  | none => t.toInstant? zone

end DateFields

/-- A layout is a list of parts. Numbers and offsets may have white space in front. -/
inductive LayoutPart
  | year | month | day | hour | minute | second
  | weekdayName | monthName
  | offset
  /-- White space, of any length or none. -/
  | space
  | literal (c : Char)
deriving DecidableEq, Repr

namespace LayoutPart

open Reader

/-- A year with a sign may have any number of digits, one without has at most four. -/
def readYear : Reader Int := do
  if (← maybe (char '-')).isSome then
    return -Text.ofDigits (← manyDigits 1)
  if (← maybe (char '+')).isSome then
    return Text.ofDigits (← manyDigits 1)
  return ← number 1 4

def twoDigits : Reader Nat := do
  skipSpace
  number 1 2

/-- Colons and white space between hours and minutes of an offset. -/
def colonsOrSpace : Reader Unit := fun cs =>
  some ((), cs.dropWhile fun c => c = ':' || Text.isSpace c)

def read (f : DateFields) : LayoutPart → Reader DateFields
  | .year => do
    skipSpace
    return { f with year := ← readYear }
  | .month => return { f with month := ← twoDigits }
  | .day => return { f with day := ← twoDigits }
  | .hour => return { f with hour := ← twoDigits }
  | .minute => return { f with minute := ← twoDigits }
  | .second => return { f with second := ← twoDigits }
  | .weekdayName => return { f with weekday := some (← name Date.weekdayNames) }
  | .monthName => return { f with month := (← name Date.monthNames) + 1 }
  | .offset => do
    skipSpace
    return { f with offset := some (← signedOffset allSigns colonsOrSpace) }
  | .space => do
    skipSpace
    return f
  | .literal c => do
    char c
    return f

/-- Reads the parts one after the other. -/
def readAll : List LayoutPart → DateFields → Reader DateFields
  | [], f => pure f
  | part :: parts, f => do readAll parts (← part.read f)

end LayoutPart

namespace DateFields

open Reader LayoutPart

/-- `2007-08-14`. -/
def dateParts : List LayoutPart := [.year, .literal '-', .month, .literal '-', .day]

def minuteParts : List LayoutPart := [.hour, .literal ':', .minute]

def secondParts : List LayoutPart := minuteParts ++ [.literal ':', .second]

/-- `Tue Aug 14 08:52:15 +0000 2007`. -/
def statusParts : List LayoutPart :=
  [.weekdayName, .space, .monthName, .space, .day, .space] ++ secondParts ++
    [.space, .offset, .space, .year]

/-- The fraction of a second. Digits after the ninth are passed over. -/
def fraction : Reader Nat := do
  let ds ← manyDigits 1
  return Text.ofDigits (ds.take 9 ++ List.replicate (9 - ds.length) '0')

/-- The offset of an internet timestamp. -/
def internetOffset : Reader Int := do
  if (← maybe (char 'Z')).isSome then return 0
  if (← maybe (char 'z')).isSome then return 0
  signedOffset allSigns (char ':')

/-- `2007-08-14T13:05:00.123+02:00`, with fixed numbers of digits. -/
def internet : Reader DateFields := do
  let year ← number 4 4
  char '-'
  let month ← number 2 2
  char '-'
  let day ← number 2 2
  let t ← fun cs => cs.head?.map fun c => (c, cs.tail)
  guard (t = 'T' || t = 't' || t = ' ')
  let hour ← number 2 2
  char ':'
  let minute ← number 2 2
  char ':'
  let second ← number 2 2
  let nanos ← if (← maybe (char '.')).isSome then fraction else pure 0
  let offset ← internetOffset
  return { year, month, day, hour, minute, second, nanos, offset := some offset }

/-- Names of zones in mail headers, in hours east of UTC. -/
def mailZones : List (String × Int) := [
  ("gmt", 0), ("ut", 0), ("z", 0), ("edt", -4), ("est", -5), ("cdt", -5), ("cst", -6), ("mdt", -6),
  ("mst", -7), ("pdt", -7), ("pst", -8)]

/-- A zone of a mail header: an offset, a name, or a single letter other than `j`, which says
nothing. -/
def mailOffset : Reader Int := fun cs =>
  let letters := cs.takeWhile Char.isAlpha
  if letters.isEmpty then signedOffset plainSigns (pure ()) cs
  else
    let name := Text.asciiLower (String.ofList letters)
    match mailZones.lookup name with
    | some hours => some (hours * 3600, cs.drop letters.length)
    | none =>
      if letters.length = 1 && name ≠ "j" then some (0, cs.drop letters.length) else none

/-- A year of two digits lies between 1950 and 2049; one of three counts from 1900. -/
def mailYear (digits : List Char) : Nat :=
  let year := Text.ofDigits digits
  if digits.length = 2 && year < 50 then year + 2000
  else if digits.length = 2 || digits.length = 3 then year + 1900
  else year

/-- What follows the comment that is open `depth` deep. -/
def afterComment? : Nat → List Char → Option (List Char)
  | _, [] => none
  | depth, '\\' :: _ :: cs => afterComment? depth cs
  | depth, '(' :: cs => afterComment? (depth + 1) cs
  | 0, ')' :: cs => some cs
  | depth + 1, ')' :: cs => afterComment? depth cs
  | depth, _ :: cs => afterComment? depth cs

/-- Comments in parentheses, with white space before each. -/
def afterComments : Nat → List Char → List Char
  | 0, cs => cs
  | fuel + 1, cs =>
    match Text.trimLeft cs with
    | '(' :: inner =>
      match afterComment? 0 inner with
      | some rest => afterComments fuel rest
      | none => cs
    | _ => cs

def comments : Reader Unit := fun cs => some ((), afterComments cs.length cs)

/-- `Tue, 14 Aug 2007 08:52:15 +0000 (comment)`, where the weekday and the seconds may lack. -/
def mail : Reader DateFields := do
  skipSpace
  let weekday ← maybe (name Date.weekdayNames)
  if weekday.isSome then char ','
  skipSpace
  let day ← number 1 2
  space
  let month ← name Date.monthNames
  space
  let year ← manyDigits 2
  space
  let hour ← number 2 2
  skipSpace
  char ':'
  skipSpace
  let minute ← number 2 2
  let colon ← maybe (do skipSpace; char ':')
  let second ← if colon.isSome then number 2 2 else pure 0
  space
  let offset ← mailOffset
  comments
  return {
    weekday, year := mailYear year, month := month + 1, day, hour, minute, second
    offset := some offset }

/-- The layouts, in the order in which they are tried. Those with an offset come first. -/
def layouts : List (Reader DateFields) := [
  internet,
  mail,
  readAll statusParts {},
  readAll (dateParts ++ [.space] ++ secondParts ++ [.space, .offset]) {},
  readAll (dateParts ++ [.space] ++ secondParts) {},
  readAll (dateParts ++ [.literal 'T'] ++ secondParts) {},
  readAll (dateParts ++ [.space] ++ minuteParts) {},
  readAll dateParts {}]

/-- The instant of a text that one layout reads from end to end. -/
def ofLayout? (layout : Reader DateFields) (zone : Zone) (cs : List Char) : Option Instant :=
  match layout cs with
  | some (f, []) => f.toInstant? zone
  | _ => none

end DateFields

/-- The instant that a text names: `now`, or a date in the first layout that fits. Dates without an
offset are read in `zone`. -/
def Instant.ofText? (text : String) (zone : Zone) (now : Instant) : Option Instant :=
  let cs := Text.trim text.toList
  if Text.asciiLower (String.ofList cs) = "now" then some now
  else DateFields.layouts.findSome? (DateFields.ofLayout? · zone cs)

end Stencil
