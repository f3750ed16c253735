import Stencil.Config
import Stencil.Date.Format
import Stencil.Date.Reading
import Stencil.Filter.Merge
import Stencil.Json
import Stencil.Text.UpperCase
import Stencil.Value.Compare

/-! What the filters do. -/
namespace Stencil

namespace Value

def unsuitable (filter : Filter) (v : Value) : Except Error Value :=
  .error (.evaluation (.unsuitable filter v.kind))

/-- The first character in upper case. -/
def capitalize : List Char → List Char
  | [] => []
  | c :: cs => Text.upperCase c ++ cs

/-- The first character of every word in upper case; white space ends a word. -/
def titleCase (atStart : Bool) : List Char → List Char
  | [] => []
  | c :: cs => (if atStart then Text.upperCase c else [c]) ++ titleCase (Text.isSpace c) cs

/-- Does a byte stand for itself in a URL? -/
def isUnreserved (b : UInt8) : Bool :=
  let c := Char.ofNat b.toNat
  b < 128 && (c.isAlphanum || c == '-' || c == '.' || c == '_' || c == '~')

def upperHexDigit (n : Nat) : Char := if n < 10 then Char.ofNat (48 + n) else Char.ofNat (55 + n)

def percentEncode (b : UInt8) : List Char :=
  if isUnreserved b then [Char.ofNat b.toNat]
  else ['%', upperHexDigit (b.toNat / 16), upperHexDigit (b.toNat % 16)]

/-- Bytes outside the unreserved characters become a percent sign and two hexadecimal digits. -/
def urlEncode (s : String) : String :=
  String.ofList (s.toUTF8.toList.flatMap percentEncode)

/-- Is `a` allowed before `b` in natural order? -/
def naturalAtMost (a b : Value) : Bool := naturalOrder a b != .gt

/-- `xs` in the natural order of their values. What has equal values keeps its order. -/
def arrange {α : Type} (value : α → Value) (xs : List α) : List α :=
  xs.mergeSort fun x y => naturalAtMost (value x) (value y)

/-- Items in natural order; entries in the order of their values. -/
def sort : Value → Except Error Value
  | .array items => .ok (.array (arrange id items))
  | .mapping entries => .ok (.mapping (Dict.ofList (arrange Prod.snd entries)))
  | other => other.unsuitable .sort

def reverse : Value → Except Error Value
  | .array items => .ok (.array items.reverse)
  | .mapping entries => .ok (.mapping entries.reverse)
  | .string s => .ok (.string (String.ofList s.toList.reverse))
  | other => other.unsuitable .reverse

def keys : Value → Except Error Value
  | .array items => .ok (.array ((List.range items.length).map fun i => .string (Nat.repr i)))
  | .mapping entries => .ok (.array ((Dict.keys entries).map .string))
  | other => other.unsuitable .keys

def length (v : Value) : Except Error Value :=
  match v.length? with
  | some n => .ok (.ofNat n)
  | none => v.unsuitable .length

/-- Scalars are joined to their own text. -/
def join (v : Value) (separator : String) : String :=
  match v with
  | .array items => Text.join separator (items.map text)
  | .mapping entries => Text.join separator ((Dict.values entries).map text)
  | v => v.text

/-- Null and the empty string give way to `other`. -/
def orDefault (v other : Value) : Value :=
  match v with
  | .null => other
  | .string s => if s = "" then other else v
  | _ => v

/-- An argument that is missing or null gives nothing. -/
def givenText? (args : List Value) (i : Nat) : Option String :=
  match args[i]? with
  | none | some .null => none
  | some v => some v.text

/-- Milliseconds since the first of January 1970, without their fraction. -/
def instantOfNumber (n : Number) : Except Error Instant :=
  match n.truncate? with
  | none => .error (.evaluation .infiniteTimestamp)
  | some ms =>
    let instant := Instant.ofMilliseconds ms
    if instant.isInRange then .ok instant else .error (.evaluation (.timestampOutOfRange n))

/-- The instant of a value: null is now, numbers and their texts are timestamps, and other texts are
dates. -/
def toInstant (v : Value) (zone : Zone) (now : Instant) : Except Error Instant :=
  match v with
  | .null => .ok now
  | .number n => instantOfNumber n
  | .string s =>
    match Number.ofText? s.toList with
    | some n => instantOfNumber n
    | none =>
      match Instant.ofText? s zone now with
      | some instant => .ok instant
      | none => .error (.evaluation (.unknownDate s))
  | other => .error (.evaluation (.unsuitable .date other.kind))

/-- Dates are read in the zone of the settings, and shown in `zone` if it is given. -/
def formatDate (v : Value) (format zone : Option String) (config : Config) (now : Instant) :
    Except Error String := do
  let shown ← match zone with
    | none => pure config.timezone
    | some text =>
      match Zone.ofText? text with
      | some zone => pure zone
      | none => throw (.evaluation (.unknownZone text))
  let instant ← v.toInstant config.timezone now
  return (Moment.mk instant shown).format (format.getD Moment.defaultFormat)

end Value

namespace Filter

/-- Applies a filter to its input and arguments. `now` is the time for dates that are null, and
`checked` tells whether counts are checked. -/
def apply (filter : Filter) (input : Value) (args : List Value) (config : Config) (now : Instant)
    (checked : Bool := false) : Except Error Value :=
  match filter with
  | .upper => .ok (.string (Text.asciiUpper input.text))
  | .lower => .ok (.string (Text.asciiLower input.text))
  | .capitalize => .ok (.string (String.ofList (Value.capitalize input.text.toList)))
  | .title => .ok (.string (String.ofList (Value.titleCase true input.text.toList)))
  | .length => input.length
  | .sort => input.sort
  | .reverse => input.reverse
  | .keys => input.keys
  | .merge => input.merge args checked
  | .join => .ok (.string (input.join ((args.head?.map Value.text).getD "")))
  | .default => .ok (input.orDefault (args.head?.getD .null))
  | .urlEncode => .ok (.string (Value.urlEncode input.text))
  | .jsonEncode => .ok (.string input.toJson.text)
  | .date =>
    (input.formatDate (Value.givenText? args 0) (Value.givenText? args 1) config now).map .string

/-- Applies the filter of this name. -/
def applyNamed (name : String) (input : Value) (args : List Value) (config : Config)
    (now : Instant) (checked : Bool := false) : Except Error Value :=
  match ofName? name with
  | some filter => filter.apply input args config now checked
  | none => .error (.unknownFilter name)

end Filter
end Stencil
