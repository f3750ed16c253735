import Stencil.Date.Calendar
import Stencil.Date.Zone

/-! Instants, and the local time that a zone gives to one. -/
namespace Stencil

/-- Seconds since the first of January 1970 in UTC, and the part of a second after that. During a
leap second the part counts on past `10 ^ 9`. -/
structure Instant where
  seconds : Int
  nanos : Nat
deriving DecidableEq, Repr

/-- What a clock and a calendar show. -/
structure LocalTime where
  date : Date
  /-- Seconds since midnight. -/
  second : Nat
  nanos : Nat
deriving DecidableEq, Repr

namespace Instant

def ofMilliseconds (ms : Int) : Instant := ⟨ms / 1000, (ms % 1000).toNat * 1000000⟩

def firstSecond : Int := (Date.mk Date.firstYear 1 1).toDays * 86400

def lastSecond : Int := (Date.mk Date.lastYear 12 31).toDays * 86400 + 86399

/-- Does the instant lie in the years that have dates? -/
def isInRange (i : Instant) : Bool := firstSecond ≤ i.seconds && i.seconds ≤ lastSecond

/-- What clocks in `zone` show. -/
def toLocal (i : Instant) (zone : Zone) : LocalTime :=
  let seconds := i.seconds + zone.east
  ⟨Date.ofDays (seconds / 86400), (seconds % 86400).toNat, i.nanos⟩

end Instant

namespace LocalTime

def hour (t : LocalTime) : Nat := t.second / 3600

def minute (t : LocalTime) : Nat := t.second / 60 % 60

def secondOfMinute (t : LocalTime) : Nat := t.second % 60

/-- The instant at which clocks in `zone` show this. -/
def toInstant (t : LocalTime) (zone : Zone) : Instant :=
  ⟨t.date.toDays * 86400 + t.second - zone.east, t.nanos⟩

def toInstant? (t : LocalTime) (zone : Zone) : Option Instant :=
  let i := t.toInstant zone
  if i.isInRange then some i else none

end LocalTime
end Stencil
