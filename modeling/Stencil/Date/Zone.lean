/-! Zones: fixed distances from UTC. -/
namespace Stencil

/-- A local time that runs `east` seconds ahead of UTC, less than a day either way. -/
structure Zone where
  east : Int
  east_lt : east.natAbs < 86400 := by decide
deriving DecidableEq, Repr

namespace Zone

def utc : Zone := { east := 0 }

def ofSeconds? (east : Int) : Option Zone := if h : east.natAbs < 86400 then some ⟨east, h⟩ else none

end Zone
end Stencil
