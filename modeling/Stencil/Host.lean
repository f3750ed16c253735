import Stencil.Action
import Stencil.Context
import Stencil.Date.Instant

/-! What the program around the templates provides. -/
namespace Stencil

/-- The functions of the host, which keep a state `σ` of their own, and the time. -/
structure Host (σ : Type) where
  call : Callable → List Value → Action σ Value
  now : Instant
  /-- Does a count that passes the largest machine word stop the program? Otherwise it goes on at
  zero. -/
  checksCounts : Bool := false

/-- Every call is answered with the number of calls before it. -/
def Host.counting : Host Nat where
  call _ _ := fun calls => (.ok (.ofNat calls), calls + 1)
  now := ⟨0, 0⟩

end Stencil
