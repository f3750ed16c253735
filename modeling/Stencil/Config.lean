import Stencil.Date.Zone

/-! Settings for compiling and rendering. -/
namespace Stencil

structure Config where
  /-- Drop a line break directly after a logic tag. -/
  trimBlocks : Bool := false
  /-- How deep expressions may nest in a template, and blocks while rendering. -/
  maxDepth : Nat := 64
  /-- How many loop iterations a render may take in all. -/
  maxIterations : Nat := 100000
  /-- The zone that dates are read and written in when none is given. -/
  timezone : Zone := .utc
deriving DecidableEq, Repr

end Stencil
