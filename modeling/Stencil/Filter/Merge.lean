import Stencil.Error
import Stencil.Value

/-! Merging arrays and mappings. -/
namespace Stencil.Value

/-- Items under the keys `0`, `1`, …. -/
def indexed (items : List Value) : Dict Value :=
  items.zipIdx.map fun (item, i) => (Nat.repr i, item)

/-- The machine word behind `n`. Behind the largest one comes zero, or nothing if counts are checked:
then the program stops. -/
def increment (checked : Bool) (n : UInt64) : Except Error UInt64 :=
  if checked && n.toNat + 1 == UInt64.size then .error .overflow else .ok (n + 1)

/-- One past the largest integer key, or zero if there is none. -/
def nextKey (checked : Bool) (d : Dict Value) : Except Error UInt64 :=
  match ((Dict.keys d).filterMap integerKey?).max? with
  | some largest => increment checked (.ofNat largest)
  | none => .ok 0

/-- Adds items under consecutive keys, from `next` on. -/
def appendFrom (checked : Bool) (d : Dict Value) : UInt64 → List Value → Except Error (Dict Value)
  | _, [] => .ok d
  | next, item :: items => do
    let d := Dict.insert d (Nat.repr next.toNat) item
    appendFrom checked d (← increment checked next) items

/-- Mapping entries go under their keys, array items under fresh integer keys. Null adds nothing. -/
def mergeOne (checked : Bool) (d : Dict Value) : Value → Except Error (Dict Value)
  | .mapping entries => .ok (Dict.insertAll d entries)
  | .array items => do appendFrom checked d (← nextKey checked d) items
  | .null => .ok d
  | other => .error (.evaluation (.unsuitableArgument .merge other.kind))

/-- An array if the keys are `0` to `n - 1` in order, otherwise a mapping. -/
def ofMerged (d : Dict Value) : Value :=
  if (Dict.keys d).zipIdx.all fun (key, i) => integerKey? key == some i then .array (Dict.values d)
  else .mapping d

/-- What merging starts from. -/
def mergeBase : Value → Except Error (Dict Value)
  | .array items => .ok (indexed items)
  | .mapping entries => .ok entries
  | .null => .ok []
  | other => .error (.evaluation (.unsuitable .merge other.kind))

def merge (input : Value) (args : List Value) (checked : Bool := false) : Except Error Value := do
  let start ← mergeBase input
  return ofMerged (← args.foldlM (mergeOne checked) start)

end Stencil.Value
