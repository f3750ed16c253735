import Stencil.Dict
import Stencil.Expr
import Stencil.Number.Layout
import Stencil.Value.Kind

/-! Values: what expressions stand for. Operators and filters share the coercions here. -/
namespace Stencil

/-- A function of the host, known by its number. -/
structure Callable where
  id : Nat
deriving DecidableEq, Repr

inductive Value
  | null
  | bool (value : Bool)
  | number (value : Number)
  | string (value : String)
  | array (items : List Value)
  | mapping (entries : List (String × Value))
  | callable (handle : Callable)
deriving Inhabited

namespace Value

def kind : Value → Kind
  | .null => .null
  | .bool _ => .boolean
  | .number _ => .number
  | .string _ => .string
  | .array _ => .array
  | .mapping _ => .mapping
  | .callable _ => .callable

def isNull : Value → Bool
  | .null => true
  | _ => false

/-- Null, false, zeros, NaN and everything empty count as false. -/
def isTruthy : Value → Bool
  | .null => false
  | .bool b => b
  | .number n => !n.isZero && !n.isUnordered
  | .string s => s ≠ ""
  | .array items => !items.isEmpty
  | .mapping entries => !entries.isEmpty
  | .callable _ => true

mutual

/-- The text that output tags print. Collections print their values with commas between them. -/
def text : Value → String
  | .null => ""
  | .bool b => if b then "true" else "false"
  | .number n => n.text
  | .string s => s
  | .array items => Text.join "," (textsOfItems items)
  | .mapping entries => Text.join "," (textsOfEntries entries)
  | .callable _ => ""

def textsOfItems : List Value → List String
  | [] => []
  | v :: vs => text v :: textsOfItems vs

def textsOfEntries : List (String × Value) → List String
  | [] => []
  | (_, v) :: es => text v :: textsOfEntries es

end

/-- Blank text is zero; text that is no number is NaN. -/
def numberOfText (s : String) : Number :=
  if (Text.trim s.toList).isEmpty then .ofNat 0 else (Number.ofText? s.toList).getD .nan

/-- The number that arithmetic takes a value for. Collections go through their text. -/
def toNumber : Value → Number
  | .null => .ofNat 0
  | .bool b => .ofNat b.toNat
  | .number n => n
  | .string s => numberOfText s
  | .array items => numberOfText (text (.array items))
  | .mapping entries => numberOfText (text (.mapping entries))
  | .callable _ => .nan

def ofNat (n : Nat) : Value := .number (.ofNat n)

/-- How many characters, items or entries; other values have no length. -/
def length? : Value → Option Nat
  | .string s => some s.toList.length
  | .array items => some items.length
  | .mapping entries => some entries.length
  | _ => none

/-- The number that a canonical decimal below `2 ^ 64` writes: no sign and no zeros in front. -/
def integerKey? (key : String) : Option Nat :=
  let n := Text.ofDigits key.toList
  if Nat.repr n = key && n < Nat.pow 2 64 then some n else none

/-- The place in an array that a key names. -/
def index? : Value → Option Nat
  | .number n => n.natural?
  | .string s => integerKey? s
  | _ => none

/-- What an array or a mapping holds under a key. -/
def get? : Value → Value → Option Value
  | .array items, key => key.index?.bind (items[·]?)
  | .mapping entries, key => Dict.get? entries key.text
  | _, _ => none

end Value

def Literal.toValue : Literal → Value
  | .null => .null
  | .bool b => .bool b
  | .number n => .number n
  | .string s => .string s

end Stencil
