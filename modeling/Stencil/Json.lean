import Stencil.Value

/-! JSON, and the JSON form of values. -/
namespace Stencil

inductive Json
  | null
  | bool (value : Bool)
  | integer (value : Int)
  | decimal (value : Number)
  | string (value : String)
  | array (items : List Json)
  | object (entries : List (String × Json))
deriving Inhabited

namespace Json

def hexDigit (n : Nat) : Char := if n < 10 then Char.ofNat (48 + n) else Char.ofNat (87 + n)

/-- How a character stands in a string: control characters, quotes and backslashes are escaped. -/
def escape (c : Char) : List Char :=
  if c = '"' then ['\\', '"']
  else if c = '\\' then ['\\', '\\']
  else if c = '\x08' then ['\\', 'b']
  else if c = '\x0c' then ['\\', 'f']
  else if c = '\n' then ['\\', 'n']
  else if c = '\r' then ['\\', 'r']
  else if c = '\t' then ['\\', 't']
  else if c.toNat < 32 then ['\\', 'u', '0', '0', hexDigit (c.toNat / 16), hexDigit (c.toNat % 16)]
  else [c]

def quoted (s : String) : String := "\"" ++ String.ofList (s.toList.flatMap escape) ++ "\""

def integerText (n : Int) : String := if n < 0 then "-" ++ Nat.repr n.natAbs else Nat.repr n.natAbs

mutual

/-- The text without any white space. -/
def text : Json → String
  | .null => "null"
  | .bool b => if b then "true" else "false"
  | .integer n => integerText n
  | .decimal n => Number.Layout.json.write n
  | .string s => quoted s
  | .array items => "[" ++ Text.join "," (textsOfItems items) ++ "]"
  | .object entries => "\x7b" ++ Text.join "," (textsOfEntries entries) ++ "\x7d"

def textsOfItems : List Json → List String
  | [] => []
  | j :: js => text j :: textsOfItems js

def textsOfEntries : List (String × Json) → List String
  | [] => []
  | (key, j) :: es => (quoted key ++ ":" ++ text j) :: textsOfEntries es

end

mutual

def toValue : Json → Value
  | .null => .null
  | .bool b => .bool b
  | .integer n => .number (.nearest (n < 0) n.natAbs 1)
  | .decimal n => .number n
  | .string s => .string s
  | .array items => .array (valuesOfItems items)
  | .object entries => .mapping (valuesOfEntries entries)

def valuesOfItems : List Json → List Value
  | [] => []
  | j :: js => toValue j :: valuesOfItems js

def valuesOfEntries : List (String × Json) → List (String × Value)
  | [] => []
  | (key, j) :: es => (key, toValue j) :: valuesOfEntries es

end

theorem valuesOfItems_eq_map (js : List Json) : valuesOfItems js = js.map toValue := by
  induction js with
  | nil => rfl
  | cons j js ih => simp [valuesOfItems, ih]

theorem valuesOfEntries_eq_map (es : List (String × Json)) :
    valuesOfEntries es = es.map fun e => (e.1, toValue e.2) := by
  induction es with
  | nil => rfl
  | cons e es ih => simp [valuesOfEntries, ih]

/-- A whole number below `2 ^ 53` is written as an integer; NaN and infinities have no form. -/
def ofNumber (n : Number) : Json :=
  match n.absolute, n.integer? with
  | .finite _ _, some k => if k.natAbs < Nat.pow 2 53 then .integer k else .decimal n
  | .finite _ _, none => .decimal n
  | _, _ => .null

end Json

namespace Value

mutual

/-- Callables have no JSON form. -/
def toJson : Value → Json
  | .null => .null
  | .bool b => .bool b
  | .number n => .ofNumber n
  | .string s => .string s
  | .array items => .array (jsonOfItems items)
  | .mapping entries => .object (jsonOfEntries entries)
  | .callable _ => .null

def jsonOfItems : List Value → List Json
  | [] => []
  | v :: vs => toJson v :: jsonOfItems vs

def jsonOfEntries : List (String × Value) → List (String × Json)
  | [] => []
  | (key, v) :: es => (key, toJson v) :: jsonOfEntries es

end

theorem jsonOfItems_eq_map (vs : List Value) : jsonOfItems vs = vs.map toJson := by
  induction vs with
  | nil => rfl
  | cons v vs ih => simp [jsonOfItems, ih]

theorem jsonOfEntries_eq_map (es : List (String × Value)) :
    jsonOfEntries es = es.map fun e => (e.1, toJson e.2) := by
  induction es with
  | nil => rfl
  | cons e es ih => simp [jsonOfEntries, ih]

end Value
end Stencil
