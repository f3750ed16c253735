import Stencil.Value

/-! Equality and order of values. -/
namespace Stencil

namespace Value

mutual

/-- Numbers are equal as numbers, so NaN differs from itself. Mappings are equal in any order. -/
def same : Value → Value → Bool
  | .null, .null => true
  | .bool a, .bool b => a == b
  | .number a, .number b => a.equal b
  | .string a, .string b => a == b
  | .array as, .array bs => sameItems as bs
  | .mapping as, .mapping bs => as.length == bs.length && allIn as bs
  | .callable f, .callable g => f == g
  | _, _ => false

def sameItems : List Value → List Value → Bool
  | [], [] => true
  | a :: as, b :: bs => same a b && sameItems as bs
  | _, _ => false

/-- Every entry of the first mapping is one of the second. -/
def allIn : List (String × Value) → List (String × Value) → Bool
  | [], _ => true
  | (key, a) :: as, bs =>
    (match Dict.get? bs key with
      | some b => same a b
      | none => false) && allIn as bs

end

/-- How often a value is turned into another one before it is compared. -/
def conversions : Value → Nat
  | .bool _ | .array _ | .mapping _ => 1
  | _ => 0

/-- Values of one kind are compared as they are. Numbers, strings and booleans meet on numbers; a
collection meets a scalar on its text; null equals only null. -/
def looseEqual : Value → Value → Bool
  | .null, .null => true
  | .null, _ | _, .null => false
  | .bool a, .bool b => a == b
  | .number a, .number b => a.equal b
  | .string a, .string b => a == b
  | .number a, .string b => a.equal (toNumber (.string b))
  | .string a, .number b => (toNumber (.string a)).equal b
  | .bool a, b => looseEqual (.number (toNumber (.bool a))) b
  | a, .bool b => looseEqual a (.number (toNumber (.bool b)))
  | .callable f, .callable g => f == g
  | .callable _, _ | _, .callable _ => false
  | .array as, .array bs => same (.array as) (.array bs)
  | .array as, .mapping bs => same (.array as) (.mapping bs)
  | .mapping as, .array bs => same (.mapping as) (.array bs)
  | .mapping as, .mapping bs => same (.mapping as) (.mapping bs)
  | .array as, b => looseEqual (.string (text (.array as))) b
  | .mapping as, b => looseEqual (.string (text (.mapping as))) b
  | a, .array bs => looseEqual a (.string (text (.array bs)))
  | a, .mapping bs => looseEqual a (.string (text (.mapping bs)))
termination_by a b => a.conversions + b.conversions
decreasing_by all_goals simp [conversions]

/-- What a value is sorted by. -/
inductive SortKey
  | numeric (n : Number)
  | text (s : String)

def sortKey : Value → SortKey
  | .null => .numeric (.ofNat 0)
  | .bool b => .numeric (.ofNat b.toNat)
  | .number n => .numeric n
  | .string s =>
    match Number.ofText? s.toList with
    | some n => .numeric n
    | none => .text s
  | v => .text v.text

/-- Numbers come before texts, and NaN comes after all other numbers. -/
def SortKey.order : SortKey → SortKey → Ordering
  | .numeric a, .numeric b => (a.compare? b).getD (compare a.isUnordered b.isUnordered)
  | .numeric _, .text _ => .lt
  | .text _, .numeric _ => .gt
  | .text a, .text b => compare a b

/-- Numbers and texts of numbers come first, in their order; the rest is ordered by text. -/
def naturalOrder (a b : Value) : Ordering := a.sortKey.order b.sortKey

end Value
end Stencil
