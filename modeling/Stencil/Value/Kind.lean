/-! The kinds of values, by the names that error messages use. -/
namespace Stencil

inductive Kind
  | null | boolean | number | string | array | mapping | callable
deriving DecidableEq, Repr

def Kind.name : Kind → String
  | .null => "null"
  | .boolean => "boolean"
  | .number => "number"
  | .string => "string"
  | .array => "array"
  | .mapping => "mapping"
  | .callable => "callable"

end Stencil
