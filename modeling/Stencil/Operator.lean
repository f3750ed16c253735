import Stencil.Value.Compare

/-! What the operators do with evaluated operands. -/
namespace Stencil

def BinaryOp.apply (op : BinaryOp) (a b : Value) : Value :=
  match op with
  | .or | .and => .bool b.isTruthy
  | .equal => .bool (a.looseEqual b)
  | .notEqual => .bool !a.looseEqual b
  | .less => .bool (a.toNumber.less b.toNumber)
  | .atMost => .bool (a.toNumber.atMost b.toNumber)
  | .greater => .bool (b.toNumber.less a.toNumber)
  | .atLeast => .bool (b.toNumber.atMost a.toNumber)
  | .add => .number (a.toNumber + b.toNumber)
  | .subtract => .number (a.toNumber - b.toNumber)
  | .multiply => .number (a.toNumber * b.toNumber)
  | .divide => .number (a.toNumber / b.toNumber)
  | .remainder => .number (a.toNumber.remainder b.toNumber)
  | .concat => .string (a.text ++ b.text)

/-- The answer of an operator that does not need its right operand. -/
def BinaryOp.shortcut? (op : BinaryOp) (a : Value) : Option Value :=
  match op with
  | .and => if a.isTruthy then none else some (.bool false)
  | .or => if a.isTruthy then some (.bool true) else none
  | _ => none

def UnaryOp.apply : UnaryOp → Value → Value
  | .not, v => .bool !v.isTruthy
  | .negate, v => .number (-v.toNumber)
  | .plus, v => .number v.toNumber

end Stencil
