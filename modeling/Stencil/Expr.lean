import Stencil.Number.Basic

/-! Expressions, as the insides of tags write them. -/
namespace Stencil

inductive BinaryOp
  | or | and
  | equal | notEqual
  | less | atMost | greater | atLeast
  | add | subtract | concat
  | multiply | divide | remainder
deriving DecidableEq, Repr

/-- Operators of a higher precedence bind tighter. Those of one precedence group to the left. -/
def BinaryOp.precedence : BinaryOp → Nat
  | .or => 1
  | .and => 2
  | .equal | .notEqual => 3
  | .less | .atMost | .greater | .atLeast => 4
  | .add | .subtract | .concat => 5
  | .multiply | .divide | .remainder => 6

inductive UnaryOp
  | not | negate | plus
deriving DecidableEq, Repr

inductive Literal
  | null
  | bool (value : Bool)
  | number (value : Number)
  | string (value : String)
deriving DecidableEq

/-- How a member access is written. Both ways mean the same. -/
inductive Access
  | dot | bracket
deriving DecidableEq, Repr

inductive Expr
  | literal (value : Literal)
  | variable (name : String)
  | binary (op : BinaryOp) (left right : Expr)
  | unary (op : UnaryOp) (operand : Expr)
  | array (items : List Expr)
  | mapping (entries : List (Expr × Expr))
  | member (object key : Expr) (access : Access)
  | filter (input : Expr) (name : String) (args : List Expr)
  /-- A host callable with arguments, or a filter applied to its first argument. -/
  | call (name : String) (args : List Expr)
  | conditional (test whenTrue whenFalse : Expr)
deriving BEq

end Stencil
