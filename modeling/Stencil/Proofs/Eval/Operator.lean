import Stencil.Eval.Expr
import Stencil.Proofs.Action

/-! Operators on expressions and on evaluated operands. Evaluating an expression gives what its operator
means. The operator on the operands gives the same, but for a connective that the left operand decides
alone: there it still answers with the right one. -/
namespace Stencil

namespace BinaryOp

variable {op : BinaryOp} {a b : Value}

/-- The meaning of an operator. Connectives ask both operands whether they are true. -/
def meaning (op : BinaryOp) (a b : Value) : Value :=
  match op with
  | .and => .bool (a.isTruthy && b.isTruthy)
  | .or => .bool (a.isTruthy || b.isTruthy)
  | op => op.apply a b

/-- The left operand decides a connective, and the right one alone would decide otherwise. -/
def Overrules (op : BinaryOp) (a b : Value) : Prop :=
  op = .and ∧ a.isTruthy = false ∧ b.isTruthy = true ∨
    op = .or ∧ a.isTruthy = true ∧ b.isTruthy = false

/-- The shortcut where there is one, and otherwise the operator on both operands. -/
theorem getD_shortcut? (op : BinaryOp) (a b : Value) :
    (op.shortcut? a).getD (op.apply a b) = op.meaning a b := by
  cases op with
  | and | or => cases truth : a.isTruthy <;> simp [shortcut?, meaning, apply, truth]
  | _ => rfl

theorem meaning_eq_apply_iff : op.meaning a b = op.apply a b ↔ ¬ op.Overrules a b := by
  cases op with
  | and | or =>
    cases left : a.isTruthy <;> cases right : b.isTruthy <;>
      simp [meaning, apply, Overrules, left, right]
  | _ => simp [meaning, Overrules]

end BinaryOp

namespace Env

open Stencil.Action

variable {σ : Type} {env : Env σ} {scopes : Scopes} {l r : Expr} {m m₁ m₂ : Memory σ} {a b : Value}

theorem eval_binary (op : BinaryOp) (left : (env.eval scopes l).Gives m a m₁)
    (right : (env.eval scopes r).Gives m₁ b m₂) :
    (env.eval scopes (.binary op l r) m).1 = .ok (op.meaning a b) := by
  unfold Gives at left right
  rw [eval, bind_apply, left, ← op.getD_shortcut?]
  cases shortcut : op.shortcut? a with
  | some v =>
    simp only [shortcut]
    rfl
  | none =>
    simp only [shortcut, bind_apply, right]
    rfl

/-- Where the left operand evaluates to `a`, and after it the right one to `b`, the expression
evaluates to what its operator means; and that is what the operator gives on `a` and `b` unless the left
operand overrules the right one. -/
theorem eval_binary_eq_apply_iff (op : BinaryOp) (left : (env.eval scopes l).Gives m a m₁)
    (right : (env.eval scopes r).Gives m₁ b m₂) :
    (env.eval scopes (.binary op l r) m).1 = .ok (op.meaning a b) ∧
      ((env.eval scopes (.binary op l r) m).1 = .ok (op.apply a b) ↔ ¬ op.Overrules a b) := by
  have value := eval_binary op left right
  refine ⟨value, ?_⟩
  rw [value, Except.ok.injEq, BinaryOp.meaning_eq_apply_iff]

/-- A true operand in front of a connective that it does not decide. -/
theorem eval_binary_eq_apply_of_true :
    let env : Env Nat := ⟨⟨[("x", .string "text")]⟩, {}, .counting⟩
    (env.eval [] (.binary .and (.literal (.bool true)) (.variable "x")) ⟨[], 0⟩).1 =
      .ok (BinaryOp.apply .and (.bool true) (.string "text")) := by
  intro env
  have left : (env.eval [] (.literal (.bool true))).Gives ⟨[], 0⟩ (.bool true) ⟨[], 0⟩ := rfl
  have right : (env.eval [] (.variable "x")).Gives ⟨[], 0⟩ (.string "text") ⟨[], 0⟩ := rfl
  refine (eval_binary_eq_apply_iff .and left right).2.2 ?_
  simp [BinaryOp.Overrules, Value.isTruthy]

/-- The expression `false && true` is false, and the operator on the operands false and true gives
true. -/
theorem eval_false_and_true :
    let env : Env Nat := ⟨⟨[]⟩, {}, .counting⟩
    (env.eval [] (.literal (.bool false))).Gives ⟨[], 0⟩ (.bool false) ⟨[], 0⟩ ∧
      (env.eval [] (.literal (.bool true))).Gives ⟨[], 0⟩ (.bool true) ⟨[], 0⟩ ∧
      (env.eval [] (.binary .and (.literal (.bool false)) (.literal (.bool true))) ⟨[], 0⟩).1 =
        .ok (.bool false) ∧
      BinaryOp.apply .and (.bool false) (.bool true) = .bool true :=
  ⟨rfl, rfl, rfl, rfl⟩

end Env
end Stencil
