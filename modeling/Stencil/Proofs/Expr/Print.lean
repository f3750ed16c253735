import Stencil.Expr.Parser
import Stencil.Proofs.Number.Text
import Stencil.Proofs.Token.Spelling

/-! Expressions written out, with every operand between parentheses. -/
namespace Stencil

/-- A character between double quotes. -/
def escaped (c : Char) : List Char := if c = '\\' ∨ c = '"' then ['\\', c] else [c]

def quoted (s : String) : String := "\"" ++ String.ofList (s.toList.flatMap escaped) ++ "\""

def grouped (s : String) : String := "(" ++ s ++ ")"

def Literal.print : Literal → String
  | .null => "null"
  | .bool b => if b then "true" else "false"
  | .number n => n.text
  | .string s => quoted s

def BinaryOp.symbol : BinaryOp → Symbol
  | .or => .orOr
  | .and => .andAnd
  | .equal => .equal
  | .notEqual => .notEqual
  | .less => .less
  | .atMost => .atMost
  | .greater => .greater
  | .atLeast => .atLeast
  | .add => .plus
  | .subtract => .minus
  | .concat => .tilde
  | .multiply => .star
  | .divide => .slash
  | .remainder => .percent

def UnaryOp.symbol : UnaryOp → Symbol
  | .not => .bang
  | .negate => .minus
  | .plus => .plus

namespace Expr

/-- A key that is a string literal stands as it is, any other one between parentheses. -/
def printKey : Expr → String → String
  | .literal (.string _), key => key
  | _, key => grouped key

/-- Only a string literal can stand behind a dot. -/
def printAccess : Access → Expr → String → String
  | .dot, .literal (.string x), _ => "." ++ x
  | _, _, key => "[" ++ key ++ "]"

mutual

def print : Expr → String
  | .literal value => value.print
  | .variable x => x
  | .binary op l r => grouped (print l) ++ " " ++ op.symbol.text ++ " " ++ grouped (print r)
  | .unary op e => op.symbol.text ++ grouped (print e)
  | .array items => "[" ++ Text.join ", " (printItems items) ++ "]"
  | .mapping entries => "\x7b" ++ Text.join ", " (printEntries entries) ++ "\x7d"
  | .member o k access => grouped (print o) ++ printAccess access k (print k)
  | .filter e x args =>
    grouped (print e) ++ " | " ++ x ++ grouped (Text.join ", " (printItems args))
  | .call x args => x ++ grouped (Text.join ", " (printItems args))
  | .conditional test x y =>
    grouped (print test) ++ " ? " ++ grouped (print x) ++ " : " ++ grouped (print y)

def printItems : List Expr → List String
  | [] => []
  | e :: es => print e :: printItems es

def printEntries : List (Expr × Expr) → List String
  | [] => []
  | (k, v) :: es => (printKey k (print k) ++ ": " ++ print v) :: printEntries es

end

theorem printItems_eq_map (es : List Expr) : printItems es = es.map print := by
  induction es with
  | nil => rfl
  | cons e es ih => simp [printItems, ih]

def printEntry (entry : Expr × Expr) : String :=
  printKey entry.1 entry.1.print ++ ": " ++ entry.2.print

theorem printEntries_eq_map (es : List (Expr × Expr)) : printEntries es = es.map printEntry := by
  induction es with
  | nil => rfl
  | cons e es ih => simp [printEntries, printEntry, ih]

mutual

/-- How many levels the printed expression needs. Parentheses take one each. -/
def nesting : Expr → Nat
  | .literal _ | .variable _ => 1
  | .binary _ l r => max (nesting l) (nesting r) + 1
  | .unary _ e => nesting e + 2
  | .array items => nestingOfItems items + 1
  | .mapping entries => nestingOfEntries entries + 1
  | .member o k _ => max (nesting o) (nesting k) + 1
  | .filter e _ args => max (nesting e) (nestingOfItems args) + 1
  | .call _ args => nestingOfItems args + 1
  | .conditional test x y => max (nesting test) (max (nesting x) (nesting y) + 1) + 1

def nestingOfItems : List Expr → Nat
  | [] => 0
  | e :: es => max (nesting e) (nestingOfItems es)

def nestingOfEntries : List (Expr × Expr) → Nat
  | [] => 0
  | (k, v) :: es => max (max (nesting k) (nesting v)) (nestingOfEntries es)

end

theorem nesting_le_nestingOfItems {e : Expr} {es : List Expr} (member : e ∈ es) :
    nesting e ≤ nestingOfItems es := by
  induction es with
  | nil => cases member
  | cons first others ih =>
    rw [nestingOfItems]
    rcases List.mem_cons.1 member with rfl | member
    · exact le_max_left _ _
    · exact (ih member).trans (le_max_right _ _)

theorem nesting_le_nestingOfEntries {entry : Expr × Expr} {entries : List (Expr × Expr)}
    (member : entry ∈ entries) :
    nesting entry.1 ≤ nestingOfEntries entries ∧ nesting entry.2 ≤ nestingOfEntries entries := by
  induction entries with
  | nil => cases member
  | cons first others ih =>
    obtain ⟨k, v⟩ := first
    rw [nestingOfEntries]
    rcases List.mem_cons.1 member with rfl | member
    · simp
    · have below := ih member
      constructor <;> omega

end Expr

def Literal.IsWritable : Literal → Prop
  | .number n => n.IsWritable
  | _ => True

/-- Expressions whose names are names and whose numbers are writable. A dot stands before a name. -/
inductive Expr.Printable : Expr → Prop
  | literal {value : Literal} : value.IsWritable → Printable (.literal value)
  | name {x : String} : IsName x → Printable (.variable x)
  | binary {l r : Expr} (op : BinaryOp) : Printable l → Printable r → Printable (.binary op l r)
  | unary {e : Expr} (op : UnaryOp) : Printable e → Printable (.unary op e)
  | array {items : List Expr} : (∀ e ∈ items, Printable e) → Printable (.array items)
  | mapping {entries : List (Expr × Expr)} :
      (∀ entry ∈ entries, Printable entry.1) → (∀ entry ∈ entries, Printable entry.2) →
      Printable (.mapping entries)
  | dot {o : Expr} {x : String} :
      Printable o → IsName x → Printable (.member o (.literal (.string x)) .dot)
  | bracket {o k : Expr} : Printable o → Printable k → Printable (.member o k .bracket)
  | filter {e : Expr} {x : String} {args : List Expr} :
      Printable e → IsName x → (∀ arg ∈ args, Printable arg) → Printable (.filter e x args)
  | call {x : String} {args : List Expr} :
      IsName x → (∀ arg ∈ args, Printable arg) → Printable (.call x args)
  | conditional {test x y : Expr} :
      Printable test → Printable x → Printable y → Printable (.conditional test x y)

end Stencil
