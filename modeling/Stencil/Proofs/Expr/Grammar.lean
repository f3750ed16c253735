import Stencil.Expr.Parser

/-! The grammar of expressions, said over tokens alone. A derivation also counts how deep it nests:
one level for every expression and one more for every unary operator in a row. -/
namespace Stencil

/-- The tokens that write an operator between two operands. -/
def BinaryOp.spellings : BinaryOp → List Token
  | .or => [.symbol .orOr, .keyword .or]
  | .and => [.symbol .andAnd, .keyword .and]
  | .equal => [.symbol .equal]
  | .notEqual => [.symbol .notEqual]
  | .less => [.symbol .less]
  | .atMost => [.symbol .atMost]
  | .greater => [.symbol .greater]
  | .atLeast => [.symbol .atLeast]
  | .add => [.symbol .plus]
  | .subtract => [.symbol .minus]
  | .concat => [.symbol .tilde]
  | .multiply => [.symbol .star]
  | .divide => [.symbol .slash]
  | .remainder => [.symbol .percent]

/-- The tokens that write an operator in front of its operand. -/
def UnaryOp.spellings : UnaryOp → List Token
  | .not => [.symbol .bang, .keyword .not]
  | .negate => [.symbol .minus]
  | .plus => [.symbol .plus]

namespace Grammar

inductive Phrase
  | expression
  /-- Operands joined by operators of this precedence or a higher one. -/
  | chain (precedence : Nat)
  | unary
  /-- An operand with member accesses and filters behind it. -/
  | suffixed
  | primary
  | key
  | entry
  /-- Items with commas between them. -/
  | list (item : Phrase)

/-- What a phrase stands for. -/
def Phrase.Tree : Phrase → Type
  | .list item => List item.Tree
  | .entry => Expr × Expr
  | _ => Expr

inductive IsLiteral : Token → Literal → Prop
  | null : IsLiteral (.keyword .null) .null
  | true : IsLiteral (.keyword .true) (.bool true)
  | false : IsLiteral (.keyword .false) (.bool false)
  | number (n : Number) : IsLiteral (.number n) (.number n)
  | string (content : String) (quote : Quote) : IsLiteral (.string content quote) (.string content)

/-- The tokens that may follow a dot. A number is the text it prints as. -/
inductive IsMemberName : Token → String → Prop
  | name (x : String) : IsMemberName (.name x) x
  | number (n : Number) : IsMemberName (.number n) n.text

/-- The tokens that may be the key of an entry. -/
inductive IsKey : Token → String → Prop
  | memberName {t : Token} {x : String} : IsMemberName t x → IsKey t x
  | string (content : String) (quote : Quote) : IsKey (.string content quote) content

/-- `Derives p ts tree n`: the tokens `ts` are a phrase `p` that stands for `tree` and nests `n`
levels deep. -/
inductive Derives : (p : Phrase) → List Token → p.Tree → Nat → Prop
  | plain {ts : List Token} {e : Expr} {n : Nat} :
      Derives (.chain 1) ts e n → Derives .expression ts e (n + 1)
  | conditional {ts us vs : List Token} {test x y : Expr} {a b c : Nat} :
      Derives (.chain 1) ts test a → Derives .expression us x b → Derives .expression vs y c →
      Derives .expression (ts ++ .symbol .question :: us ++ .symbol .colon :: vs)
        (.conditional test x y) (max a (max b c) + 1)
  | operand {ts : List Token} {e : Expr} {n : Nat} :
      Derives .unary ts e n → Derives (.chain 7) ts e n
  | tighter {p : Nat} {ts : List Token} {e : Expr} {n : Nat} :
      p < 7 → Derives (.chain (p + 1)) ts e n → Derives (.chain p) ts e n
  /-- The left operand may hold operators of the same precedence, the right one may not. -/
  | binary {op : BinaryOp} {t : Token} {ts us : List Token} {l r : Expr} {a b : Nat} :
      Derives (.chain op.precedence) ts l a → t ∈ op.spellings →
      Derives (.chain (op.precedence + 1)) us r b →
      Derives (.chain op.precedence) (ts ++ t :: us) (.binary op l r) (max a b)
  | unary {op : UnaryOp} {t : Token} {ts : List Token} {e : Expr} {n : Nat} :
      t ∈ op.spellings → Derives .unary ts e n → Derives .unary (t :: ts) (.unary op e) (n + 1)
  | unsigned {ts : List Token} {e : Expr} {n : Nat} :
      Derives .suffixed ts e n → Derives .unary ts e n
  | bare {ts : List Token} {e : Expr} {n : Nat} :
      Derives .primary ts e n → Derives .suffixed ts e n
  | dot {ts : List Token} {t : Token} {o : Expr} {x : String} {n : Nat} :
      Derives .suffixed ts o n → IsMemberName t x →
      Derives .suffixed (ts ++ [.symbol .dot, t]) (.member o (.literal (.string x)) .dot) n
  | bracket {ts us : List Token} {o k : Expr} {a b : Nat} :
      Derives .suffixed ts o a → Derives .expression us k b →
      Derives .suffixed (ts ++ .symbol .openBracket :: us ++ [.symbol .closeBracket])
        (.member o k .bracket) (max a b)
  | filter {ts : List Token} {e : Expr} {x : String} {n : Nat} :
      Derives .suffixed ts e n →
      Derives .suffixed (ts ++ [.symbol .pipe, .name x]) (.filter e x []) n
  | filterWith {ts us : List Token} {e : Expr} {x : String} {args : List Expr} {a b : Nat} :
      Derives .suffixed ts e a → Derives (.list .expression) us args b →
      Derives .suffixed
        (ts ++ .symbol .pipe :: .name x :: .symbol .openParen :: us ++ [.symbol .closeParen])
        (.filter e x args) (max a b)
  | literal {t : Token} {value : Literal} :
      IsLiteral t value → Derives .primary [t] (.literal value) 0
  | name (x : String) : Derives .primary [.name x] (.variable x) 0
  | call {ts : List Token} {x : String} {args : List Expr} {n : Nat} :
      Derives (.list .expression) ts args n →
      Derives .primary (.name x :: .symbol .openParen :: ts ++ [.symbol .closeParen])
        (.call x args) n
  | group {ts : List Token} {e : Expr} {n : Nat} :
      Derives .expression ts e n →
      Derives .primary (.symbol .openParen :: ts ++ [.symbol .closeParen]) e n
  | array {ts : List Token} {items : List Expr} {n : Nat} :
      Derives (.list .expression) ts items n →
      Derives .primary (.symbol .openBracket :: ts ++ [.symbol .closeBracket]) (.array items) n
  | mapping {ts : List Token} {entries : List (Expr × Expr)} {n : Nat} :
      Derives (.list .entry) ts entries n →
      Derives .primary (.symbol .openBrace :: ts ++ [.symbol .closeBrace]) (.mapping entries) n
  | key {t : Token} {x : String} : IsKey t x → Derives .key [t] (.literal (.string x)) 0
  | computedKey {ts : List Token} {e : Expr} {n : Nat} :
      Derives .expression ts e n →
      Derives .key (.symbol .openParen :: ts ++ [.symbol .closeParen]) e n
  | entry {ts us : List Token} {k v : Expr} {a b : Nat} :
      Derives .key ts k a → Derives .expression us v b →
      Derives .entry (ts ++ .symbol .colon :: us) (k, v) (max a b)
  | nil {p : Phrase} : Derives (.list p) [] [] 0
  | last {p : Phrase} {ts : List Token} {x : p.Tree} {n : Nat} :
      Derives p ts x n → Derives (.list p) ts [x] n
  /-- The rest may be empty, so a comma may stand at the end. -/
  | cons {p : Phrase} {ts us : List Token} {x : p.Tree} {xs : List p.Tree} {a b : Nat} :
      Derives p ts x a → Derives (.list p) us xs b →
      Derives (.list p) (ts ++ .symbol .comma :: us) (x :: xs) (max a b)

theorem Derives.looser {j k n : Nat} {ts : List Token} {e : Expr} (le : j ≤ k) (bound : k ≤ 7)
    (derived : Derives (.chain k) ts e n) : Derives (.chain j) ts e n := by
  induction le with
  | refl => exact derived
  | @step k _ ih => exact ih (by omega) (.tighter (by omega) derived)

theorem Derives.chain {j n : Nat} {ts : List Token} {e : Expr} (derived : Derives .suffixed ts e n)
    (bound : j ≤ 7) : Derives (.chain j) ts e n :=
  Derives.looser bound (Nat.le_refl 7) (.operand (.unsigned derived))

theorem Derives.whole {n : Nat} {ts : List Token} {e : Expr} (derived : Derives .suffixed ts e n) :
    Derives .expression ts e (n + 1) :=
  .plain (derived.chain (by omega))

end Grammar

theorem BinaryOp.precedence_pos (op : BinaryOp) : 0 < op.precedence := by cases op <;> decide

theorem BinaryOp.precedence_lt (op : BinaryOp) : op.precedence < 7 := by cases op <;> decide

theorem BinaryOp.ofToken?_eq_some_iff {t : Token} {op : BinaryOp} :
    ofToken? t = some op ↔ t ∈ op.spellings := by
  constructor
  · intro h
    unfold ofToken? at h
    split at h <;> simp at h <;> subst h <;> simp [spellings]
  · intro h
    cases op <;> simp only [spellings, List.mem_cons, List.not_mem_nil, or_false] at h
    case or | and => rcases h with rfl | rfl <;> rfl
    all_goals subst h; rfl

theorem UnaryOp.ofToken?_eq_some_iff {t : Token} {op : UnaryOp} :
    ofToken? t = some op ↔ t ∈ op.spellings := by
  constructor
  · intro h
    unfold ofToken? at h
    split at h <;> simp at h <;> subst h <;> simp [spellings]
  · intro h
    cases op <;> simp only [spellings, List.mem_cons, List.not_mem_nil, or_false] at h
    case not => rcases h with rfl | rfl <;> rfl
    all_goals subst h; rfl

end Stencil
