import Stencil.Action
import Stencil.Expr
import Stencil.Token.Lexer

/-! Reading expressions from tokens. Every nested expression and every stacked unary operator takes
one of a limited number of levels. -/
namespace Stencil

/-- The tokens that are left of a tag. -/
structure Cursor where
  rest : List Placed
  /-- The byte offset just past the tag's inside, where errors at its end are reported. -/
  stop : Nat
  /-- How deep expressions may nest. -/
  limit : Nat
deriving DecidableEq

abbrev Parse := Action Cursor

namespace Cursor

def ofTokens (tokens : List Placed) (stop limit : Nat) : Cursor := ⟨tokens, stop, limit⟩

def ofSource (source : String) (offset limit : Nat) : Except Error Cursor :=
  (tokenize source offset).map (ofTokens · (offset + source.utf8ByteSize) limit)

/-- An error that points at the next token. -/
def error (c : Cursor) (fault : ParseFault) : Error :=
  match c.rest with
  | placed :: _ => .parse fault (some placed.token) placed.position
  | [] => .parse fault none c.stop

end Cursor

namespace Parse

def peek : Parse (Option Token) := fun c => (.ok (c.rest.head?.map Placed.token), c)

def advance : Parse Unit := fun c => (.ok (), { c with rest := c.rest.tail })

def fail {α : Type} (fault : ParseFault) : Parse α := fun c => (.error (c.error fault), c)

def isAtEnd : Parse Bool := fun c => (.ok c.rest.isEmpty, c)

/-- How many tokens are left. Each round of a loop takes one, so this many rounds are enough. -/
def remaining : Parse Nat := fun c => (.ok c.rest.length, c)

def isNext (token : Token) : Parse Bool := return (← peek) == some token

/-- Passes over `token` if it comes next. -/
def accept (token : Token) : Parse Bool := do
  if ← isNext token then
    advance
    return true
  return false

def expect (token : Token) : Parse Unit := do
  unless ← accept token do fail (.expectedToken token)

def expectName (role : NameRole) : Parse String := do
  match ← peek with
  | some (.name name) => advance; return name
  | _ => fail (.expectedName role)

def expectEnd : Parse Unit := do
  unless ← isAtEnd do fail .trailing

def tooDeep {α : Type} : Parse α := fun c => (.error (c.error (.tooDeep c.limit)), c)

end Parse

def BinaryOp.ofToken? : Token → Option BinaryOp
  | .symbol .orOr | .keyword .or => some .or
  | .symbol .andAnd | .keyword .and => some .and
  | .symbol .equal => some .equal
  | .symbol .notEqual => some .notEqual
  | .symbol .less => some .less
  | .symbol .atMost => some .atMost
  | .symbol .greater => some .greater
  | .symbol .atLeast => some .atLeast
  | .symbol .plus => some .add
  | .symbol .minus => some .subtract
  | .symbol .tilde => some .concat
  | .symbol .star => some .multiply
  | .symbol .slash => some .divide
  | .symbol .percent => some .remainder
  | _ => none

def UnaryOp.ofToken? : Token → Option UnaryOp
  | .symbol .bang | .keyword .not => some .not
  | .symbol .minus => some .negate
  | .symbol .plus => some .plus
  | _ => none

namespace Parse

/-- Operators of precedence `least` or a higher one, joined to `left` one after the other, each with
a right operand in which only tighter ones stand. -/
def climbFrom (least : Nat) (right : Nat → Parse Expr) : Nat → Expr → Parse Expr
  | 0, left => pure left
  | rounds + 1, left => do
    match (← peek).bind BinaryOp.ofToken? with
    | none => pure left
    | some op =>
      if op.precedence < least then pure left
      else
        advance
        let tighter ← right (op.precedence + 1)
        climbFrom least right rounds (.binary op left tighter)

/-- An operand, with the operators of precedence `least` or a higher one behind it. A right operand is
read with a higher `least` on one level fewer; seven levels are enough for six precedences. -/
def climb (operand : Parse Expr) : Nat → Nat → Parse Expr
  | 0, _ => operand
  | levels + 1, least => do
    let left ← operand
    climbFrom least (climb operand levels) (← remaining) left

def conditional (operand expression : Parse Expr) : Parse Expr := do
  let test ← climb operand 7 1
  if ← accept (.symbol .question) then
    let whenTrue ← expression
    expect (.symbol .colon)
    let whenFalse ← expression
    return .conditional test whenTrue whenFalse
  return test

/-- Items with commas between them up to `close`; a comma may stand before it. -/
def items {α : Type} (close : Symbol) (item : Parse α) : Nat → Parse (List α)
  | 0 => fail .expectedExpression
  | rounds + 1 => do
    if ← accept (.symbol close) then return []
    let first ← item
    unless ← accept (.symbol .comma) do
      unless ← isNext (.symbol close) do fail (.expectedSeparator close)
    return first :: (← items close item rounds)

/-- A list whose opening symbol has been passed. -/
def list {α : Type} (close : Symbol) (item : Parse α) : Parse (List α) := do
  items close item ((← remaining) + 1)

/-- The key of a mapping entry. A name or a number is the string it is written as. -/
def key (expression : Parse Expr) : Parse Expr := do
  match ← peek with
  | some (.string content _) => advance; return .literal (.string content)
  | some (.number n) => advance; return .literal (.string n.text)
  | some (.name name) => advance; return .literal (.string name)
  | some (.symbol .openParen) =>
    advance
    let inner ← expression
    expect (.symbol .closeParen)
    return inner
  | _ => fail .expectedKey

def entry (expression : Parse Expr) : Parse (Expr × Expr) := do
  let k ← key expression
  expect (.symbol .colon)
  let value ← expression
  return (k, value)

def arguments (expression : Parse Expr) : Parse (List Expr) := list .closeParen expression

/-- An expression that begins with a token of its own. The token is passed even if it cannot begin
one. -/
def primary (expression : Parse Expr) : Parse Expr := fun c =>
  match c.rest with
  | [] => fail .expectedExpression c
  | first :: _ =>
    let start : Parse Expr := do
      advance
      match first.token with
      | .number n => return .literal (.number n)
      | .string content _ => return .literal (.string content)
      | .keyword .true => return .literal (.bool true)
      | .keyword .false => return .literal (.bool false)
      | .keyword .null => return .literal .null
      | .name name =>
        if ← accept (.symbol .openParen) then return .call name (← arguments expression)
        return .variable name
      | .symbol .openParen =>
        let inner ← expression
        expect (.symbol .closeParen)
        return inner
      | .symbol .openBracket => return .array (← list .closeBracket expression)
      | .symbol .openBrace => return .mapping (← list .closeBrace (entry expression))
      | _ => throw (c.error .expectedExpression)
    start c

/-- The key after a dot. -/
def memberName : Parse String := do
  match ← peek with
  | some (.name name) => advance; return name
  | some (.number n) => advance; return n.text
  | _ => fail .expectedAttribute

/-- Member accesses and filters, applied to `base` one after the other. -/
def suffixes (expression : Parse Expr) : Nat → Expr → Parse Expr
  | 0, base => pure base
  | rounds + 1, base => do
    if ← accept (.symbol .dot) then
      let name ← memberName
      suffixes expression rounds (.member base (.literal (.string name)) .dot)
    else if ← accept (.symbol .openBracket) then
      let inner ← expression
      expect (.symbol .closeBracket)
      suffixes expression rounds (.member base inner .bracket)
    else if ← accept (.symbol .pipe) then
      let name ← expectName .filter
      let args ← if ← accept (.symbol .openParen) then arguments expression else pure []
      suffixes expression rounds (.filter base name args)
    else pure base

/-- Does the token begin a suffix? -/
def startsSuffix (token : Token) : Bool :=
  token == .symbol .dot || token == .symbol .openBracket || token == .symbol .pipe

def suffixed (expression : Parse Expr) : Parse Expr := do
  let base ← primary expression
  if (← peek).any startsSuffix then suffixes expression (← remaining) base
  else pure base

/-- A unary operator with its operand, or an operand without one. -/
def operand (deeper expression : Parse Expr) : Parse Expr := do
  match (← peek).bind UnaryOp.ofToken? with
  | some op =>
    advance
    return .unary op (← deeper)
  | none => suffixed expression

inductive Goal
  | expression
  | operand
deriving DecidableEq, Repr

/-- Reads an expression, or an operand, that may nest `room` levels deep. -/
def nested : Nat → Goal → Parse Expr
  | 0, .expression => fun c => tooDeep c
  | 0, .operand => fun c => operand tooDeep tooDeep c
  | room + 1, .expression => fun c =>
    conditional (nested room .operand) (nested room .expression) c
  | room + 1, .operand => fun c =>
    operand (nested room .operand)
      (conditional (nested room .operand) (nested room .expression)) c

/-- One expression from the front of the tokens. -/
def expression : Parse Expr := fun c => nested c.limit .expression c

end Parse

/-- A complete expression. -/
def Expr.ofCursor (c : Cursor) : Except Error Expr :=
  (do
    let e ← Parse.expression
    Parse.expectEnd
    return e : Parse Expr) c |>.1

/-- Reads the inside of an output tag, which starts at byte `offset`. -/
def Expr.ofSource (source : String) (offset limit : Nat) : Except Error Expr := do
  Expr.ofCursor (← Cursor.ofSource source offset limit)

end Stencil
