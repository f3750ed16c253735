import Stencil.Number.Layout

/-! Tokens: the words inside a tag, and how error messages show them. -/
namespace Stencil

inductive Keyword
  | true | false | null | and | or | not | in
deriving DecidableEq, Repr

def Keyword.text : Keyword → String
  | .true => "true"
  | .false => "false"
  | .null => "null"
  | .and => "and"
  | .or => "or"
  | .not => "not"
  | .in => "in"

/-- Words that are no names. `none` is another spelling of `null`. -/
def Keyword.ofText? : String → Option Keyword
  | "true" => some .true
  | "false" => some .false
  | "null" => some .null
  | "none" => some .null
  | "and" => some .and
  | "or" => some .or
  | "not" => some .not
  | "in" => some .in
  | _ => none

inductive Symbol
  | plus | minus | star | slash | percent | tilde
  | equal | notEqual | less | atMost | greater | atLeast
  | andAnd | orOr | bang | assign | question
  | dot | comma | colon | pipe
  | openBracket | closeBracket | openParen | closeParen | openBrace | closeBrace
deriving DecidableEq, Repr

def Symbol.text : Symbol → String
  | .plus => "+"
  | .minus => "-"
  | .star => "*"
  | .slash => "/"
  | .percent => "%"
  | .tilde => "~"
  | .equal => "=="
  | .notEqual => "!="
  | .less => "<"
  | .atMost => "<="
  | .greater => ">"
  | .atLeast => ">="
  | .andAnd => "&&"
  | .orOr => "||"
  | .bang => "!"
  | .assign => "="
  | .question => "?"
  | .dot => "."
  | .comma => ","
  | .colon => ":"
  | .pipe => "|"
  | .openBracket => "["
  | .closeBracket => "]"
  | .openParen => "("
  | .closeParen => ")"
  | .openBrace => "\x7b"
  | .closeBrace => "\x7d"

inductive Quote
  | single
  | double
deriving DecidableEq, Repr

def Quote.char : Quote → Char
  | .single => '\''
  | .double => '"'

def Quote.ofChar? : Char → Option Quote
  | '\'' => some .single
  | '"' => some .double
  | _ => none

inductive Token
  | keyword (word : Keyword)
  | symbol (symbol : Symbol)
  | name (name : String)
  | number (value : Number)
  /-- A string literal: its decoded content, and the quote around it. -/
  | string (value : String) (quote : Quote)
deriving DecidableEq

namespace Token

/-- The token as error messages show it. -/
def display : Token → String
  | .keyword w => "`" ++ w.text ++ "`"
  | .symbol s => "`" ++ s.text ++ "`"
  | .name n => "`" ++ n ++ "`"
  | .number n => Number.Layout.positional.write n
  | .string content quote => quote.char.toString ++ content ++ quote.char.toString

end Token

/-- A token and the byte offset where it starts. -/
structure Placed where
  token : Token
  position : Nat
deriving DecidableEq

end Stencil
