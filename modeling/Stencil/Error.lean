import Stencil.Filter.Catalog
import Stencil.Token
import Stencil.Value.Kind

/-! Everything that can go wrong, as causes. The wording stands in `message` alone. -/
namespace Stencil

/-- The tags of a template, by what stands between the delimiters. -/
inductive Tag
  | output | logic | comment
deriving DecidableEq, Repr

/-- The second character of the opening delimiter; the first is a brace. -/
def Tag.openMark : Tag → Char
  | .output => '{'
  | .logic => '%'
  | .comment => '#'

/-- The first character of the closing delimiter; the second is a brace. -/
def Tag.closeMark : Tag → Char
  | .output => '}'
  | .logic => '%'
  | .comment => '#'

def Tag.close (t : Tag) : String := String.ofList [t.closeMark, '}']

/-- The blocks that have an end tag. -/
inductive BlockKind
  | loop | branch | capture
deriving DecidableEq, Repr

def BlockKind.keyword : BlockKind → String
  | .loop => "for"
  | .branch => "if"
  | .capture => "set"

inductive LexFault
  | unterminatedTag (tag : Tag)
  | unterminatedString
  | unexpected (c : Char)
  | invalidNumber (text : String)
deriving DecidableEq, Repr

def LexFault.message : LexFault → String
  | .unterminatedTag tag => "unterminated tag, expected `" ++ tag.close ++ "`"
  | .unterminatedString => "unterminated string literal"
  | .unexpected c => "unexpected character `" ++ c.toString ++ "`"
  | .invalidNumber text => "invalid number `" ++ text ++ "`"

/-- What a name that has to come next stands for. -/
inductive NameRole
  | tag | assigned | loopVariable | loopValue | filter
deriving DecidableEq, Repr

def NameRole.text : NameRole → String
  | .tag => "tag name"
  | .assigned => "variable name after `set`"
  | .loopVariable => "loop variable after `for`"
  | .loopValue => "loop value variable"
  | .filter => "filter name after `|`"

inductive ParseFault
  | tooDeep (limit : Nat)
  | expectedToken (token : Token)
  | expectedName (role : NameRole)
  | expectedAttribute
  | expectedExpression
  | expectedKey
  | expectedSeparator (close : Symbol)
  | trailing
  | unknownTag
deriving DecidableEq

def ParseFault.message : ParseFault → String
  | .tooDeep limit => "expression nested deeper than " ++ Nat.repr limit ++ " levels"
  | .expectedToken token => "expected " ++ token.display
  | .expectedName role => "expected " ++ role.text
  | .expectedAttribute => "expected attribute name after `.`"
  | .expectedExpression => "expected expression"
  | .expectedKey => "expected mapping key"
  | .expectedSeparator close => "expected `,` or " ++ (Token.symbol close).display
  | .trailing => "unexpected trailing input"
  | .unknownTag => "unknown tag"

/-- A tag that does not fit the open blocks. Positions are those of the innermost open block. -/
inductive TagFault
  | noOpenBlock (tag : String)
  | inside (tag : String) (block : BlockKind) (position : Nat)
  | afterElse (tag : String)
  | secondElse (block : BlockKind)
  | unclosed (block : BlockKind) (position : Nat)
deriving DecidableEq, Repr

def TagFault.message : TagFault → String
  | .noOpenBlock tag => "unexpected `" ++ tag ++ "` with no open block"
  | .inside tag block position =>
    "unexpected `" ++ tag ++ "` inside `" ++ block.keyword ++ "` opened at byte " ++
      Nat.repr position
  | .afterElse tag => "`" ++ tag ++ "` after `else`"
  | .secondElse block => "second `else` in the same `" ++ block.keyword ++ "`"
  | .unclosed block position =>
    "unclosed `" ++ block.keyword ++ "` tag opened at byte " ++ Nat.repr position ++
      ", expected `end" ++ block.keyword ++ "`"

inductive EvalFault
  /-- A failure that the host reports from one of its callables. -/
  | host (message : String)
  | tooDeep (limit : Nat)
  | tooManyIterations (limit : Nat)
  | unsuitable (filter : Filter) (got : Kind)
  | unsuitableArgument (filter : Filter) (got : Kind)
  | unknownZone (text : String)
  | unknownDate (text : String)
  | infiniteTimestamp
  | timestampOutOfRange (milliseconds : Number)
  | contextNotObject (got : Kind)
deriving DecidableEq

def EvalFault.message : EvalFault → String
  | .host message => message
  | .tooDeep limit => "block nesting exceeds max depth " ++ Nat.repr limit
  | .tooManyIterations limit => "more than " ++ Nat.repr limit ++ " loop iterations"
  | .unsuitable filter got => filter.name ++ " expects " ++ filter.expects ++ ", got " ++ got.name
  | .unsuitableArgument filter got =>
    filter.name ++ " expects array or mapping arguments, got " ++ got.name
  | .unknownZone text => "date: unrecognized timezone `" ++ text ++ "`"
  | .unknownDate text => "date: unrecognized date `" ++ text ++ "`"
  | .infiniteTimestamp => "date: timestamp is not finite"
  | .timestampOutOfRange milliseconds =>
    "date: timestamp " ++ Number.Layout.positional.write milliseconds ++ " out of range"
  | .contextNotObject got => "context must be a JSON object, got " ++ got.name

inductive Error
  | lex (fault : LexFault) (position : Nat)
  /-- `found` is the token at fault; none stands for the end of the tag. -/
  | parse (fault : ParseFault) (found : Option Token) (position : Nat)
  /-- `opener` is the inside of the tag that opened the innermost open block. -/
  | tagMismatch (fault : TagFault) (opener : Option String)
  | unknownFilter (name : String)
  | evaluation (fault : EvalFault)
  | templateNotFound (reference : String)
  /-- A count passed the largest machine word and stops the program. No caller is given this error. -/
  | overflow
deriving DecidableEq

namespace Error

/-- How a message shows the token at fault. -/
def foundText : Option Token → String
  | some token => token.display
  | none => "end of tag"

def message : Error → String
  | .lex fault position => "Lex error at byte " ++ Nat.repr position ++ ": " ++ fault.message
  | .parse fault found position =>
    "Parse error at byte " ++ Nat.repr position ++ ": " ++ fault.message ++ " (found " ++
      foundText found ++ ")"
  | .tagMismatch fault _ => "Tag mismatch: " ++ fault.message
  | .unknownFilter name => "Unknown filter: " ++ name
  | .evaluation fault => "Evaluation error: " ++ fault.message
  | .templateNotFound reference => "Template not found: " ++ reference
  | .overflow => "attempt to add with overflow"

/-- Errors of compiling, as opposed to rendering. -/
def isCompileError : Error → Bool
  | .lex .. | .parse .. | .tagMismatch .. => true
  | _ => false

end Error
end Stencil
