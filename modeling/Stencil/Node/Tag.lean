import Stencil.Expr.Parser

/-! Logic tags: what stands between the percent signs. -/
namespace Stencil

inductive LogicTag
  | set (name : String) (value : Expr)
  | openCapture (name : String)
  | openLoop (key : Option String) (value : String) (iterable : Expr)
  | openBranch (condition : Expr)
  /-- `word` is the spelling of the tag. -/
  | elseIf (word : String) (condition : Expr)
  | otherwise
  | close (block : BlockKind)
deriving BEq

namespace LogicTag

open Parse

def endOfTag (tag : LogicTag) : Parse LogicTag := do
  expectEnd
  return tag

/-- The variables of a loop: a value, or a key and a value. -/
def loopVariables : Parse (Option String × String) := do
  let first ← expectName .loopVariable
  if ← accept (.symbol .comma) then return (some first, ← expectName .loopValue)
  return (none, first)

/-- What follows the name of a tag. An unknown name is blamed on the start of the tag. -/
def body (start : Nat) : String → Parse LogicTag
  | "set" => do
    let name ← expectName .assigned
    if ← isAtEnd then return .openCapture name
    expect (.symbol .assign)
    endOfTag (.set name (← expression))
  | "for" => do
    let (key, value) ← loopVariables
    expect (.keyword .in)
    endOfTag (.openLoop key value (← expression))
  | "if" => do endOfTag (.openBranch (← expression))
  | "elseif" => do endOfTag (.elseIf "elseif" (← expression))
  | "elif" => do endOfTag (.elseIf "elif" (← expression))
  | "else" => endOfTag .otherwise
  | "endfor" => endOfTag (.close .loop)
  | "endif" => endOfTag (.close .branch)
  | "endset" => endOfTag (.close .capture)
  | word => throw (.parse .unknownTag (some (.name word)) start)

def read (start : Nat) : Parse LogicTag := do body start (← expectName .tag)

/-- Reads the inside of a logic tag, which starts at byte `offset`. -/
def ofSource (source : String) (offset limit : Nat) : Except Error LogicTag := do
  (read offset (← Cursor.ofSource source offset limit)).1

end LogicTag
end Stencil
