import Stencil.Config
import Stencil.Node
import Stencil.Node.Tag
import Stencil.Segment

/-! Putting the segments of a template together. Opening tags wait on a stack, innermost first, with
the nodes collected so far; an end tag turns the innermost one into a node of the one around it. -/
namespace Stencil

/-- What an open block knows of its node. -/
inductive OpenBlock
  /-- `body` is complete once `else` has been passed. -/
  | loop (key : Option String) (value : String) (iterable : Expr) (body : Option (List Node))
  /-- `pending` is the condition of the section being collected; it has none after `else`. -/
  | branch (branches : List (Expr × List Node)) (pending : Option Expr)
  | capture (name : String)

namespace OpenBlock

def kind : OpenBlock → BlockKind
  | .loop .. => .loop
  | .branch .. => .branch
  | .capture .. => .capture

/-- The finished node, when `nodes` are those of the last section. -/
def finish (nodes : List Node) : OpenBlock → Node
  | .loop key value iterable (some body) => .loop key value iterable body (some nodes)
  | .loop key value iterable none => .loop key value iterable nodes none
  | .branch branches (some condition) => .branch (branches ++ [(condition, nodes)]) none
  | .branch branches none => .branch branches (some nodes)
  | .capture name => .capture name nodes

end OpenBlock

/-- An open block and the tag that opened it. -/
structure Frame where
  block : OpenBlock
  /-- The inside of the opening tag, without white space around it. -/
  opener : String
  /-- The byte offset of that inside. -/
  position : Nat
  /-- The nodes of the section being collected. -/
  nodes : List Node

/-- The nodes outside all blocks, and the open blocks, innermost first. -/
structure Assembly where
  nodes : List Node
  frames : List Frame

namespace Assembly

def empty : Assembly := ⟨[], []⟩

/-- Adds a node to the innermost section. -/
def push (a : Assembly) (node : Node) : Assembly :=
  match a.frames with
  | [] => { a with nodes := a.nodes ++ [node] }
  | frame :: outer => { a with frames := { frame with nodes := frame.nodes ++ [node] } :: outer }

def openBlock (a : Assembly) (segment : Segment) (block : OpenBlock) : Assembly :=
  let opener := String.ofList (Text.trim segment.source.toList)
  { a with frames := ⟨block, opener, segment.position, []⟩ :: a.frames }

/-- The error for a tag that has no place in the innermost block. -/
def unexpected (a : Assembly) (tag : String) : Error :=
  match a.frames with
  | [] => .tagMismatch (.noOpenBlock tag) none
  | frame :: _ => .tagMismatch (.inside tag frame.block.kind frame.position) (some frame.opener)

/-- Starts the section of another condition. -/
def elseIf (a : Assembly) (word : String) (condition : Expr) : Except Error Assembly :=
  match a.frames with
  | frame :: outer =>
    match frame.block with
    | .branch branches (some previous) =>
      let block := OpenBlock.branch (branches ++ [(previous, frame.nodes)]) (some condition)
      .ok { a with frames := { frame with block, nodes := [] } :: outer }
    | .branch _ none => .error (.tagMismatch (.afterElse word) (some frame.opener))
    | _ => .error (a.unexpected word)
  | [] => .error (a.unexpected word)

/-- Starts the section that stands for all other cases. -/
def otherwise (a : Assembly) : Except Error Assembly :=
  match a.frames with
  | frame :: outer =>
    let restart (block : OpenBlock) : Except Error Assembly :=
      .ok { a with frames := { frame with block, nodes := [] } :: outer }
    match frame.block with
    | .branch branches (some previous) => restart (.branch (branches ++ [(previous, frame.nodes)]) none)
    | .loop key value iterable none => restart (.loop key value iterable (some frame.nodes))
    | .capture _ => .error (a.unexpected "else")
    | _ => .error (.tagMismatch (.secondElse frame.block.kind) (some frame.opener))
  | [] => .error (a.unexpected "else")

/-- Finishes the innermost block, which must be of this kind. -/
def close (a : Assembly) (kind : BlockKind) : Except Error Assembly :=
  match a.frames with
  | frame :: outer =>
    if frame.block.kind = kind then
      .ok (push { a with frames := outer } (frame.block.finish frame.nodes))
    else .error (a.unexpected ("end" ++ kind.keyword))
  | [] => .error (a.unexpected ("end" ++ kind.keyword))

def tag (a : Assembly) (segment : Segment) : LogicTag → Except Error Assembly
  | .set name value => .ok (a.push (.set name value))
  | .openCapture name => .ok (a.openBlock segment (.capture name))
  | .openLoop key value iterable => .ok (a.openBlock segment (.loop key value iterable none))
  | .openBranch condition => .ok (a.openBlock segment (.branch [] (some condition)))
  | .elseIf word condition => a.elseIf word condition
  | .otherwise => a.otherwise
  | .close kind => a.close kind

/-- Takes the next segment. Tags are read with at most `limit` levels of nesting. -/
def add (limit : Nat) (a : Assembly) (segment : Segment) : Except Error Assembly :=
  match segment.kind with
  | .text => .ok (a.push (.text segment.source))
  | .tag .comment => .ok a
  | .tag .output =>
    (Expr.ofSource segment.source segment.position limit).map fun e => a.push (.output e)
  | .tag .logic => do
    a.tag segment (← LogicTag.ofSource segment.source segment.position limit)

/-- The forest, once every block is closed. -/
def finish (a : Assembly) : Except Error (List Node) :=
  match a.frames with
  | [] => .ok a.nodes
  | frame :: _ =>
    .error (.tagMismatch (.unclosed frame.block.kind frame.position) (some frame.opener))

end Assembly

/-- The forest of a list of segments. -/
def Node.ofSegments (limit : Nat) (segments : List Segment) : Except Error (List Node) := do
  (← segments.foldlM (Assembly.add limit) Assembly.empty).finish

/-- Compiles the source of a template. -/
def Node.ofSource (source : String) (config : Config) : Except Error (List Node) := do
  Node.ofSegments config.maxDepth (← Segment.split source config.trimBlocks)

end Stencil
