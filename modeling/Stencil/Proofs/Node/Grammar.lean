import Stencil.Node.Assembly

/-! The grammar of blocks, said over what the segments of a template say. -/
namespace Stencil

/-- What a segment says, once its inside has been read. -/
inductive Part
  | text (text : String)
  | comment
  | output (value : Expr)
  | tag (tag : LogicTag)

inductive Segment.Reads (limit : Nat) : Segment → Part → Prop
  | text (source : String) (position : Nat) :
      Reads limit ⟨.text, source, position⟩ (.text source)
  | comment (source : String) (position : Nat) :
      Reads limit ⟨.tag .comment, source, position⟩ .comment
  | output {source : String} {position : Nat} {e : Expr} :
      Expr.ofSource source position limit = .ok e →
      Reads limit ⟨.tag .output, source, position⟩ (.output e)
  | logic {source : String} {position : Nat} {tag : LogicTag} :
      LogicTag.ofSource source position limit = .ok tag →
      Reads limit ⟨.tag .logic, source, position⟩ (.tag tag)

namespace Block

/-- A further section of a branch block: its tag, and what follows up to the next one. -/
structure Section where
  word : String
  condition : Expr
  parts : List Part
  nodes : List Node

def Section.written (s : Section) : List Part := .tag (.elseIf s.word s.condition) :: s.parts

def Section.branch (s : Section) : Expr × List Node := (s.condition, s.nodes)

/-- `Derives parts forest`: the parts are a sequence of texts, comments, outputs, assignments and
whole blocks, and they stand for `forest`. -/
inductive Derives : List Part → List Node → Prop
  | nil : Derives [] []
  | append {ps qs : List Part} {ns ms : List Node} :
      Derives ps ns → Derives qs ms → Derives (ps ++ qs) (ns ++ ms)
  | text (s : String) : Derives [.text s] [.text s]
  | comment : Derives [.comment] []
  | output (e : Expr) : Derives [.output e] [.output e]
  | set (x : String) (e : Expr) : Derives [.tag (.set x e)] [.set x e]
  | capture {ps : List Part} {body : List Node} (x : String) :
      Derives ps body →
      Derives (.tag (.openCapture x) :: ps ++ [.tag (.close .capture)]) [.capture x body]
  | loop {ps : List Part} {body : List Node} (k : Option String) (x : String) (e : Expr) :
      Derives ps body →
      Derives (.tag (.openLoop k x e) :: ps ++ [.tag (.close .loop)]) [.loop k x e body none]
  | loopElse {ps qs : List Part} {body other : List Node} (k : Option String) (x : String)
      (e : Expr) :
      Derives ps body → Derives qs other →
      Derives (.tag (.openLoop k x e) :: ps ++ .tag .otherwise :: qs ++ [.tag (.close .loop)])
        [.loop k x e body (some other)]
  | branch {ps : List Part} {body : List Node} {sections : List Section} (test : Expr) :
      Derives ps body → (∀ s ∈ sections, Derives s.parts s.nodes) →
      Derives
        (.tag (.openBranch test) :: ps ++ sections.flatMap Section.written ++
          [.tag (.close .branch)])
        [.branch ((test, body) :: sections.map Section.branch) none]
  | branchElse {ps qs : List Part} {body other : List Node} {sections : List Section}
      (test : Expr) :
      Derives ps body → (∀ s ∈ sections, Derives s.parts s.nodes) → Derives qs other →
      Derives
        (.tag (.openBranch test) :: ps ++ sections.flatMap Section.written ++
          .tag .otherwise :: qs ++ [.tag (.close .branch)])
        [.branch ((test, body) :: sections.map Section.branch) (some other)]

/-- The opening tag of a block: the kind of block, the inside of the tag and where it starts. -/
structure Opening where
  kind : BlockKind
  opener : String
  position : Nat

def Opening.ofSegment (kind : BlockKind) (segment : Segment) : Opening :=
  ⟨kind, String.ofList (Text.trim segment.source.toList), segment.position⟩

/-- The blocks that are open once a part has been passed, innermost first. -/
def pass (blocks : List Opening) : Segment × Part → List Opening
  | (s, .tag (.openCapture _)) => .ofSegment .capture s :: blocks
  | (s, .tag (.openLoop ..)) => .ofSegment .loop s :: blocks
  | (s, .tag (.openBranch _)) => .ofSegment .branch s :: blocks
  | (_, .tag (.close _)) => blocks.tail
  | _ => blocks

def openings (read : List (Segment × Part)) : List Opening := read.foldl pass []

end Block

def Frame.opening (frame : Frame) : Block.Opening :=
  ⟨frame.block.kind, frame.opener, frame.position⟩

/-- The sections that are being collected, innermost first. The last one is the root, which has no
frame. -/
def Assembly.stack (a : Assembly) : List (Option Frame) := a.frames.map some ++ [none]

end Stencil
