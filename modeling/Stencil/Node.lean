import Stencil.Expr

/-! Nodes: the forest that a template is compiled to. -/
namespace Stencil

inductive Node
  | text (text : String)
  | output (value : Expr)
  | set (name : String) (value : Expr)
  /-- The rendered body is assigned to the name. -/
  | capture (name : String) (body : List Node)
  /-- `otherwise` is rendered when there is nothing to iterate. -/
  | loop (key : Option String) (value : String) (iterable : Expr) (body : List Node)
      (otherwise : Option (List Node))
  /-- The body of the first true condition is rendered. -/
  | branch (branches : List (Expr × List Node)) (otherwise : Option (List Node))
deriving BEq

end Stencil
