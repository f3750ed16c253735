import Stencil.Eval.Expr
import Stencil.Node

/-! Rendering nodes. Blocks count against a depth, loop iterations against a budget that a whole
render shares. -/
namespace Stencil

/-- What a render changes. -/
structure Evaluator (σ : Type) where
  scopes : Scopes
  /-- How many blocks are being rendered. -/
  depth : Nat
  /-- How many loop iterations have begun. -/
  iterations : Nat
  memory : Memory σ

namespace Evaluator

def initial {σ : Type} (host : σ) : Evaluator σ := ⟨[[]], 0, 0, ⟨[], host⟩⟩

end Evaluator

variable {σ : Type}

/-- What a loop binds to the name `loop`. -/
def loopInfo (index length : Nat) : Value := .mapping [
  ("index", .ofNat (index + 1)),
  ("index0", .ofNat index),
  ("revindex", .ofNat (length - index)),
  ("revindex0", .ofNat (length - index - 1)),
  ("first", .bool (index == 0)),
  ("last", .bool (index + 1 == length)),
  ("length", .ofNat length)]

/-- What a loop goes through: keys and values. Only arrays and mappings have any. -/
def Value.iterated : Value → List (Value × Value)
  | .array items => items.zipIdx.map fun (item, i) => (.ofNat i, item)
  | .mapping entries => entries.map fun (key, v) => (.string key, v)
  | _ => []

namespace Env

def evaluate (env : Env σ) (e : Expr) : Action (Evaluator σ) Value := fun s =>
  let (result, memory) := env.eval s.scopes e s.memory
  (result, { s with memory })

def assign (name : String) (value : Value) : Action (Evaluator σ) Unit :=
  modify fun s => { s with scopes := s.scopes.assign name value }

/-- Runs `body` one block deeper. The depth is restored also when it fails. -/
def deeper {α : Type} (env : Env σ) (body : Action (Evaluator σ) α) : Action (Evaluator σ) α :=
  fun s =>
    if env.config.maxDepth ≤ s.depth then
      (.error (.evaluation (.tooDeep env.config.maxDepth)), s)
    else
      let (result, t) := body { s with depth := s.depth + 1 }
      (result, { t with depth := t.depth - 1 })

/-- Runs `body` with a scope of its own. The scope is dropped also when it fails. -/
def inScope {α : Type} (scope : Dict Value) (body : Action (Evaluator σ) α) :
    Action (Evaluator σ) α :=
  fun s =>
    let (result, t) := body { s with scopes := scope :: s.scopes }
    (result, { t with scopes := t.scopes.tail })

/-- Begins another loop iteration, if the budget allows one. -/
def beginIteration (env : Env σ) : Action (Evaluator σ) Unit := fun s =>
  let s := { s with iterations := s.iterations + 1 }
  if env.config.maxIterations < s.iterations then
    (.error (.evaluation (.tooManyIterations env.config.maxIterations)), s)
  else (.ok (), s)

/-- The scope of an iteration. A later binding hides an earlier one of the same name. -/
def loopScope (key : Option String) (value : String) (index length : Nat) (item : Value × Value) :
    Dict Value :=
  let keyed := match key with
    | some name => Dict.insert [] name item.1
    | none => []
  Dict.insert (Dict.insert keyed value item.2) "loop" (loopInfo index length)

/-- Runs `body` once for every item, and puts the texts after `rendered`. -/
def forEach (env : Env σ) (key : Option String) (value : String) (length : Nat)
    (body : Action (Evaluator σ) String) :
    Nat → String → List (Value × Value) → Action (Evaluator σ) String
  | _, rendered, [] => pure rendered
  | index, rendered, item :: items => do
    env.beginIteration
    let text ← inScope (loopScope key value index length item) body
    forEach env key value length body (index + 1) (rendered ++ text) items

mutual

def renderNode (env : Env σ) : Node → Action (Evaluator σ) String
  | .text s => pure s
  | .output e => do
    let v ← env.evaluate e
    pure v.text
  | .set name e => do
    let v ← env.evaluate e
    assign name v
    pure ""
  | .capture name body => do
    let text ← env.deeper (renderNodes env body)
    assign name (.string text)
    pure ""
  | .loop key value iterable body otherwise => do
    let v ← env.evaluate iterable
    match v.iterated with
    | [] => renderOtherwise env otherwise
    | items => env.forEach key value items.length (env.deeper (renderNodes env body)) 0 "" items
  | .branch branches otherwise => do
    match ← renderBranches env branches with
    | some text => pure text
    | none => renderOtherwise env otherwise

def renderNodes (env : Env σ) : List Node → Action (Evaluator σ) String
  | [] => pure ""
  | node :: nodes => do
    let text ← renderNode env node
    let rest ← renderNodes env nodes
    pure (text ++ rest)

def renderOtherwise (env : Env σ) : Option (List Node) → Action (Evaluator σ) String
  | none => pure ""
  | some body => env.deeper (renderNodes env body)

/-- The text of the first branch whose condition is true. -/
def renderBranches (env : Env σ) : List (Expr × List Node) → Action (Evaluator σ) (Option String)
  | [] => pure none
  | (condition, body) :: branches => do
    let v ← env.evaluate condition
    if v.isTruthy then
      let text ← env.deeper (renderNodes env body)
      pure (some text)
    else renderBranches env branches

end

/-- Renders a forest. -/
def render (env : Env σ) (nodes : List Node) : Action (Evaluator σ) String :=
  env.deeper (renderNodes env nodes)

end Env
end Stencil
