import Stencil.Eval.Render
import Stencil.Proofs.Action

/-! Evaluating and rendering with a record of what happens: the callables that are used, the loop
bodies that are run, and the blocks that the depth refuses. Without the record, the runs are those of
`Env.eval` and `Env.render`. -/
namespace Stencil

variable {ε σ α β : Type}

/-- How an expression comes to a callable. -/
inductive Route
  /-- A bare name that no scope binds: the callable is one of the context. -/
  | bare (name : String)
  /-- A bare name that a scope binds. -/
  | scoped (name : String)
  /-- A name with arguments. -/
  | call (name : String)
  /-- A member of a collection. -/
  | member
deriving DecidableEq

/-- A callable is used for its result. The host is asked for it, unless `invocation` is none. -/
structure Use where
  route : Route
  invocation : Option (Callable × List Value)
  result : Except Error Value

inductive Event
  | use (use : Use)
  /-- The body of a loop is run. -/
  | iteration
  /-- A block lies too deep and is not rendered. -/
  | tooDeep

def Event.use? : Event → Option Use
  | .use u => some u
  | _ => none

theorem filterMap_map_use (uses : List Use) : (uses.map Event.use).filterMap Event.use? = uses := by
  rw [List.filterMap_map]
  exact List.filterMap_some

/-- An action, and what happens in its runs. -/
structure Traced (ε σ α : Type) where
  action : Action σ α
  events : σ → List ε

namespace Traced

/-- Nothing happens that is recorded. -/
def silent (x : Action σ α) : Traced ε σ α := ⟨x, fun _ => []⟩

def bind (x : Traced ε σ α) (f : α → Traced ε σ β) : Traced ε σ β where
  action := x.action >>= fun a => (f a).action
  events s := x.events s ++
    match x.action s with
    | (.ok a, t) => (f a).events t
    | (.error _, _) => []

instance : Monad (Traced ε σ) where
  pure a := silent (pure a)
  bind := bind

/-- One event happens; it tells the state before the action and the result. -/
def recording (x : Action σ α) (event : σ → Except Error α → ε) : Traced ε σ α :=
  ⟨x, fun s => [event s (x s).1]⟩

/-- The event happens first. -/
def after (e : ε) (x : Traced ε σ α) : Traced ε σ α := ⟨x.action, fun s => e :: x.events s⟩

@[simp] theorem action_silent (x : Action σ α) : (silent x : Traced ε σ α).action = x := rfl

@[simp] theorem action_pure (a : α) : (pure a : Traced ε σ α).action = pure a := rfl

@[simp] theorem action_bind (x : Traced ε σ α) (f : α → Traced ε σ β) :
    (x >>= f).action = x.action >>= fun a => (f a).action := rfl

theorem events_bind (x : Traced ε σ α) (f : α → Traced ε σ β) (s : σ) :
    (x >>= f).events s = x.events s ++
      match x.action s with
      | (.ok a, t) => (f a).events t
      | (.error _, _) => [] := rfl

@[simp] theorem action_recording (x : Action σ α) (event : σ → Except Error α → ε) :
    (recording x event).action = x := rfl

@[simp] theorem action_after (e : ε) (x : Traced ε σ α) : (x.after e).action = x.action := rfl

end Traced

namespace Env

open Traced

/-- The host is asked. -/
def traceCall (env : Env σ) (route : Route) (f : Callable) (args : List Value) :
    Traced Use (Memory σ) Value :=
  recording (env.call f args) fun _ result => ⟨route, some (f, args), result⟩

/-- The host is asked only for what is not remembered. -/
def traceOnce (env : Env σ) (name : String) (f : Callable) : Traced Use (Memory σ) Value :=
  recording (env.resolveOnce name (.callable f)) fun m result =>
    ⟨.bare name, if Dict.contains m.resolved name then none else some (f, []), result⟩

def traceName (env : Env σ) (scopes : Scopes) (name : String) : Traced Use (Memory σ) Value :=
  match scopes.get? name with
  | some (.callable f) => env.traceCall (.scoped name) f []
  | some v => pure v
  | none =>
    match env.context.get? name with
    | some (.callable f) => env.traceOnce name f
    | some v => pure v
    | none => pure .null

def traceNamed (env : Env σ) (scopes : Scopes) (name : String) (args : List Value) :
    Traced Use (Memory σ) Value :=
  match env.callable? scopes name with
  | some f => env.traceCall (.call name) f args
  | none => silent (env.filter name (args.head?.getD .null) args.tail)

def traceMember (env : Env σ) (object key : Value) : Traced Use (Memory σ) Value :=
  match object.get? key with
  | some (.callable f) => env.traceCall .member f []
  | some v => pure v
  | none => pure .null

mutual

def traceEval (env : Env σ) (scopes : Scopes) : Expr → Traced Use (Memory σ) Value
  | .literal v => pure v.toValue
  | .variable name => env.traceName scopes name
  | .binary op left right => do
    let a ← traceEval env scopes left
    match op.shortcut? a with
    | some v => pure v
    | none =>
      let b ← traceEval env scopes right
      pure (op.apply a b)
  | .unary op operand => do
    let v ← traceEval env scopes operand
    pure (op.apply v)
  | .array items => do
    let values ← traceItems env scopes items
    pure (.array values)
  | .mapping entries => do
    let values ← traceEntries env scopes [] entries
    pure (.mapping values)
  | .member object key _ => do
    let o ← traceEval env scopes object
    let k ← traceEval env scopes key
    env.traceMember o k
  | .filter input name args => do
    let v ← traceEval env scopes input
    let values ← traceItems env scopes args
    silent (env.filter name v values)
  | .call name args => do
    let values ← traceItems env scopes args
    env.traceNamed scopes name values
  | .conditional test whenTrue whenFalse => do
    let v ← traceEval env scopes test
    if v.isTruthy then traceEval env scopes whenTrue else traceEval env scopes whenFalse

def traceItems (env : Env σ) (scopes : Scopes) : List Expr → Traced Use (Memory σ) (List Value)
  | [] => pure []
  | item :: items => do
    let v ← traceEval env scopes item
    let vs ← traceItems env scopes items
    pure (v :: vs)

def traceEntries (env : Env σ) (scopes : Scopes) (d : Dict Value) :
    List (Expr × Expr) → Traced Use (Memory σ) (Dict Value)
  | [] => pure d
  | (key, value) :: entries => do
    let k ← traceEval env scopes key
    let v ← traceEval env scopes value
    traceEntries env scopes (Dict.insert d k.text v) entries

end

def traceEvaluate (env : Env σ) (e : Expr) : Traced Event (Evaluator σ) Value :=
  ⟨env.evaluate e, fun s => ((env.traceEval s.scopes e).events s.memory).map .use⟩

def traceDeeper (env : Env σ) (body : Traced Event (Evaluator σ) α) :
    Traced Event (Evaluator σ) α where
  action := env.deeper body.action
  events s :=
    if env.config.maxDepth ≤ s.depth then [.tooDeep] else body.events { s with depth := s.depth + 1 }

def traceInScope (scope : Dict Value) (body : Traced Event (Evaluator σ) α) :
    Traced Event (Evaluator σ) α :=
  ⟨inScope scope body.action, fun s => body.events { s with scopes := scope :: s.scopes }⟩

def traceIteration (env : Env σ) (scope : Dict Value) (body : Traced Event (Evaluator σ) String) :
    Traced Event (Evaluator σ) String := do
  silent env.beginIteration
  traceInScope scope (body.after .iteration)

def traceEach (env : Env σ) (key : Option String) (value : String) (length : Nat)
    (body : Traced Event (Evaluator σ) String) :
    Nat → String → List (Value × Value) → Traced Event (Evaluator σ) String
  | _, rendered, [] => pure rendered
  | index, rendered, item :: items => do
    let text ← env.traceIteration (loopScope key value index length item) body
    traceEach env key value length body (index + 1) (rendered ++ text) items

mutual

def traceNode (env : Env σ) : Node → Traced Event (Evaluator σ) String
  | .text s => pure s
  | .output e => do
    let v ← env.traceEvaluate e
    pure v.text
  | .set name e => do
    let v ← env.traceEvaluate e
    silent (assign name v)
    pure ""
  | .capture name body => do
    let text ← env.traceDeeper (traceNodes env body)
    silent (assign name (.string text))
    pure ""
  | .loop key value iterable body otherwise => do
    let v ← env.traceEvaluate iterable
    match v.iterated with
    | [] => traceOtherwise env otherwise
    | items => env.traceEach key value items.length (env.traceDeeper (traceNodes env body)) 0 "" items
  | .branch branches otherwise => do
    match ← traceBranches env branches with
    | some text => pure text
    | none => traceOtherwise env otherwise

def traceNodes (env : Env σ) : List Node → Traced Event (Evaluator σ) String
  | [] => pure ""
  | node :: nodes => do
    let text ← traceNode env node
    let rest ← traceNodes env nodes
    pure (text ++ rest)

def traceOtherwise (env : Env σ) : Option (List Node) → Traced Event (Evaluator σ) String
  | none => pure ""
  | some body => env.traceDeeper (traceNodes env body)

def traceBranches (env : Env σ) :
    List (Expr × List Node) → Traced Event (Evaluator σ) (Option String)
  | [] => pure none
  | (condition, body) :: branches => do
    let v ← env.traceEvaluate condition
    if v.isTruthy then
      let text ← env.traceDeeper (traceNodes env body)
      pure (some text)
    else traceBranches env branches

end

def traceRender (env : Env σ) (nodes : List Node) : Traced Event (Evaluator σ) String :=
  env.traceDeeper (env.traceNodes nodes)

@[simp] theorem action_traceName (env : Env σ) (scopes : Scopes) (name : String) :
    (env.traceName scopes name).action = env.evalName scopes name := by
  unfold traceName evalName
  cases scopes.get? name with
  | some v => cases v <;> rfl
  | none =>
    cases env.context.get? name with
    | some v => cases v <;> rfl
    | none => rfl

@[simp] theorem action_traceNamed (env : Env σ) (scopes : Scopes) (name : String)
    (args : List Value) :
    (env.traceNamed scopes name args).action = env.callNamed scopes name args := by
  unfold traceNamed callNamed
  cases env.callable? scopes name <;> rfl

@[simp] theorem action_traceMember (env : Env σ) (object key : Value) :
    (env.traceMember object key).action = env.member object key := by
  unfold traceMember member
  cases object.get? key with
  | some v => cases v <;> rfl
  | none => rfl

mutual

@[simp] theorem action_traceEval (env : Env σ) (scopes : Scopes) :
    ∀ e : Expr, (env.traceEval scopes e).action = env.eval scopes e
  | .literal _ => rfl
  | .variable name => by simp [traceEval, eval]
  | .binary op left right => by
    have first := action_traceEval env scopes left
    have second := action_traceEval env scopes right
    simp only [traceEval, eval, action_bind, first]
    congr 1
    funext a
    cases op.shortcut? a with
    | some v => rfl
    | none => simp [second]
  | .unary op operand => by
    have inner := action_traceEval env scopes operand
    simp [traceEval, eval, inner]
  | .array items => by
    have inner := action_traceItems env scopes items
    simp [traceEval, eval, inner]
  | .mapping entries => by
    have inner := action_traceEntries env scopes entries []
    simp [traceEval, eval, inner]
  | .member object key _ => by
    have first := action_traceEval env scopes object
    have second := action_traceEval env scopes key
    simp [traceEval, eval, first, second]
  | .filter input name args => by
    have first := action_traceEval env scopes input
    have others := action_traceItems env scopes args
    simp [traceEval, eval, first, others]
  | .call name args => by
    have others := action_traceItems env scopes args
    simp [traceEval, eval, others]
  | .conditional test whenTrue whenFalse => by
    have first := action_traceEval env scopes test
    have second := action_traceEval env scopes whenTrue
    have third := action_traceEval env scopes whenFalse
    simp only [traceEval, eval, action_bind, first]
    congr 1
    funext v
    split
    · exact second
    · exact third

@[simp] theorem action_traceItems (env : Env σ) (scopes : Scopes) :
    ∀ items : List Expr, (env.traceItems scopes items).action = env.evalItems scopes items
  | [] => rfl
  | item :: items => by
    have first := action_traceEval env scopes item
    have others := action_traceItems env scopes items
    simp [traceItems, evalItems, first, others]

@[simp] theorem action_traceEntries (env : Env σ) (scopes : Scopes) :
    ∀ (entries : List (Expr × Expr)) (d : Dict Value),
      (env.traceEntries scopes d entries).action = env.evalEntries scopes d entries
  | [], _ => rfl
  | (key, value) :: entries, d => by
    have first := action_traceEval env scopes key
    have second := action_traceEval env scopes value
    have others := action_traceEntries env scopes entries
    simp [traceEntries, evalEntries, first, second, others]

end

@[simp] theorem action_traceEach (env : Env σ) (key : Option String) (value : String)
    (length : Nat) (body : Traced Event (Evaluator σ) String) (index : Nat) (rendered : String)
    (items : List (Value × Value)) :
    (env.traceEach key value length body index rendered items).action =
      env.forEach key value length body.action index rendered items := by
  induction items generalizing index rendered with
  | nil => rfl
  | cons item items ih =>
    simp [traceEach, forEach, traceIteration, traceInScope, ih]

mutual

@[simp] theorem action_traceNode (env : Env σ) :
    ∀ node : Node, (env.traceNode node).action = env.renderNode node
  | .text _ => rfl
  | .output _ => rfl
  | .set _ _ => rfl
  | .capture name body => by
    have inner := action_traceNodes env body
    simp [traceNode, renderNode, traceDeeper, inner]
  | .loop key value iterable body otherwise => by
    have inner := action_traceNodes env body
    have last := action_traceOtherwise env otherwise
    simp only [traceNode, renderNode, action_bind]
    congr 1
    funext v
    cases v.iterated with
    | nil => exact last
    | cons item items => simp [traceDeeper, inner]
  | .branch branches otherwise => by
    have first := action_traceBranches env branches
    have last := action_traceOtherwise env otherwise
    simp only [traceNode, renderNode, action_bind, first]
    congr 1
    funext found
    cases found with
    | none => exact last
    | some text => rfl

@[simp] theorem action_traceNodes (env : Env σ) :
    ∀ nodes : List Node, (env.traceNodes nodes).action = env.renderNodes nodes
  | [] => rfl
  | node :: nodes => by
    have first := action_traceNode env node
    have others := action_traceNodes env nodes
    simp [traceNodes, renderNodes, first, others]

@[simp] theorem action_traceOtherwise (env : Env σ) :
    ∀ otherwise : Option (List Node),
      (env.traceOtherwise otherwise).action = env.renderOtherwise otherwise
  | none => rfl
  | some body => by
    have inner := action_traceNodes env body
    simp [traceOtherwise, renderOtherwise, traceDeeper, inner]

@[simp] theorem action_traceBranches (env : Env σ) :
    ∀ branches : List (Expr × List Node),
      (env.traceBranches branches).action = env.renderBranches branches
  | [] => rfl
  | (condition, body) :: branches => by
    have first := action_traceNodes env body
    have others := action_traceBranches env branches
    simp only [traceBranches, renderBranches, action_bind]
    congr 1
    funext v
    split
    · simp [traceDeeper, first]
    · exact others

end

@[simp] theorem action_traceRender (env : Env σ) (nodes : List Node) :
    (env.traceRender nodes).action = env.render nodes := by
  simp [traceRender, render, traceDeeper]

end Env

end Stencil
