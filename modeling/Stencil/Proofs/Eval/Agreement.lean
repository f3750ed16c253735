import Stencil.Eval.Render
import Stencil.Proofs.Filter.Failure

/-! Two runs compared. What a forest looks up in the context are the names of its variables and
calls, and budgets only cut a run short: environments that agree on those names run alike up to the
errors of the budgets. -/
namespace Stencil

variable {σ α β : Type}

namespace Expr

mutual

/-- The names of the variables and the calls in an expression. -/
def names : Expr → List String
  | .literal _ => []
  | .variable name => [name]
  | .binary _ left right => names left ++ names right
  | .unary _ operand => names operand
  | .array items => namesOfItems items
  | .mapping entries => namesOfEntries entries
  | .member object key _ => names object ++ names key
  | .filter input _ args => names input ++ namesOfItems args
  | .call name args => name :: namesOfItems args
  | .conditional test whenTrue whenFalse => names test ++ names whenTrue ++ names whenFalse

def namesOfItems : List Expr → List String
  | [] => []
  | item :: items => names item ++ namesOfItems items

def namesOfEntries : List (Expr × Expr) → List String
  | [] => []
  | (key, value) :: entries => names key ++ names value ++ namesOfEntries entries

end

end Expr

namespace Node

mutual

/-- The names of the variables and the calls in the expressions of a node. -/
def names : Node → List String
  | .text _ => []
  | .output e | .set _ e => e.names
  | .capture _ body => namesIn body
  | .loop _ _ iterable body otherwise =>
    iterable.names ++ namesIn body ++ namesInOtherwise otherwise
  | .branch branches otherwise => namesInBranches branches ++ namesInOtherwise otherwise

def namesIn : List Node → List String
  | [] => []
  | node :: nodes => names node ++ namesIn nodes

def namesInOtherwise : Option (List Node) → List String
  | none => []
  | some body => namesIn body

def namesInBranches : List (Expr × List Node) → List String
  | [] => []
  | (condition, body) :: branches => condition.names ++ namesIn body ++ namesInBranches branches

end

end Node

/-- The environments differ in nothing that expressions with these names can see, unless a budget is
exceeded. -/
structure Env.Agree (names : List String) (env env' : Env σ) : Prop where
  call : env.host.call = env'.host.call
  now : env.host.now = env'.host.now
  timezone : env.config.timezone = env'.config.timezone
  get? : ∀ name ∈ names, env.context.get? name = env'.context.get? name

theorem Env.Agree.mono {names more : List String} {env env' : Env σ} (agree : Agree more env env')
    (le : names ⊆ more) : Agree names env env' :=
  ⟨agree.call, agree.now, agree.timezone, fun name member => agree.get? name (le member)⟩

theorem Filter.applyNamed_congr {c c' : Config} (same : c.timezone = c'.timezone) (name : String)
    (input : Value) (args : List Value) (now : Instant) (checked : Bool) :
    applyNamed name input args c now checked = applyNamed name input args c' now checked := by
  unfold applyNamed
  cases ofName? name with
  | none => rfl
  | some filter => cases filter <;> simp only [apply, Value.formatDate, same]

/-- From every state `x` runs as `y` does, or fails with an error of `stops`. -/
def Action.UpTo (stops : Error → Prop) (x y : Action σ α) : Prop :=
  ∀ s, x s = y s ∨ ∃ e, stops e ∧ (x s).1 = .error e

namespace Action

variable {stops : Error → Prop}

theorem UpTo.refl (x : Action σ α) : x.UpTo stops x := fun _ => .inl rfl

theorem UpTo.of_eq {x y : Action σ α} (same : x = y) : x.UpTo stops y := same ▸ .refl x

theorem UpTo.bind {x y : Action σ α} {f g : α → Action σ β} (first : x.UpTo stops y)
    (next : ∀ a, (f a).UpTo stops (g a)) : (x >>= f).UpTo stops (y >>= g) := by
  intro s
  rw [bind_apply, bind_apply]
  rcases first s with same | ⟨e, stop, failed⟩
  · rw [same]
    split
    · next a t _ => exact next a t
    · exact .inl rfl
  · right
    refine ⟨e, stop, ?_⟩
    split
    · next run => rw [run] at failed; cases failed
    · next run => rw [run] at failed; cases failed; rfl

theorem UpTo.inScope {x y : Action (Evaluator σ) α} (upTo : x.UpTo stops y)
    (scope : Dict Value) : (Env.inScope scope x).UpTo stops (Env.inScope scope y) := by
  intro s
  rcases upTo { s with scopes := scope :: s.scopes } with same | stop
  · left
    rw [Env.inScope, same]
    rfl
  · exact .inr stop

end Action

namespace Env

open Stencil.Action

/-- A limit is as good as another one, or it is lower and says so with an error of `stops`. -/
def LimitUpTo (stops : Error → Prop) (fault : Nat → EvalFault) (limit limit' : Nat) : Prop :=
  limit = limit' ∨ limit ≤ limit' ∧ stops (.evaluation (fault limit))

/-- The budgets of `env` are those of `env'`, or lower ones that `stops` tells. Machine words are a
budget for counts that are checked. -/
structure BudgetsUpTo (stops : Error → Prop) (env env' : Env σ) : Prop where
  depth : LimitUpTo stops .tooDeep env.config.maxDepth env'.config.maxDepth
  iterations : LimitUpTo stops .tooManyIterations env.config.maxIterations env'.config.maxIterations
  counts : env.host.checksCounts = env'.host.checksCounts ∨
    env.host.checksCounts = true ∧ stops .overflow

variable {stops : Error → Prop} {env env' : Env σ} {scopes : Scopes}

theorem call_congr (same : env.host.call = env'.host.call) (f : Callable) (args : List Value) :
    env.call f args = env'.call f args := by
  funext m
  rw [call, call, same]

theorem resolve_congr (same : env.host.call = env'.host.call) (v : Value) :
    env.resolve v = env'.resolve v := by
  cases v with
  | callable f => exact call_congr same f []
  | _ => rfl

theorem resolveOnce_congr (same : env.host.call = env'.host.call) (name : String) (v : Value) :
    env.resolveOnce name v = env'.resolveOnce name v := by
  cases v with
  | callable f => simp only [resolveOnce, call_congr same]
  | _ => rfl

theorem member_congr (same : env.host.call = env'.host.call) (object key : Value) :
    env.member object key = env'.member object key := by
  unfold member
  split
  · exact resolve_congr same _
  · rfl

theorem evalName_congr {name : String} (agree : Agree [name] env env') :
    env.evalName scopes name = env'.evalName scopes name := by
  unfold evalName
  rw [agree.get? name (List.mem_singleton_self name)]
  split
  · exact resolve_congr agree.call _
  · split
    · exact resolveOnce_congr agree.call name _
    · rfl

theorem filter_upTo (budgets : BudgetsUpTo stops env env') {names : List String}
    (agree : Agree names env env') (name : String) (input : Value) (args : List Value) :
    (env.filter name input args).UpTo stops (env'.filter name input args) := by
  intro m
  rw [filter, filter, agree.now, Filter.applyNamed_congr agree.timezone]
  rcases budgets.counts with same | ⟨checked, stop⟩
  · rw [same]
    exact .inl rfl
  rw [checked]
  cases env'.host.checksCounts with
  | true => exact .inl rfl
  | false =>
    rcases Filter.applyNamed_orOverflows name input args env'.config env'.host.now with same | stopped
    · rw [same]
      exact .inl rfl
    · exact .inr ⟨.overflow, stop, stopped⟩

theorem callNamed_upTo (budgets : BudgetsUpTo stops env env') {name : String}
    (agree : Agree [name] env env') (args : List Value) :
    (env.callNamed scopes name args).UpTo stops (env'.callNamed scopes name args) := by
  have same : env.callable? scopes name = env'.callable? scopes name := by
    rw [callable?, callable?, agree.get? name (List.mem_singleton_self name)]
  unfold callNamed
  rw [same]
  split
  · exact .of_eq (call_congr agree.call _ args)
  · exact filter_upTo budgets agree name _ _

mutual

theorem eval_upTo (budgets : BudgetsUpTo stops env env') : ∀ e : Expr, Agree e.names env env' →
    (env.eval scopes e).UpTo stops (env'.eval scopes e)
  | .literal _, _ => .refl _
  | .variable name, agree => by
    rw [Expr.names] at agree
    rw [eval, eval, evalName_congr agree]
    exact .refl _
  | .binary op left right, agree => by
    rw [Expr.names] at agree
    have first := eval_upTo budgets left (agree.mono (by simp))
    have second := eval_upTo budgets right (agree.mono (by simp))
    rw [eval, eval]
    refine first.bind fun a => ?_
    split
    · exact .refl _
    · exact second.bind fun b => .refl _
  | .unary op operand, agree => by
    rw [Expr.names] at agree
    rw [eval, eval]
    exact (eval_upTo budgets operand agree).bind fun _ => .refl _
  | .array items, agree => by
    rw [Expr.names] at agree
    rw [eval, eval]
    exact (evalItems_upTo budgets items agree).bind fun _ => .refl _
  | .mapping entries, agree => by
    rw [Expr.names] at agree
    rw [eval, eval]
    exact (evalEntries_upTo budgets entries [] agree).bind fun _ => .refl _
  | .member object key _, agree => by
    rw [Expr.names] at agree
    have first := eval_upTo budgets object (agree.mono (by simp))
    have second := eval_upTo budgets key (agree.mono (by simp))
    rw [eval, eval]
    exact first.bind fun o => second.bind fun k => .of_eq (member_congr agree.call o k)
  | .filter input name args, agree => by
    rw [Expr.names] at agree
    have first := eval_upTo budgets input (agree.mono (by simp))
    have others := evalItems_upTo budgets args (agree.mono (by simp))
    rw [eval, eval]
    exact first.bind fun v => others.bind fun values => filter_upTo budgets agree name v values
  | .call name args, agree => by
    rw [Expr.names] at agree
    have others := evalItems_upTo budgets args (agree.mono (by simp))
    have called : Agree [name] env env' := agree.mono (by simp)
    rw [eval, eval]
    exact others.bind fun values => callNamed_upTo budgets called values
  | .conditional test whenTrue whenFalse, agree => by
    rw [Expr.names] at agree
    have first := eval_upTo budgets test (agree.mono (by simp))
    have second := eval_upTo budgets whenTrue (agree.mono (by simp))
    have third := eval_upTo budgets whenFalse (agree.mono (by simp))
    rw [eval, eval]
    refine first.bind fun v => ?_
    split
    · exact second
    · exact third

theorem evalItems_upTo (budgets : BudgetsUpTo stops env env') : ∀ items : List Expr,
    Agree (Expr.namesOfItems items) env env' →
      (env.evalItems scopes items).UpTo stops (env'.evalItems scopes items)
  | [], _ => .refl _
  | item :: items, agree => by
    rw [Expr.namesOfItems] at agree
    have first := eval_upTo budgets item (agree.mono (by simp))
    have others := evalItems_upTo budgets items (agree.mono (by simp))
    rw [evalItems, evalItems]
    exact first.bind fun _ => others.bind fun _ => .refl _

theorem evalEntries_upTo (budgets : BudgetsUpTo stops env env') :
    ∀ (entries : List (Expr × Expr)) (d : Dict Value),
      Agree (Expr.namesOfEntries entries) env env' →
        (env.evalEntries scopes d entries).UpTo stops (env'.evalEntries scopes d entries)
  | [], _, _ => .refl _
  | (key, value) :: entries, d, agree => by
    rw [Expr.namesOfEntries] at agree
    have first := eval_upTo budgets key (agree.mono (by simp))
    have second := eval_upTo budgets value (agree.mono (by simp))
    rw [evalEntries, evalEntries]
    refine first.bind fun k => second.bind fun v => ?_
    exact evalEntries_upTo budgets entries _ (agree.mono (by simp))

end

theorem evaluate_upTo (budgets : BudgetsUpTo stops env env') {e : Expr}
    (agree : Agree e.names env env') : (env.evaluate e).UpTo stops (env'.evaluate e) := by
  intro s
  have upTo : (env.eval s.scopes e).UpTo stops (env'.eval s.scopes e) := eval_upTo budgets e agree
  rcases upTo s.memory with same | stop
  · left
    rw [evaluate, evaluate, same]
  · exact .inr stop

theorem deeper_upTo (budgets : BudgetsUpTo stops env env') {x y : Action (Evaluator σ) α}
    (upTo : x.UpTo stops y) : (env.deeper x).UpTo stops (env'.deeper y) := by
  intro s
  by_cases exceeded : env.config.maxDepth ≤ s.depth
  · rcases budgets.depth with same | ⟨_, stop⟩
    · left
      rw [deeper, deeper, ← same, if_pos exceeded, if_pos exceeded]
    · right
      rw [deeper, if_pos exceeded]
      exact ⟨_, stop, rfl⟩
  · have within : ¬ env'.config.maxDepth ≤ s.depth := by
      rcases budgets.depth with same | ⟨le, _⟩ <;> omega
    rw [deeper, deeper, if_neg exceeded, if_neg within]
    rcases upTo { s with depth := s.depth + 1 } with same | stop
    · left
      rw [same]
    · exact .inr stop

theorem beginIteration_upTo (budgets : BudgetsUpTo stops env env') :
    env.beginIteration.UpTo stops env'.beginIteration := by
  intro s
  by_cases exceeded : env.config.maxIterations < s.iterations + 1
  · rcases budgets.iterations with same | ⟨_, stop⟩
    · left
      rw [beginIteration, beginIteration, ← same]
    · right
      simp only [beginIteration, if_pos exceeded]
      exact ⟨_, stop, rfl⟩
  · have within : ¬ env'.config.maxIterations < s.iterations + 1 := by
      rcases budgets.iterations with same | ⟨le, _⟩ <;> omega
    left
    simp only [beginIteration, if_neg exceeded, if_neg within]

theorem forEach_upTo (budgets : BudgetsUpTo stops env env') (key : Option String) (value : String)
    (length : Nat) {x y : Action (Evaluator σ) String} (upTo : x.UpTo stops y) (index : Nat)
    (rendered : String) (items : List (Value × Value)) :
    (env.forEach key value length x index rendered items).UpTo stops
      (env'.forEach key value length y index rendered items) := by
  induction items generalizing index rendered with
  | nil => exact .refl _
  | cons item items ih =>
    rw [forEach, forEach]
    refine (beginIteration_upTo budgets).bind fun _ => ?_
    exact (upTo.inScope _).bind fun text => ih _ _

mutual

theorem renderNode_upTo (budgets : BudgetsUpTo stops env env') : ∀ node : Node,
    Agree node.names env env' → (env.renderNode node).UpTo stops (env'.renderNode node)
  | .text _, _ => .refl _
  | .output e, agree => by
    rw [Node.names] at agree
    rw [renderNode, renderNode]
    exact (evaluate_upTo budgets agree).bind fun _ => .refl _
  | .set name e, agree => by
    rw [Node.names] at agree
    rw [renderNode, renderNode]
    exact (evaluate_upTo budgets agree).bind fun _ => .refl _
  | .capture name body, agree => by
    rw [Node.names] at agree
    have inside := deeper_upTo budgets (renderNodes_upTo budgets body agree)
    exact inside.bind fun _ => .refl _
  | .loop key value iterable body otherwise, agree => by
    rw [Node.names] at agree
    have start := evaluate_upTo budgets (e := iterable) (agree.mono (by simp))
    have inside := deeper_upTo budgets (renderNodes_upTo budgets body (agree.mono (by simp)))
    have last := renderOtherwise_upTo budgets otherwise (agree.mono (by simp))
    rw [renderNode, renderNode]
    refine start.bind fun v => ?_
    split
    · exact last
    · exact forEach_upTo budgets key value _ inside 0 "" _
  | .branch branches otherwise, agree => by
    rw [Node.names] at agree
    have first := renderBranches_upTo budgets branches (agree.mono (by simp))
    have last := renderOtherwise_upTo budgets otherwise (agree.mono (by simp))
    rw [renderNode, renderNode]
    refine first.bind fun found => ?_
    cases found with
    | none => exact last
    | some text => exact .refl _

theorem renderNodes_upTo (budgets : BudgetsUpTo stops env env') : ∀ nodes : List Node,
    Agree (Node.namesIn nodes) env env' →
      (env.renderNodes nodes).UpTo stops (env'.renderNodes nodes)
  | [], _ => .refl _
  | node :: nodes, agree => by
    rw [Node.namesIn] at agree
    have first := renderNode_upTo budgets node (agree.mono (by simp))
    have others := renderNodes_upTo budgets nodes (agree.mono (by simp))
    rw [renderNodes, renderNodes]
    exact first.bind fun _ => others.bind fun _ => .refl _

theorem renderOtherwise_upTo (budgets : BudgetsUpTo stops env env') :
    ∀ otherwise : Option (List Node), Agree (Node.namesInOtherwise otherwise) env env' →
      (env.renderOtherwise otherwise).UpTo stops (env'.renderOtherwise otherwise)
  | none, _ => .refl _
  | some body, agree => deeper_upTo budgets (renderNodes_upTo budgets body agree)

theorem renderBranches_upTo (budgets : BudgetsUpTo stops env env') :
    ∀ branches : List (Expr × List Node), Agree (Node.namesInBranches branches) env env' →
      (env.renderBranches branches).UpTo stops (env'.renderBranches branches)
  | [], _ => .refl _
  | (condition, body) :: branches, agree => by
    rw [Node.namesInBranches] at agree
    have start := evaluate_upTo budgets (e := condition) (agree.mono (by simp))
    have first := deeper_upTo budgets (renderNodes_upTo budgets body (agree.mono (by simp)))
    have others := renderBranches_upTo budgets branches (agree.mono (by simp))
    rw [renderBranches, renderBranches]
    refine start.bind fun v => ?_
    split
    · exact first.bind fun _ => .refl _
    · exact others

end

theorem render_upTo (budgets : BudgetsUpTo stops env env') {nodes : List Node}
    (agree : Agree (Node.namesIn nodes) env env') :
    (env.render nodes).UpTo stops (env'.render nodes) :=
  deeper_upTo budgets (renderNodes_upTo budgets nodes agree)

/-- What a context binds to other names than those of the variables and the calls in a forest does
not show in a render, neither in the text or the error nor in what is left of the state. -/
theorem render_eq_of_agree (context context' : Context) (config : Config) (host : Host σ)
    (nodes : List Node) (s : Evaluator σ)
    (agree : ∀ name ∈ Node.namesIn nodes, context.get? name = context'.get? name) :
    (Env.mk context config host).render nodes s = (Env.mk context' config host).render nodes s := by
  have budgets : BudgetsUpTo (fun _ => False) (Env.mk context config host)
      (Env.mk context' config host) := ⟨.inl rfl, .inl rfl, .inl rfl⟩
  rcases render_upTo budgets ⟨rfl, rfl, rfl, agree⟩ s with same | ⟨_, never, _⟩
  · exact same
  · exact never.elim

/-- One context binds `f` to a callable as well, which nothing in the forest is named after. -/
theorem render_eq_of_unused_callable :
    let nodes : List Node := [.loop none "x" (.variable "xs") [.output (.call "g" [.variable "x"])]
      none, .set "f" (.literal .null), .output (.filter (.literal .null) "f" [])]
    let context : Context := ⟨[("xs", .array [.null]), ("g", .callable ⟨0⟩)]⟩
    let more : Context := ⟨[("f", .callable ⟨1⟩), ("xs", .array [.null]), ("g", .callable ⟨0⟩)]⟩
    (Env.mk context {} .counting).render nodes (.initial 0) =
      (Env.mk more {} .counting).render nodes (.initial 0) := by
  intro nodes context more
  apply render_eq_of_agree
  intro name member
  have used : name = "xs" ∨ name = "g" ∨ name = "x" := by simpa [nodes, Node.namesIn, Node.names,
    Node.namesInOtherwise, Expr.names, Expr.namesOfItems] using member
  rcases used with rfl | rfl | rfl <;> rfl

end Env
end Stencil
