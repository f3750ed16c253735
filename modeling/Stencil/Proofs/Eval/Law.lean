import Stencil.Proofs.Eval.Trace

/-! Laws for what happens when expressions are evaluated and nodes are rendered: a law that the single
steps obey is obeyed by every evaluation and every render. -/
namespace Stencil

variable {ε σ α β : Type}

/-- The error of a failure. -/
def failure? : Except Error α → Option Error
  | .ok _ => none
  | .error e => some e

theorem failure?_eq_some_iff {x : Except Error α} {e : Error} :
    failure? x = some e ↔ x = .error e := by
  cases x <;> simp [failure?]

namespace Traced

/-- In every run `R` relates the first state, through what happens and the error if the run fails, to
the last state. -/
def Obeys (R : σ → List ε → Option Error → σ → Prop) (x : Traced ε σ α) : Prop :=
  ∀ s, R s (x.events s) (failure? (x.action s).1) (x.action s).2

variable {R : σ → List ε → Option Error → σ → Prop} {x : Traced ε σ α}

theorem Obeys.bind {f : α → Traced ε σ β}
    (append : ∀ {s t u es fs failure},
      R s es none t → R t fs failure u → R s (es ++ fs) failure u)
    (first : x.Obeys R) (next : ∀ a, (f a).Obeys R) : (x >>= f).Obeys R := by
  intro s
  have start := first s
  rw [events_bind, action_bind, Action.bind_apply]
  cases run : x.action s with
  | mk result t =>
    rw [run] at start
    cases result with
    | ok a => exact append start (next a t)
    | error e => rwa [List.append_nil]

end Traced

open Traced

/-- A law for the uses of callables in an evaluation: what every single step obeys. -/
structure Env.UseLaw (env : Env σ) (R : Memory σ → List Use → Option Error → Memory σ → Prop) :
    Prop where
  nil : ∀ {m}, R m [] none m
  append : ∀ {m n o us vs failure}, R m us none n → R n vs failure o → R m (us ++ vs) failure o
  call : ∀ {route} f args, (∀ name, route ≠ .bare name) → (env.traceCall route f args).Obeys R
  once : ∀ {name f}, env.context.get? name = some (.callable f) → (env.traceOnce name f).Obeys R
  filter : ∀ name v args, (silent (env.filter name v args)).Obeys R

namespace Env.UseLaw

variable {env : Env σ} {R : Memory σ → List Use → Option Error → Memory σ → Prop}

theorem obeys_pure (law : env.UseLaw R) (a : α) : (pure a : Traced Use (Memory σ) α).Obeys R :=
  fun _ => law.nil

theorem obeys_name (law : env.UseLaw R) (scopes : Scopes) (name : String) :
    (env.traceName scopes name).Obeys R := by
  unfold traceName
  split
  · exact law.call _ _ nofun
  · exact law.obeys_pure _
  · split
    · next bound => exact law.once bound
    · exact law.obeys_pure _
    · exact law.obeys_pure _

theorem obeys_named (law : env.UseLaw R) (scopes : Scopes) (name : String) (args : List Value) :
    (env.traceNamed scopes name args).Obeys R := by
  unfold traceNamed
  split
  · exact law.call _ _ nofun
  · exact law.filter _ _ _

theorem obeys_member (law : env.UseLaw R) (object key : Value) :
    (env.traceMember object key).Obeys R := by
  unfold traceMember
  split
  · exact law.call _ _ nofun
  · exact law.obeys_pure _
  · exact law.obeys_pure _

mutual

theorem obeys_eval (law : env.UseLaw R) (scopes : Scopes) :
    ∀ e : Expr, (env.traceEval scopes e).Obeys R
  | .literal _ => law.obeys_pure _
  | .variable name => law.obeys_name scopes name
  | .binary op left right => by
    refine (law.obeys_eval scopes left).bind law.append fun a => ?_
    split
    · exact law.obeys_pure _
    · exact (law.obeys_eval scopes right).bind law.append fun b => law.obeys_pure _
  | .unary _ operand => (law.obeys_eval scopes operand).bind law.append fun _ => law.obeys_pure _
  | .array items => (law.obeys_items scopes items).bind law.append fun _ => law.obeys_pure _
  | .mapping entries =>
    (law.obeys_entries scopes entries []).bind law.append fun _ => law.obeys_pure _
  | .member object key _ => by
    refine (law.obeys_eval scopes object).bind law.append fun o => ?_
    exact (law.obeys_eval scopes key).bind law.append fun k => law.obeys_member o k
  | .filter input name args => by
    refine (law.obeys_eval scopes input).bind law.append fun v => ?_
    exact (law.obeys_items scopes args).bind law.append fun values => law.filter name v values
  | .call name args =>
    (law.obeys_items scopes args).bind law.append fun values => law.obeys_named scopes name values
  | .conditional test whenTrue whenFalse => by
    refine (law.obeys_eval scopes test).bind law.append fun v => ?_
    split
    · exact law.obeys_eval scopes whenTrue
    · exact law.obeys_eval scopes whenFalse

theorem obeys_items (law : env.UseLaw R) (scopes : Scopes) :
    ∀ items : List Expr, (env.traceItems scopes items).Obeys R
  | [] => law.obeys_pure _
  | item :: items => by
    refine (law.obeys_eval scopes item).bind law.append fun v => ?_
    exact (law.obeys_items scopes items).bind law.append fun vs => law.obeys_pure _

theorem obeys_entries (law : env.UseLaw R) (scopes : Scopes) :
    ∀ (entries : List (Expr × Expr)) (d : Dict Value), (env.traceEntries scopes d entries).Obeys R
  | [], _ => law.obeys_pure _
  | (key, value) :: entries, d => by
    refine (law.obeys_eval scopes key).bind law.append fun k => ?_
    refine (law.obeys_eval scopes value).bind law.append fun v => ?_
    exact law.obeys_entries scopes entries _

end

end Env.UseLaw

namespace Node

mutual

/-- How many blocks lie inside each other in a node. -/
def blocks : Node → Nat
  | .text _ | .output _ | .set _ _ => 0
  | .capture _ body => blocksIn body + 1
  | .loop _ _ _ body otherwise => max (blocksIn body + 1) (blocksInOtherwise otherwise)
  | .branch branches otherwise => max (blocksInBranches branches) (blocksInOtherwise otherwise)

def blocksIn : List Node → Nat
  | [] => 0
  | node :: nodes => max (blocks node) (blocksIn nodes)

def blocksInOtherwise : Option (List Node) → Nat
  | none => 0
  | some body => blocksIn body + 1

def blocksInBranches : List (Expr × List Node) → Nat
  | [] => 0
  | (_, body) :: branches => max (blocksIn body + 1) (blocksInBranches branches)

end

end Node

/-- A predicate of recorded actions, with a level for the blocks inside each other, that holds of every
single step of a render and of steps put together. -/
structure Env.Compatible (env : Env σ)
    (P : Nat → {α : Type} → Traced Event (Evaluator σ) α → Prop) : Prop where
  pure : ∀ {α : Type} (a : α), P 0 (pure a)
  bind : ∀ {α β : Type} {l : Nat} {x : Traced Event (Evaluator σ) α}
    {f : α → Traced Event (Evaluator σ) β}, P l x → (∀ a, P l (f a)) → P l (x >>= f)
  raise : ∀ {α : Type} {l m : Nat} {x : Traced Event (Evaluator σ) α}, l ≤ m → P l x → P m x
  evaluate : ∀ e, P 0 (env.traceEvaluate e)
  assign : ∀ name v, P 0 (silent (Env.assign name v))
  deeper : ∀ {l : Nat} {body : Traced Event (Evaluator σ) String},
    P l body → P (l + 1) (env.traceDeeper body)
  iteration : ∀ {l : Nat} {body : Traced Event (Evaluator σ) String} (scope : Dict Value),
    P l body → P l (env.traceIteration scope body)

namespace Env.Compatible

variable {env : Env σ} {P : Nat → {α : Type} → Traced Event (Evaluator σ) α → Prop}
  {body : Traced Event (Evaluator σ) String}

theorem lift (compatible : env.Compatible P) {x : Traced Event (Evaluator σ) α} {l : Nat}
    (holds : P 0 x) : P l x :=
  compatible.raise (Nat.zero_le l) holds

theorem each (compatible : env.Compatible P) {l : Nat} (holds : P l body) (key : Option String)
    (value : String) (length index : Nat) (rendered : String) (items : List (Value × Value)) :
    P l (env.traceEach key value length body index rendered items) := by
  induction items generalizing index rendered with
  | nil => exact compatible.lift (compatible.pure rendered)
  | cons item items ih =>
    rw [traceEach]
    exact compatible.bind (compatible.iteration _ holds) fun text => ih _ _

mutual

theorem node (compatible : env.Compatible P) : ∀ node : Node, P node.blocks (env.traceNode node)
  | .text s => compatible.pure s
  | .output e => compatible.bind (compatible.evaluate e) fun v => compatible.pure v.text
  | .set name e => by
    refine compatible.bind (compatible.evaluate e) fun v => ?_
    exact compatible.bind (compatible.assign name v) fun _ => compatible.pure ""
  | .capture name body => by
    refine compatible.bind (compatible.deeper (compatible.nodes body)) fun text => compatible.lift ?_
    exact compatible.bind (compatible.assign name (.string text)) fun _ => compatible.pure ""
  | .loop key value iterable body otherwise => by
    have inside := compatible.deeper (compatible.nodes body)
    have last := compatible.otherwise otherwise
    refine compatible.bind (compatible.lift (compatible.evaluate iterable)) fun v => ?_
    split
    · exact compatible.raise (Nat.le_max_right _ _) last
    · exact compatible.raise (Nat.le_max_left _ _) (compatible.each inside key value _ 0 "" _)
  | .branch branches otherwise => by
    have first := compatible.branches branches
    have last := compatible.otherwise otherwise
    refine compatible.bind (compatible.raise (Nat.le_max_left _ _) first) fun found => ?_
    cases found with
    | none => exact compatible.raise (Nat.le_max_right _ _) last
    | some text => exact compatible.lift (compatible.pure text)

theorem nodes (compatible : env.Compatible P) :
    ∀ nodes : List Node, P (Node.blocksIn nodes) (env.traceNodes nodes)
  | [] => compatible.pure ""
  | node :: nodes => by
    have first := compatible.raise (Nat.le_max_left _ (Node.blocksIn nodes)) (compatible.node node)
    have others := compatible.raise (Nat.le_max_right node.blocks _) (compatible.nodes nodes)
    refine compatible.bind first fun _ => compatible.bind others fun _ => ?_
    exact compatible.lift (compatible.pure _)

theorem otherwise (compatible : env.Compatible P) : ∀ otherwise : Option (List Node),
    P (Node.blocksInOtherwise otherwise) (env.traceOtherwise otherwise)
  | none => compatible.pure ""
  | some body => compatible.deeper (compatible.nodes body)

theorem branches (compatible : env.Compatible P) : ∀ branches : List (Expr × List Node),
    P (Node.blocksInBranches branches) (env.traceBranches branches)
  | [] => compatible.pure none
  | (condition, body) :: branches => by
    have first := compatible.deeper (compatible.nodes body)
    have others := compatible.branches branches
    refine compatible.bind (compatible.lift (compatible.evaluate condition)) fun v => ?_
    split
    · have found := compatible.raise (Nat.le_max_left _ (Node.blocksInBranches branches)) first
      exact compatible.bind found fun text => compatible.lift (compatible.pure (some text))
    · exact compatible.raise (Nat.le_max_right _ _) others

end

theorem render (compatible : env.Compatible P) (nodes : List Node) :
    P (Node.blocksIn nodes + 1) (env.traceRender nodes) :=
  compatible.deeper (compatible.nodes nodes)

end Env.Compatible

/-- A law for what happens in a render, with a level for the blocks inside each other: what every
single step obeys. -/
structure Env.Law (env : Env σ)
    (R : Nat → Evaluator σ → List Event → Option Error → Evaluator σ → Prop) : Prop where
  nil : ∀ {s}, R 0 s [] none s
  append : ∀ {l s t u es fs failure},
    R l s es none t → R l t fs failure u → R l s (es ++ fs) failure u
  raise : ∀ {l m s es failure t}, l ≤ m → R l s es failure t → R m s es failure t
  evaluate : ∀ e, (env.traceEvaluate e).Obeys (R 0)
  assign : ∀ name v, (silent (Env.assign name v)).Obeys (R 0)
  refuse : ∀ {l s}, env.config.maxDepth ≤ s.depth →
    R (l + 1) s [.tooDeep] (some (.evaluation (.tooDeep env.config.maxDepth))) s
  deeper : ∀ {l s es failure t}, ¬ env.config.maxDepth ≤ s.depth →
    R l { s with depth := s.depth + 1 } es failure t →
      R (l + 1) s es failure { t with depth := t.depth - 1 }
  exhaust : ∀ {s}, env.config.maxIterations < s.iterations + 1 →
    R 0 s [] (some (.evaluation (.tooManyIterations env.config.maxIterations)))
      { s with iterations := s.iterations + 1 }
  iterate : ∀ {l s scope es failure t}, ¬ env.config.maxIterations < s.iterations + 1 →
    R l { s with iterations := s.iterations + 1, scopes := scope :: s.scopes } es failure t →
      R l s (.iteration :: es) failure { t with scopes := t.scopes.tail }

namespace Env.Law

variable {env : Env σ} {R : Nat → Evaluator σ → List Event → Option Error → Evaluator σ → Prop}
  {body : Traced Event (Evaluator σ) String}

theorem obeys_deeper (law : env.Law R) {l : Nat} (obeys : body.Obeys (R l)) :
    (env.traceDeeper body).Obeys (R (l + 1)) := by
  intro s
  simp only [traceDeeper, Env.deeper]
  split
  · next exceeded => exact law.refuse exceeded
  · next within => exact law.deeper within (obeys { s with depth := s.depth + 1 })

theorem obeys_iteration (law : env.Law R) {l : Nat} (obeys : body.Obeys (R l))
    (scope : Dict Value) : (env.traceIteration scope body).Obeys (R l) := by
  intro s
  rw [traceIteration, events_bind, action_bind, Action.bind_apply]
  simp only [silent, beginIteration]
  by_cases exceeded : env.config.maxIterations < s.iterations + 1
  · rw [if_pos exceeded]
    exact law.raise (Nat.zero_le l) (law.exhaust exceeded)
  · rw [if_neg exceeded]
    exact law.iterate exceeded (obeys _)

theorem compatible (law : env.Law R) : env.Compatible fun l _ x => x.Obeys (R l) where
  pure _ _ := law.nil
  bind first next := first.bind law.append next
  raise le obeys s := law.raise le (obeys s)
  evaluate := law.evaluate
  assign := law.assign
  deeper := law.obeys_deeper
  iteration scope obeys := law.obeys_iteration obeys scope

theorem obeys_render (law : env.Law R) (nodes : List Node) :
    (env.traceRender nodes).Obeys (R (Node.blocksIn nodes + 1)) :=
  law.compatible.render nodes

end Env.Law
end Stencil
