import Stencil.Proofs.Eval.Agreement
import Stencil.Proofs.Eval.Law
import Stencil.Proofs.Filter.Failure

/-! The budgets of a render. A lower budget only cuts a render short; the iterations are counted over
all loops, and the depth over the blocks inside each other. -/
namespace Stencil

variable {σ : Type}

def Event.isIteration : Event → Bool
  | .iteration => true
  | _ => false

/-- How many loop bodies were run. -/
def iterations (events : List Event) : Nat := events.countP Event.isIteration

@[simp] theorem iterations_append (es fs : List Event) :
    iterations (es ++ fs) = iterations es + iterations fs := List.countP_append

@[simp] theorem iterations_iteration (es : List Event) :
    iterations (.iteration :: es) = iterations es + 1 := List.countP_cons_of_pos rfl

@[simp] theorem iterations_map_use (uses : List Use) : iterations (uses.map .use) = 0 := by
  rw [iterations, List.countP_eq_zero]
  intro e member
  obtain ⟨use, _, rfl⟩ := List.mem_map.1 member
  exact Bool.false_ne_true

namespace Env

/-- The counter counts every iteration, and no iteration begins with the counter at the limit. -/
def Counts (limit : Nat) (_ : Nat) (s : Evaluator σ) (es : List Event) (_ : Option Error)
    (t : Evaluator σ) : Prop :=
  s.iterations + iterations es ≤ t.iterations ∧
    s.iterations + iterations es ≤ max s.iterations limit

theorem counts_of_none {limit level : Nat} {s t : Evaluator σ} {es : List Event}
    {failure : Option Error} (none : iterations es = 0) (le : s.iterations ≤ t.iterations) :
    Counts limit level s es failure t := by
  rw [Counts, none, Nat.add_zero]
  exact ⟨le, Nat.le_max_left _ _⟩

theorem counts_law (env : Env σ) : env.Law (Counts env.config.maxIterations) where
  nil := counts_of_none rfl (Nat.le_refl _)
  append := by
    intro l s t u es fs failure first second
    simp only [Counts, iterations_append] at first second ⊢
    omega
  raise _ counts := counts
  evaluate e s := counts_of_none (iterations_map_use _) (Nat.le_refl _)
  assign name v s := counts_of_none rfl (Nat.le_refl _)
  refuse _ := counts_of_none rfl (Nat.le_refl _)
  deeper _ counts := counts
  exhaust _ := counts_of_none rfl (Nat.le_succ _)
  iterate := by
    intro l s scope es failure t within counts
    simp only [Counts, iterations_iteration] at counts ⊢
    omega

/-- The depth is restored, and no block is refused where the limit leaves room for `level` more. -/
def Fits (limit level : Nat) (s : Evaluator σ) (es : List Event) (_ : Option Error)
    (t : Evaluator σ) : Prop :=
  t.depth = s.depth ∧ (s.depth + level ≤ limit → .tooDeep ∉ es)

theorem fits_law (env : Env σ) : env.Law (Fits env.config.maxDepth) where
  nil := by simp [Fits]
  append := by
    intro l s t u es fs failure first second
    refine ⟨second.1.trans first.1, fun room => ?_⟩
    rw [List.mem_append, not_or]
    exact ⟨first.2 room, second.2 (first.1 ▸ room)⟩
  raise le fits := ⟨fits.1, fun room => fits.2 (by omega)⟩
  evaluate e s := ⟨rfl, fun _ => by simp [traceEvaluate]⟩
  assign name v s := ⟨rfl, fun _ => List.not_mem_nil⟩
  refuse exceeded := ⟨rfl, fun room => by omega⟩
  deeper := by
    intro l s es failure t _ fits
    have restored : t.depth = s.depth + 1 := fits.1
    refine ⟨by simp [restored], fun room => fits.2 ?_⟩
    change s.depth + 1 + l ≤ env.config.maxDepth
    omega
  exhaust _ := by simp [Fits]
  iterate := by
    intro l s scope es failure t _ fits
    refine ⟨fits.1, fun room => ?_⟩
    rw [List.mem_cons, not_or]
    exact ⟨nofun, fits.2 room⟩

/-- A callable fails with the error of a block that lies too deep. -/
def AnswersTooDeep (limit : Nat) (us : List Use) : Prop :=
  ∃ use ∈ us, use.result = .error (.evaluation (.tooDeep limit))

theorem answersTooDeep_use_law (env : Env σ) :
    env.UseLaw fun _ us failure _ =>
      ∀ limit, failure = some (.evaluation (.tooDeep limit)) → AnswersTooDeep limit us where
  nil := nofun
  append := by
    intro m n o us vs failure _ second limit failed
    obtain ⟨use, member, result⟩ := second limit failed
    exact ⟨use, List.mem_append_right us member, result⟩
  call f args _ := by
    intro m limit failed
    exact ⟨_, List.mem_singleton_self _, failure?_eq_some_iff.1 failed⟩
  once _ := by
    intro m limit failed
    exact ⟨_, List.mem_singleton_self _, failure?_eq_some_iff.1 failed⟩
  filter name v args := by
    intro m limit failed
    exact absurd (failure?_eq_some_iff.1 failed) (Filter.applyNamed_ne_tooDeep _ _ _ _ _ _ _)

/-- The error of a block that lies too deep comes from such a block or from a callable. -/
def Explained (_ : Nat) (_ : Evaluator σ) (es : List Event) (failure : Option Error)
    (_ : Evaluator σ) : Prop :=
  ∀ limit, failure = some (.evaluation (.tooDeep limit)) →
    .tooDeep ∈ es ∨ AnswersTooDeep limit (es.filterMap Event.use?)

theorem explained_law (env : Env σ) : env.Law Explained where
  nil := nofun
  append := by
    intro l s t u es fs failure _ second limit failed
    rcases second limit failed with deep | ⟨use, member, result⟩
    · exact .inl (List.mem_append_right es deep)
    · refine .inr ⟨use, ?_, result⟩
      rw [List.filterMap_append]
      exact List.mem_append_right _ member
  raise _ explained := explained
  evaluate e := by
    intro s limit failed
    have answers := (answersTooDeep_use_law env).obeys_eval s.scopes e s.memory limit
    rw [action_traceEval] at answers
    refine .inr ?_
    rw [traceEvaluate, filterMap_map_use]
    exact answers failed
  assign name v := by
    intro s limit failed
    cases failed
  refuse _ := fun _ _ => .inl (List.mem_singleton_self _)
  deeper _ explained := explained
  exhaust _ := nofun
  iterate _ explained := by
    intro limit failed
    rcases explained limit failed with deep | answers
    · exact .inl (List.mem_cons_of_mem _ deep)
    · exact .inr answers

theorem iterations_le (env : Env σ) (nodes : List Node) (host : σ) :
    iterations ((env.traceRender nodes).events (.initial host)) ≤ env.config.maxIterations := by
  have counts := (counts_law env).obeys_render nodes (.initial host)
  simpa [Counts, Evaluator.initial] using counts.2

theorem tooDeep_notMem (env : Env σ) {nodes : List Node} (host : σ)
    (room : Node.blocksIn nodes + 1 ≤ env.config.maxDepth) :
    .tooDeep ∉ (env.traceRender nodes).events (.initial host) := by
  have fits := (fits_law env).obeys_render nodes (.initial host)
  exact fits.2 (by simpa [Evaluator.initial] using room)

theorem answersTooDeep_of_render (env : Env σ) {nodes : List Node} {host : σ} {limit : Nat}
    (room : Node.blocksIn nodes + 1 ≤ env.config.maxDepth)
    (failed : (env.render nodes (.initial host)).1 = .error (.evaluation (.tooDeep limit))) :
    AnswersTooDeep limit
      (((env.traceRender nodes).events (.initial host)).filterMap Event.use?) := by
  -- No block is refused, which leaves the callables.
  have explained := (explained_law env).obeys_render nodes (.initial host) limit
  rw [action_traceRender] at explained
  exact (explained (failure?_eq_some_iff.2 failed)).resolve_left (env.tooDeep_notMem host room)

/-- With lower budgets a new render gives what it gives with higher ones, or says which of its
budgets is exceeded. It runs no more loop bodies than the budget allows. Where the depth leaves room
for all blocks, none is refused, and only a callable can fail with the error of such a block. -/
theorem render_budgets (context : Context) (host : Host σ) (config config' : Config)
    (nodes : List Node) (state : σ) (timezone : config.timezone = config'.timezone)
    (depth : config.maxDepth ≤ config'.maxDepth)
    (iterations_le : config.maxIterations ≤ config'.maxIterations) :
    let env : Env σ := ⟨context, config, host⟩
    let env' : Env σ := ⟨context, config', host⟩
    let s := Evaluator.initial state
    let events := (env.traceRender nodes).events s
    (env.render nodes s = env'.render nodes s ∨
      (env.render nodes s).1 = .error (.evaluation (.tooDeep config.maxDepth)) ∨
      (env.render nodes s).1 = .error (.evaluation (.tooManyIterations config.maxIterations))) ∧
    (env.traceRender nodes).action = env.render nodes ∧
    iterations events ≤ config.maxIterations ∧
    (Node.blocksIn nodes + 1 ≤ config.maxDepth →
      .tooDeep ∉ events ∧
      ∀ limit, (env.render nodes s).1 = .error (.evaluation (.tooDeep limit)) →
        AnswersTooDeep limit (events.filterMap Event.use?)) := by
  intro env env' s events
  refine ⟨?_, action_traceRender env nodes, env.iterations_le nodes state, fun room =>
    ⟨env.tooDeep_notMem state room, fun limit => env.answersTooDeep_of_render room⟩⟩
  let stops (e : Error) : Prop := e = .evaluation (.tooDeep config.maxDepth) ∨
    e = .evaluation (.tooManyIterations config.maxIterations)
  have budgets : BudgetsUpTo stops env env' :=
    ⟨.inr ⟨depth, .inl rfl⟩, .inr ⟨iterations_le, .inr rfl⟩, .inl rfl⟩
  have agree : Agree (Node.namesIn nodes) env env' := ⟨rfl, rfl, timezone, fun _ _ => rfl⟩
  rcases render_upTo budgets agree s with same | ⟨e, rfl | rfl, failed⟩
  · exact .inl same
  · exact .inr (.inl failed)
  · exact .inr (.inr failed)

/-- One iteration is too few for a loop over two items. -/
theorem render_budgets_of_two_items :
    let nodes : List Node := [.loop none "x" (.variable "xs") [.text "."] none]
    let context : Context := ⟨[("xs", .array [.null, .null])]⟩
    let env : Env Nat := ⟨context, { maxIterations := 1, maxDepth := 2 }, .counting⟩
    let events := (env.traceRender nodes).events (.initial 0)
    (env.render nodes (.initial 0)).1 = .error (.evaluation (.tooManyIterations 1)) ∧
      iterations events ≤ 1 ∧ .tooDeep ∉ events := by
  intro nodes context env events
  obtain ⟨_, _, few, fits⟩ := render_budgets context .counting { maxIterations := 1, maxDepth := 2 }
    {} nodes 0 rfl (by decide) (by decide)
  exact ⟨rfl, few, (fits (by decide)).1⟩

end Env
end Stencil
