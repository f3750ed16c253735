import Mathlib.Data.List.Induction
import Stencil.Proofs.Eval.Law

/-! Callables of the context under their bare names. Over the whole life of an evaluator each is
called until it succeeds, and what it gave then is given from there on. -/
namespace Stencil

variable {σ : Type}

/-- What is asked of an evaluator. -/
inductive Step
  | render (nodes : List Node)
  | evaluate (e : Expr)

namespace Env

/-- The evaluator after a step, a failing one as well. -/
def step (env : Env σ) : Step → Evaluator σ → Evaluator σ
  | .render nodes, s => (env.render nodes s).2
  | .evaluate e, s => (env.evaluate e s).2

def steps (env : Env σ) : List Step → Evaluator σ → Evaluator σ
  | [], s => s
  | step :: more, s => steps env more (env.step step s)

/-- The callables that a step uses, in order. -/
def stepUses (env : Env σ) : Step → Evaluator σ → List Use
  | .render nodes, s => ((env.traceRender nodes).events s).filterMap Event.use?
  | .evaluate e, s => (env.traceEval s.scopes e).events s.memory

def uses (env : Env σ) : List Step → Evaluator σ → List Use
  | [], _ => []
  | step :: more, s => env.stepUses step s ++ uses env more (env.step step s)

end Env

namespace Use

/-- The value that this use gives the bare name. -/
def given? (name : String) : Use → Option Value
  | ⟨.bare other, _, .ok v⟩ => if other = name then some v else none
  | _ => none

/-- Does it call a callable for the bare name, with success? -/
def isResolution (name : String) (u : Use) : Bool := u.invocation.isSome && (u.given? name).isSome

theorem given?_eq_some_iff {name : String} {u : Use} {v : Value} :
    u.given? name = some v ↔ u.route = .bare name ∧ u.result = .ok v := by
  rcases u with ⟨route, invocation, result⟩
  cases route with
  | bare other => cases result <;> by_cases same : other = name <;> simp [given?, same]
  | _ => simp [given?]

theorem isResolution_iff {name : String} {u : Use} :
    u.isResolution name = true ↔
      u.route = .bare name ∧ u.invocation ≠ none ∧ ∃ v, u.result = .ok v := by
  rw [isResolution, Bool.and_eq_true, Option.isSome_iff_ne_none, Option.isSome_iff_exists]
  simp only [given?_eq_some_iff, exists_and_left, and_left_comm]

end Use

/-- The value that the first success gave the bare name. -/
def resolution? (name : String) (history : List Use) : Option Value :=
  history.findSome? (Use.given? name)

namespace Env

/-- The host, asked for every invocation in turn, gives the results that were used. -/
def Replays (env : Env σ) : σ → List Use → σ → Prop
  | host, [], host' => host' = host
  | host, u :: us, host' =>
    match u.invocation with
    | some (f, args) =>
      (env.host.call f args host).1 = u.result ∧ Replays env (env.host.call f args host).2 us host'
    | none => Replays env host us host'

/-- A bare name is answered from its resolution or, before there is one, by calling its callable
without arguments. On all other routes callables are called. -/
def Answers (env : Env σ) (before : List Use) (u : Use) : Prop :=
  match u.route with
  | .bare name => ∃ f, env.context.get? name = some (.callable f) ∧
    match resolution? name before with
    | some v => u.invocation = none ∧ u.result = .ok v
    | none => u.invocation = some (f, [])
  | _ => u.invocation.isSome

/-- The history accounts for the memory: it holds all calls of the host, and what is remembered is
what bare names resolved to. -/
structure Remembers (env : Env σ) (host : σ) (history : List Use) (m : Memory σ) : Prop where
  replays : env.Replays host history m.host
  resolved : ∀ name, Dict.get? m.resolved name = resolution? name history
  answers : ∀ before u after, history = before ++ u :: after → env.Answers before u

variable {env : Env σ} {host host' host'' : σ} {history us vs : List Use} {u : Use}
  {m n : Memory σ}

theorem Replays.append (first : env.Replays host us host') (second : env.Replays host' vs host'') :
    env.Replays host (us ++ vs) host'' := by
  induction us generalizing host with
  | nil =>
    cases first
    exact second
  | cons u us ih =>
    rw [List.cons_append]
    unfold Replays at first ⊢
    split at first
    · exact ⟨first.1, ih first.2⟩
    · exact ih first

theorem Remembers.snoc (remembers : env.Remembers host history m)
    (answers : env.Answers history u) (replays : env.Replays m.host [u] n.host)
    (resolved : ∀ name, Dict.get? n.resolved name =
      (Dict.get? m.resolved name).or (u.given? name)) :
    env.Remembers host (history ++ [u]) n where
  replays := remembers.replays.append replays
  resolved name := by
    rw [resolved, remembers.resolved, resolution?, resolution?, List.findSome?_append]
    simp
  answers := by
    intro before u' after split
    -- The new use is the one that is asked about, or it comes after that one.
    rcases List.eq_nil_or_concat after with rfl | ⟨after, last, rfl⟩
    · obtain ⟨rfl, same⟩ := List.append_inj' split rfl
      cases same
      exact answers
    · have split : history ++ [u] = (before ++ u' :: after) ++ [last] := by simpa using split
      exact remembers.answers before u' after (List.append_inj' split rfl).1

section

variable {name : String} {f : Callable} {v : Value} {e : Error}

theorem resolveOnce_known (known : Dict.get? m.resolved name = some v) :
    env.resolveOnce name (.callable f) m = (.ok v, m) := by
  simp only [resolveOnce, known]

theorem resolveOnce_ok (unknown : Dict.get? m.resolved name = none)
    (called : env.host.call f [] m.host = (.ok v, host')) :
    env.resolveOnce name (.callable f) m = (.ok v, ⟨Dict.insert m.resolved name v, host'⟩) := by
  simp only [resolveOnce, unknown, Action.bind_apply, call, called]
  rfl

theorem resolveOnce_error (unknown : Dict.get? m.resolved name = none)
    (called : env.host.call f [] m.host = (.error e, host')) :
    env.resolveOnce name (.callable f) m = (.error e, { m with host := host' }) := by
  simp only [resolveOnce, unknown, Action.bind_apply, call, called]

theorem events_traceOnce_known (known : Dict.get? m.resolved name = some v) :
    (env.traceOnce name f).events m = [⟨.bare name, none, .ok v⟩] := by
  simp [traceOnce, Traced.recording, Dict.contains, resolveOnce_known, known]

theorem events_traceOnce_unknown (unknown : Dict.get? m.resolved name = none) :
    (env.traceOnce name f).events m =
      [⟨.bare name, some (f, []), (env.resolveOnce name (.callable f) m).1⟩] := by
  simp [traceOnce, Traced.recording, Dict.contains, unknown]

theorem Remembers.once (remembers : env.Remembers host history m)
    (bound : env.context.get? name = some (.callable f)) :
    env.Remembers host (history ++ (env.traceOnce name f).events m)
      (env.resolveOnce name (.callable f) m).2 := by
  have resolved := remembers.resolved name
  cases known : Dict.get? m.resolved name with
  | some v =>
    rw [known] at resolved
    rw [events_traceOnce_known known, resolveOnce_known known]
    refine remembers.snoc ⟨f, bound, ?_⟩ rfl fun other => ?_
    · rw [← resolved]
      exact ⟨rfl, rfl⟩
    · by_cases same : name = other
      · subst same
        rw [known]
        rfl
      · simp [Use.given?, same]
  | none =>
    rw [known] at resolved
    rw [events_traceOnce_unknown known]
    have answers (result : Except Error Value) :
        env.Answers history ⟨.bare name, some (f, []), result⟩ :=
      ⟨f, bound, by rw [← resolved]⟩
    cases called : env.host.call f [] m.host with
    | mk result host' =>
      cases result with
      | ok v =>
        rw [resolveOnce_ok known called]
        refine remembers.snoc (answers _) ?_ fun other => ?_
        · simp [Replays, called]
        · by_cases same : name = other
          · subst same
            rw [known, Dict.get?_insert_self]
            simp [Use.given?]
          · rw [Dict.get?_insert_of_ne _ _ (Ne.symm same)]
            simp [Use.given?, same]
      | error e =>
        rw [resolveOnce_error known called]
        refine remembers.snoc (answers _) ?_ fun other => ?_
        · simp [Replays, called]
        · exact Option.or_none.symm

end

theorem remembers_law (env : Env σ) (host : σ) : env.UseLaw fun m us _ n =>
    ∀ history, env.Remembers host history m → env.Remembers host (history ++ us) n where
  nil := by
    intro m history remembers
    rwa [List.append_nil]
  append := by
    intro m n o us vs _ first second history remembers
    rw [← List.append_assoc]
    exact second _ (first _ remembers)
  call := by
    intro route f args notBare m history remembers
    refine remembers.snoc ?_ ⟨rfl, rfl⟩ fun name => ?_
    · cases route with
      | bare name => exact absurd rfl (notBare name)
      | _ => rfl
    · cases route with
      | bare name => exact absurd rfl (notBare name)
      | _ => exact Option.or_none.symm
  once := by
    intro name f bound m history remembers
    exact remembers.once bound
  filter := by
    intro name v args m history remembers
    change env.Remembers host (history ++ []) m
    rwa [List.append_nil]

theorem remembers_node_law (env : Env σ) (host : σ) : env.Law fun _ s es _ t =>
    ∀ history, env.Remembers host history s.memory →
      env.Remembers host (history ++ es.filterMap Event.use?) t.memory where
  nil := by
    intro s history remembers
    exact (remembers_law env host).nil history remembers
  append := by
    intro l s t u es fs _ first second history remembers
    rw [List.filterMap_append, ← List.append_assoc]
    exact second _ (first _ remembers)
  raise _ remembers := remembers
  evaluate e := by
    intro s history remembers
    have after := (remembers_law env host).obeys_eval s.scopes e s.memory history remembers
    rw [action_traceEval] at after
    rw [traceEvaluate, filterMap_map_use]
    exact after
  assign _ _ _ := (remembers_law env host).nil
  refuse _ := (remembers_law env host).nil
  deeper _ remembers := remembers
  exhaust _ := (remembers_law env host).nil
  iterate _ remembers := remembers

theorem Remembers.step {s : Evaluator σ} (remembers : env.Remembers host history s.memory)
    (step : Step) :
    env.Remembers host (history ++ env.stepUses step s) (env.step step s).memory := by
  cases step with
  | render nodes =>
    have after := (remembers_node_law env host).obeys_render nodes s history remembers
    rwa [action_traceRender] at after
  | evaluate e =>
    have after := (remembers_law env host).obeys_eval s.scopes e s.memory history remembers
    rwa [action_traceEval] at after

theorem Remembers.steps {s : Evaluator σ} (remembers : env.Remembers host history s.memory)
    (steps : List Step) :
    env.Remembers host (history ++ env.uses steps s) (env.steps steps s).memory := by
  induction steps generalizing history s with
  | nil => rwa [uses, List.append_nil]
  | cons step more ih =>
    rw [uses, ← List.append_assoc]
    exact ih (remembers.step step)

theorem resolution?_eq_none {before : List Use} {name : String} (answers : env.Answers before u)
    (resolves : u.isResolution name = true) : resolution? name before = none := by
  obtain ⟨route, called, _⟩ := Use.isResolution_iff.1 resolves
  rw [Answers, route] at answers
  obtain ⟨f, _, answered⟩ := answers
  cases found : resolution? name before with
  | none => rfl
  | some v =>
    rw [found] at answered
    exact absurd answered.1 called

theorem countP_eq_zero_of_resolution? {name : String} (unresolved : resolution? name us = none) :
    us.countP (Use.isResolution name) = 0 := by
  rw [List.countP_eq_zero]
  intro u member resolves
  have nothing : u.given? name = none := List.findSome?_eq_none_iff.1 unresolved u member
  rw [Use.isResolution, nothing] at resolves
  simp at resolves

theorem Remembers.countP_le_one (remembers : env.Remembers host history m) (name : String) :
    history.countP (Use.isResolution name) ≤ 1 := by
  have answers := remembers.answers
  clear remembers
  -- From the end: a use that resolves the name finds it unresolved, so it is the first to do so.
  induction history using List.reverseRecOn with
  | nil => exact Nat.zero_le 1
  | append_singleton us u ih =>
    rw [List.countP_append, List.countP_singleton]
    split
    · next resolves =>
      have unresolved := resolution?_eq_none (answers us u [] rfl) resolves
      have nothing := countP_eq_zero_of_resolution? unresolved
      omega
    · exact ih fun before w after split => answers before w (after ++ [u]) (by simp [split])

theorem Remembers.bound (remembers : env.Remembers host history m) {name : String} {v : Value}
    (resolved : resolution? name history = some v) :
    ∃ f, env.context.get? name = some (.callable f) := by
  obtain ⟨u, member, given⟩ := List.exists_of_findSome?_eq_some resolved
  obtain ⟨before, after, split⟩ := List.append_of_mem member
  have answers := remembers.answers before u after split
  rw [Answers, (Use.given?_eq_some_iff.1 given).1] at answers
  obtain ⟨f, bound, _⟩ := answers
  exact ⟨f, bound⟩

theorem Remembers.evaluate {s : Evaluator σ} (remembers : env.Remembers host history s.memory)
    {name : String} {v : Value} (resolved : resolution? name history = some v)
    (unshadowed : s.scopes.get? name = none) :
    env.evaluate (.variable name) s = (.ok v, s) := by
  obtain ⟨f, bound⟩ := remembers.bound resolved
  have known := (remembers.resolved name).trans resolved
  simp [Env.evaluate, eval, evalName, unshadowed, bound, resolveOnce_known known]

theorem remembers_initial (env : Env σ) (host : σ) :
    env.Remembers host [] (Evaluator.initial host).memory where
  replays := rfl
  resolved _ := rfl
  answers := by
    intro before u after split
    simp at split

theorem get?_innermost {inner outer : Scopes} {scope : Dict Value} {name : String} {v : Value}
    (absent : ∀ other ∈ inner, Dict.get? other name = none)
    (entry : Dict.get? scope name = some v) :
    Scopes.get? (inner ++ scope :: outer) name = some v := by
  rw [Scopes.get?, List.findSome?_append, List.findSome?_eq_none_iff.2 absent,
    List.findSome?_cons, entry]
  rfl

/-- A name with an entry in some scope is answered by the innermost such entry, and what is remembered
stays as it is. -/
theorem eval_variable_of_entry (env : Env σ) {inner outer : Scopes} {scope : Dict Value}
    {name : String} {v : Value} (absent : ∀ other ∈ inner, Dict.get? other name = none)
    (entry : Dict.get? scope name = some v) (m : Memory σ) :
    env.eval (inner ++ scope :: outer) (.variable name) m = env.resolve v m ∧
      (env.resolve v m).2.resolved = m.resolved ∧
      ∀ f, v = .callable f →
        (env.traceEval (inner ++ scope :: outer) (.variable name)).events m =
          [⟨.scoped name, some (f, []), (env.call f [] m).1⟩] := by
  have local_entry : Scopes.get? (inner ++ scope :: outer) name = some v :=
    get?_innermost absent entry
  refine ⟨by rw [eval, evalName, local_entry], ?_, ?_⟩
  · cases v <;> rfl
  · rintro f rfl
    rw [traceEval, traceName, local_entry]
    rfl

/-- Whatever is asked of an evaluator, its history accounts for every call of the host and for what it
remembers. A bare name resolves at most once, and then stands for what it gave. A name with an entry
in some scope is shadowed: the innermost such entry answers, and a callable there is called. -/
theorem uses_resolve_once (env : Env σ) (host : σ) (steps : List Step) :
    let history := env.uses steps (.initial host)
    let s := env.steps steps (.initial host)
    env.Remembers host history s.memory ∧
      (∀ name, history.countP (Use.isResolution name) ≤ 1) ∧
      (∀ name v, resolution? name history = some v →
        (∀ scope ∈ s.scopes, Dict.get? scope name = none) →
        env.evaluate (.variable name) s = (.ok v, s)) ∧
      ∀ (inner outer : Scopes) (scope : Dict Value) (name : String) (v : Value) (m : Memory σ),
        (∀ other ∈ inner, Dict.get? other name = none) → Dict.get? scope name = some v →
        env.eval (inner ++ scope :: outer) (.variable name) m = env.resolve v m ∧
          (env.resolve v m).2.resolved = m.resolved ∧
          ∀ f, v = .callable f →
            (env.traceEval (inner ++ scope :: outer) (.variable name)).events m =
              [⟨.scoped name, some (f, []), (env.call f [] m).1⟩] := by
  intro history s
  have remembers := (env.remembers_initial host).steps steps
  refine ⟨remembers, remembers.countP_le_one, fun name v resolved absent => ?_, ?_⟩
  · exact remembers.evaluate resolved (List.findSome?_eq_none_iff.2 absent)
  · exact fun inner outer scope name v m absent entry => env.eval_variable_of_entry absent entry m

/-- A call with arguments, even with none, and a loop variable that hides the name leave it to the
bare name to be resolved. -/
theorem uses_resolve_once_of_hiding_loop :
    let held : Value := .callable ⟨1⟩
    let env : Env Nat := ⟨⟨[("f", .callable ⟨0⟩), ("xs", .array [held, held])]⟩, {}, .counting⟩
    let block : Node := .loop none "f" (.variable "xs") [.set "y" (.variable "f")] none
    let steps : List Step := [.evaluate (.call "f" []), .render [block], .evaluate (.variable "f")]
    let s := env.steps steps (.initial 0)
    (env.uses steps (.initial 0)).map (fun u => u.invocation.map Prod.fst) =
        [some ⟨0⟩, some ⟨1⟩, some ⟨1⟩, some ⟨0⟩] ∧
      s.memory.host = 4 ∧ (∃ v, v.text = "3" ∧ env.evaluate (.variable "f") s = (.ok v, s)) ∧
      env.eval ([("f", held)] :: s.scopes) (.variable "f") s.memory = env.resolve held s.memory := by
  intro held env block steps s
  obtain ⟨_, _, later, hidden⟩ := uses_resolve_once env 0 steps
  have third : (resolution? "f" (env.uses steps (.initial 0))).map Value.text = some "3" := by
    decide +kernel
  obtain ⟨v, resolved, text⟩ := Option.map_eq_some_iff.1 third
  have unshadowed : s.scopes.all (fun scope => (Dict.get? scope "f").isNone) = true := by
    decide +kernel
  refine ⟨by decide +kernel, by decide +kernel, ⟨v, text, ?_⟩, ?_⟩
  · exact later "f" v resolved (by simpa using unshadowed)
  · exact (hidden [] s.scopes [("f", held)] "f" held s.memory (by simp) rfl).1

end Env
end Stencil
