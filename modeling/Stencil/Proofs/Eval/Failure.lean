import Stencil.Proofs.Eval.Agreement
import Stencil.Proofs.Eval.Law
import Stencil.Proofs.Eval.Resolution
import Stencil.Proofs.Filter.Failure
import Stencil.Proofs.Node.ErrorPlace
import Stencil.Template

/-! How compiling and rendering fail. No error of one is an error of the other, as long as the host keeps
to errors of evaluation. -/
namespace Stencil

variable {σ α : Type}

/-- What a render can fail with. -/
inductive Env.CanFail (env : Env σ) : Error → Prop
  | unknownFilter (name : String) : CanFail env (.unknownFilter name)
  | ofFilter {e : Error} (known : e.IsOfFilter) : CanFail env e
  | ofCallable {e : Error} {f : Callable} {args : List Value} {host : σ}
    (failed : (env.host.call f args host).1 = .error e) : CanFail env e
  | overflow (checks : env.host.checksCounts = true) : CanFail env .overflow
  | tooDeep : CanFail env (.evaluation (.tooDeep env.config.maxDepth))
  | tooManyIterations : CanFail env (.evaluation (.tooManyIterations env.config.maxIterations))

namespace Env

/-- Only the call fails: a result that is known already is none of an error. -/
theorem call_error_of_resolveOnce {env : Env σ} {name : String} {f : Callable} {m : Memory σ} {e : Error}
    (failed : (env.resolveOnce name (.callable f) m).1 = .error e) :
    (env.host.call f [] m.host).1 = .error e := by
  cases known : Dict.get? m.resolved name with
  | some v =>
    rw [resolveOnce_known known] at failed
    cases failed
  | none =>
    cases called : env.host.call f [] m.host with
    | mk result host =>
      cases result with
      | ok v =>
        rw [resolveOnce_ok known called] at failed
        cases failed
      | error fault =>
        rw [resolveOnce_error known called] at failed
        exact failed

theorem canFail_use_law (env : Env σ) :
    env.UseLaw fun _ _ failure _ => ∀ e, failure = some e → env.CanFail e where
  nil := nofun
  append _ second := second
  call f args _ := by
    intro m e failed
    exact .ofCallable (failure?_eq_some_iff.1 failed)
  once _ := by
    intro m e failed
    exact .ofCallable (call_error_of_resolveOnce (failure?_eq_some_iff.1 failed))
  filter name v args := by
    intro m e failed
    obtain rfl | known | ⟨checks, rfl⟩ :=
      Filter.applyNamed_failsOnly _ _ _ _ _ _ (failure?_eq_some_iff.1 failed)
    · exact .unknownFilter name
    · exact .ofFilter known
    · exact .overflow checks

theorem canFail_law (env : Env σ) :
    env.Law fun _ _ _ failure _ => ∀ e, failure = some e → env.CanFail e where
  nil := nofun
  append _ second := second
  raise _ fails := fails
  evaluate expr := by
    intro s e failed
    have fails := (canFail_use_law env).obeys_eval s.scopes expr s.memory e
    rw [action_traceEval] at fails
    exact fails failed
  assign name v := by
    intro s e failed
    cases failed
  refuse _ := by
    rintro e ⟨⟩
    exact .tooDeep
  deeper _ fails := fails
  exhaust _ := by
    rintro e ⟨⟩
    exact .tooManyIterations
  iterate _ fails := fails

theorem canFail_of_render {env : Env σ} {nodes : List Node} {s : Evaluator σ} {e : Error}
    (failed : (env.render nodes s).1 = .error e) : env.CanFail e := by
  have fails := (canFail_law env).obeys_render nodes s e
  rw [action_traceRender] at fails
  exact fails (failure?_eq_some_iff.2 failed)

end Env

theorem Template.renderWith_orOverflows (t : Template) (context : Context) (config : Config)
    (host : Host σ) (state : σ) :
    let run (checksCounts : Bool) := t.renderWith context config { host with checksCounts } state
    run true = run false ∨ (run true).1 = .error .overflow := by
  intro run
  let env (checksCounts : Bool) : Env σ := ⟨context, config, { host with checksCounts }⟩
  have budgets : Env.BudgetsUpTo (· = .overflow) (env true) (env false) :=
    ⟨.inl rfl, .inl rfl, .inr ⟨rfl, rfl⟩⟩
  have agree : Env.Agree (Node.namesIn t.nodes) (env true) (env false) :=
    ⟨rfl, rfl, rfl, fun _ _ => rfl⟩
  rcases Env.render_upTo budgets agree (.initial state) with same | ⟨e, rfl, stopped⟩
  · left
    simp only [run, renderWith]
    rw [same]
  · exact .inr stopped

/-- Compiling fails with an error of reading characters or tokens, or of a tag that does not fit its
blocks. The first two point between characters of the template; and if it can be cut, the segment that
is at fault holds the place. Rendering fails with a filter that nobody knows, or with an error of
evaluation, if callables do not fail otherwise. A program that checks its counts renders the same, or
is stopped because a count overflows. -/
theorem Template.compile_and_render_errors (source : String) (config : Config) :
    (∀ e, compile source config = .error e →
      e.isCompileError ∧
      ∀ p, e.position? = some p →
        p ≤ source.utf8ByteSize ∧ (⟨p⟩ : String.Pos.Raw).IsValid source ∧
        ∀ segments, Segment.split source config.trimBlocks = .ok segments →
          ∃ before s after, segments = before ++ s :: after ∧
            Node.FailsBehind source config before (s :: after) e ∧
            s.position ≤ p ∧ p ≤ s.position + s.source.utf8ByteSize) ∧
    ∀ t, compile source config = .ok t →
      ∀ {σ : Type} (host : Host σ) (context : Context) (config' : Config) (state : σ),
        (∀ f args state e, (host.call f args state).1 = .error e → ∃ fault, e = .evaluation fault) →
        let run (checksCounts : Bool) := t.renderWith context config' { host with checksCounts } state
        (∀ e, (run false).1 = .error e →
          (∃ name, e = .unknownFilter name) ∨ ∃ fault, e = .evaluation fault) ∧
        (run true = run false ∨ (run true).1 = .error .overflow) := by
  refine ⟨fun e failed => ?_, fun t _ σ host context config' state evaluates => ⟨fun e failed => ?_,
    t.renderWith_orOverflows context config' host state⟩⟩
  · obtain ⟨stands, inside⟩ := Node.ofSource_standsIn (map_eq_error_iff.1 failed)
    refine ⟨stands.compiles, fun p points => ?_⟩
    have between := stands.between p points
    refine ⟨?_, between.isValid, fun segments cut => ?_⟩
    · have bounds := between.bounds.2
      rwa [Nat.zero_add, Text.byteLength_toList] at bounds
    · obtain ⟨before, s, after, whole, fails, within⟩ := inside segments cut p points
      have bounds := within.bounds
      rw [Text.byteLength_toList] at bounds
      exact ⟨before, s, after, whole, fails, bounds⟩
  · cases Env.canFail_of_render failed with
    | unknownFilter name => exact .inl ⟨name, rfl⟩
    | ofFilter known =>
      obtain ⟨fault, rfl, -⟩ := known
      exact .inr ⟨fault, rfl⟩
    | ofCallable failed => exact .inr (evaluates _ _ _ _ failed)
    | overflow checks => cases checks
    | tooDeep => exact .inr ⟨_, rfl⟩
    | tooManyIterations => exact .inr ⟨_, rfl⟩

set_option maxRecDepth 2000 in
/-- An operand is missing at the end of a tag behind accented letters, and a callable fails. -/
theorem Template.compile_and_render_errors_of_accents :
    let host : Host Unit :=
      { call := fun _ _ state => (.error (.evaluation (.host "no")), state), now := ⟨0, 0⟩ }
    let context : Context := ⟨[("f", .callable ⟨0⟩)]⟩
    compile "é\x7b\x7bé +\x7d\x7d" {} = .error (.parse .expectedExpression none 8) ∧
      (⟨8⟩ : String.Pos.Raw).IsValid "é\x7b\x7bé +\x7d\x7d" ∧
      ∃ t e, compile "\x7b\x7bf\x7d\x7d" {} = .ok t ∧ (t.renderWith context {} host ()).1 = .error e ∧
        ((∃ name, e = .unknownFilter name) ∨ ∃ fault, e = .evaluation fault) := by
  intro host context
  have unread : Node.ofSource "é\x7b\x7bé +\x7d\x7d" {} =
      .error (.parse .expectedExpression none 8) := by cbv
  have read : Node.ofSource "\x7b\x7bf\x7d\x7d" {} = .ok [.output (.variable "f")] := by cbv
  have compiled : compile "\x7b\x7bf\x7d\x7d" {} = .ok ⟨[.output (.variable "f")], {}⟩ :=
    map_eq_ok_iff.2 ⟨_, read, rfl⟩
  have raised : (renderWith ⟨[.output (.variable "f")], {}⟩ context {} host ()).1 =
      .error (.evaluation (.host "no")) := rfl
  have fails := (compile_and_render_errors "é\x7b\x7bé +\x7d\x7d" {}).1 _ (map_eq_error_iff.2 unread)
  refine ⟨map_eq_error_iff.2 unread, (fails.2 8 rfl).2.1, _, _, compiled, raised, ?_⟩
  have renders := (compile_and_render_errors _ _).2 _ compiled host context {} ()
    fun _ _ _ e failed => ⟨_, (Except.error.inj failed).symm⟩
  exact renders.1 _ raised

end Stencil
