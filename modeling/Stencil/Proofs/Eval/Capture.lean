import Stencil.Proofs.Eval.Budget
import Stencil.Proofs.Eval.Scopes

/-! What a block captures is what it prints in its place. Rendering does not depend on how deep it
happens, so a block may be rendered one block deeper first, and its text be printed from a variable. -/
namespace Stencil

open Stencil.Action Traced

variable {σ α β : Type}

/-- The action leaves the depth as it was, and where it refuses no block it does the same from any lower
depth. -/
structure Traced.IgnoresDepth (x : Traced Event (Evaluator σ) α) : Prop where
  restores : ∀ s, (x.action s).2.depth = s.depth
  lowers : ∀ s, ∀ d ≤ s.depth, .tooDeep ∉ x.events s →
    x.action { s with depth := d } = ((x.action s).1, { (x.action s).2 with depth := d })

namespace Traced.IgnoresDepth

variable {x : Traced Event (Evaluator σ) α} {env : Env σ}

theorem bind {f : α → Traced Event (Evaluator σ) β} (first : x.IgnoresDepth)
    (next : ∀ a, (f a).IgnoresDepth) : (x >>= f).IgnoresDepth where
  restores s := by
    have start := first.restores s
    rw [action_bind, bind_apply]
    cases run : x.action s with
    | mk result t =>
      rw [run] at start
      cases result with
      | ok a => exact ((next a).restores t).trans start
      | error e => exact start
  lowers s d le fits := by
    have start := first.restores s
    rw [events_bind, List.mem_append, not_or] at fits
    have lower := first.lowers s d le fits.1
    rw [action_bind, bind_apply, bind_apply, lower]
    cases run : x.action s with
    | mk result t =>
      rw [run] at start fits
      cases result with
      | ok a => exact (next a).lowers t d (start ▸ le) fits.2
      | error e => rfl

theorem deeper {body : Traced Event (Evaluator σ) α} (inside : body.IgnoresDepth) :
    (env.traceDeeper body).IgnoresDepth where
  restores s := by
    simp only [Env.traceDeeper, Env.deeper]
    split
    · rfl
    · exact congrArg (· - 1) (inside.restores { s with depth := s.depth + 1 })
  lowers s d le fits := by
    simp only [Env.traceDeeper] at fits
    split at fits
    · exact absurd (List.mem_singleton_self _) fits
    · next within =>
      have within' : ¬ env.config.maxDepth ≤ d := fun exceeded => within (Nat.le_trans exceeded le)
      have lower := inside.lowers { s with depth := s.depth + 1 } (d + 1) (Nat.succ_le_succ le) fits
      simp only [Env.traceDeeper, Env.deeper, if_neg within, if_neg within']
      exact congrArg (fun run => (run.1, { run.2 with depth := run.2.depth - 1 })) lower

theorem iteration {body : Traced Event (Evaluator σ) String} (scope : Dict Value)
    (inside : body.IgnoresDepth) : (env.traceIteration scope body).IgnoresDepth := by
  have begins : (silent env.beginIteration : Traced Event (Evaluator σ) Unit).IgnoresDepth := by
    refine ⟨fun s => ?_, fun s d le fits => ?_⟩ <;> simp only [silent, Env.beginIteration] <;>
      split <;> rfl
  refine begins.bind fun _ => ⟨fun s => ?_, fun s d le fits => ?_⟩
  · exact inside.restores { s with scopes := scope :: s.scopes }
  · have fits : .tooDeep ∉ body.events { s with scopes := scope :: s.scopes } :=
      fun member => fits (List.mem_cons_of_mem _ member)
    have lower := inside.lowers { s with scopes := scope :: s.scopes } d le fits
    exact congrArg (fun run => (run.1, { run.2 with scopes := run.2.scopes.tail })) lower

end Traced.IgnoresDepth

theorem Env.ignoresDepth_compatible (env : Env σ) :
    env.Compatible fun _ _ x => x.IgnoresDepth where
  pure _ := ⟨fun _ => rfl, fun _ _ _ _ => rfl⟩
  bind := .bind
  raise _ ignores := ignores
  evaluate _ := ⟨fun _ => rfl, fun _ _ _ _ => rfl⟩
  assign _ _ := ⟨fun _ => rfl, fun _ _ _ _ => rfl⟩
  deeper := .deeper
  iteration := .iteration

namespace Scopes

variable {scopes scopes' : Scopes} {name : String} {value : Value}

/-- Every scope binds what it did, but for `name`. -/
def SameBut (name : String) (scopes scopes' : Scopes) : Prop :=
  List.Forall₂ (fun scope scope' => ∀ other ≠ name, Dict.get? scope' other = Dict.get? scope other)
    scopes scopes'

theorem SameBut.refl (name : String) (scopes : Scopes) : SameBut name scopes scopes :=
  List.forall₂_same.2 fun _ _ _ _ => rfl

theorem Extended.sameBut (extended : Extended {name} scopes scopes') :
    SameBut name scopes scopes' := by
  cases extended with
  | nil => exact .nil
  | cons _ get? outer =>
    refine .cons get? (outer.forall₂.imp fun _ _ overwritten other ne => overwritten.get? other ?_)
    exact fun inside => ne inside.1

theorem get?_overwrite? (found : overwrite? scopes name value = some scopes') :
    scopes'.get? name = some value := by
  induction scopes generalizing scopes' with
  | nil => cases found
  | cons scope scopes ih =>
    rw [overwrite?] at found
    split at found
    · cases found
      simp [get?, Dict.get?_insert_self]
    · next unbound =>
      obtain ⟨outer, inner, rfl⟩ := Option.map_eq_some_iff.1 found
      have none : Dict.get? scope name = none :=
        Dict.get?_eq_none_iff.2 fun bound => unbound (Dict.contains_iff.2 bound)
      simpa [get?, none] using ih inner

/-- What is assigned is found again, if there is a scope to assign it in. -/
theorem get?_assign (nonempty : scopes ≠ []) : (assign scopes name value).get? name = some value := by
  rw [assign]
  cases found : overwrite? scopes name value with
  | some scopes' => exact get?_overwrite? found
  | none =>
    obtain ⟨scope, outer, rfl⟩ := List.exists_cons_of_ne_nil nonempty
    simp [bind, get?, Dict.get?_insert_self]

end Scopes

namespace Env

variable {env : Env σ} {name : String} {body : List Node} {s : Evaluator σ}

/-- Renders `body` for its text, and then the variable that the text was assigned to. -/
def captured (name : String) (body : List Node) : List Node :=
  [.capture name body, .output (.variable name)]

theorem evaluate_variable {text : String} (bound : s.scopes.get? name = some (.string text)) :
    env.evaluate (.variable name) s = (.ok (.string text), s) := by
  simp only [evaluate, eval, evalName, bound, resolve]
  rfl

theorem scopes_render_ne_nil (env : Env σ) (nodes : List Node) (nonempty : s.scopes ≠ []) :
    (env.render nodes s).2.scopes ≠ [] := by
  have kept := ((renderNodes_keeps env nodes).deeper env s).scopes.length_eq
  exact List.ne_nil_of_length_pos (kept ▸ List.length_pos_iff.2 nonempty)

/-- The variable prints what was assigned to it last. -/
theorem renderNodes_captured (nonempty : s.scopes ≠ []) :
    env.renderNodes (captured name body) s = (do
      let text ← env.render body
      assign name (.string text)
      pure text : Action (Evaluator σ) String) s := by
  simp only [captured, renderNodes, renderNode, bind_assoc, pure_bind]
  refine bind_congr fun text t given => ?_
  have nonempty : t.scopes ≠ [] := by
    have kept := scopes_render_ne_nil env body nonempty
    rwa [render, show env.deeper (env.renderNodes body) s = (.ok text, t) from given] at kept
  have bound : (t.scopes.assign name (.string text)).get? name = some (.string text) :=
    Scopes.get?_assign nonempty
  change (env.evaluate (.variable name) >>= fun v => pure ("" ++ (v.text ++ "")) :
    Action (Evaluator σ) String) { t with scopes := t.scopes.assign name (.string text) } = _
  rw [bind_apply, evaluate_variable bound]
  simp only [Value.text, String.empty_append, String.append_empty]
  rfl

/-- A run that captures refuses a block wherever one is refused that renders in place, one block less
deep. -/
theorem tooDeep_notMem_of_captured
    (fits : .tooDeep ∉ (env.traceRender (captured name body)).events s) :
    ¬ env.config.maxDepth ≤ s.depth ∧
      .tooDeep ∉ (env.traceRender body).events { s with depth := s.depth + 1 } := by
  simp only [traceRender, traceDeeper] at fits
  split at fits
  · exact absurd (List.mem_singleton_self _) fits
  · next within =>
    refine ⟨within, fun member => fits ?_⟩
    rw [captured, traceNodes, events_bind, traceNode, events_bind]
    exact List.mem_append_left _ (List.mem_append_left _ member)

/-- Capturing and printing is rendering in place and assigning the text after that. -/
theorem render_captured (nonempty : s.scopes ≠ [])
    (fits : .tooDeep ∉ (env.traceRender (captured name body)).events s) :
    env.render (captured name body) s = (do
      let text ← env.render body
      assign name (.string text)
      pure text : Action (Evaluator σ) String) s := by
  obtain ⟨within, fits⟩ := tooDeep_notMem_of_captured fits
  have ignores := env.ignoresDepth_compatible.render body
  have lower := ignores.lowers { s with depth := s.depth + 1 } s.depth (Nat.le_succ _) fits
  have restored := ignores.restores { s with depth := s.depth + 1 }
  rw [action_traceRender] at lower restored
  rw [render, deeper, if_neg within, renderNodes_captured (by exact nonempty), bind_apply, bind_apply]
  change env.render body s = _ at lower
  rw [lower]
  generalize env.render body { s with depth := s.depth + 1 } = run at restored ⊢
  obtain ⟨e | text, t⟩ := run
  · have back : t.depth - 1 = s.depth := congrArg (· - 1) restored
    exact congrArg (fun d => (Except.error e, { t with depth := d })) back
  · have back : t.depth - 1 = s.depth := congrArg (· - 1) restored
    let assigned := { t with scopes := t.scopes.assign name (.string text) }
    exact congrArg (fun d => (Except.ok text, { assigned with depth := d })) back

/-- Where the depth leaves room for the blocks of `body` and two more, none is refused. -/
theorem tooDeep_notMem_captured (env : Env σ) (name : String) (body : List Node) (s : Evaluator σ)
    (room : s.depth + Node.blocksIn body + 2 ≤ env.config.maxDepth) :
    .tooDeep ∉ (env.traceRender (captured name body)).events s := by
  refine ((fits_law env).obeys_render (captured name body) s).2 ?_
  simp only [captured, Node.blocksIn, Node.blocks]
  omega

/-- A block that is captured under a name and printed from there gives the text that it gives in its
place, or the same error, if it does not lie too deep. What is left of the state is the same but for
that name, which the text stays bound to. In its place the block lies one level less deep. That there
is a scope to assign in holds at the start of a render and stays so. -/
theorem capture_transparent (env : Env σ) (name : String) (body : List Node) (s : Evaluator σ)
    (nonempty : s.scopes ≠ [])
    (fits : .tooDeep ∉
      (env.traceRender [.capture name body, .output (.variable name)]).events s) :
    let run := env.render [.capture name body, .output (.variable name)] s
    let inPlace := env.render body s
    run.1 = inPlace.1 ∧ run.2.depth = inPlace.2.depth ∧
      run.2.iterations = inPlace.2.iterations ∧ run.2.memory = inPlace.2.memory ∧
      Scopes.SameBut name inPlace.2.scopes run.2.scopes ∧
      ∀ text, run.1 = .ok text → run.2.scopes.get? name = some (.string text) := by
  have kept := scopes_render_ne_nil env body nonempty
  have run := render_captured nonempty fits
  rw [bind_apply, captured] at run
  simp only [run]
  generalize env.render body s = inPlace at kept ⊢
  obtain ⟨e | text, t⟩ := inPlace
  · exact ⟨rfl, rfl, rfl, rfl, .refl _ _, nofun⟩
  · refine ⟨rfl, rfl, rfl, rfl, (Scopes.extended_assign t.scopes name _).sameBut, ?_⟩
    rintro _ ⟨⟩
    exact Scopes.get?_assign kept

/-- A body that sets the name itself, reads it, and goes through a loop that binds it too. -/
theorem capture_transparent_of_own_name :
    let body : List Node := [.set "a" (.variable "b"), .output (.variable "a"),
      .loop none "a" (.variable "xs") [.output (.variable "a"), .set "c" (.variable "a")] none]
    let context : Context := ⟨[("b", .string "é"), ("xs", .array [.null, .bool true])]⟩
    let env : Env Nat := ⟨context, { maxDepth := 3 }, .counting⟩
    (env.render body (.initial 0)).1 = .ok "étrue" ∧
      ((env.render body (.initial 0)).2.scopes.get? "a").map Value.text = some "é" ∧
      (env.render [.capture "a" body, .output (.variable "a")] (.initial 0)).1 = .ok "étrue" ∧
      (env.render [.capture "a" body, .output (.variable "a")] (.initial 0)).2.scopes.get? "a" =
        some (.string "étrue") := by
  intro body context env
  have fits := tooDeep_notMem_captured env "a" body (.initial 0) (by
    simp [body, env, Node.blocksIn, Node.blocks, Node.blocksInOtherwise, Evaluator.initial])
  obtain ⟨same, -, -, -, -, bound⟩ := capture_transparent env "a" body (.initial 0)
    (List.cons_ne_nil _ _) fits
  have result : (env.render body (.initial 0)).1 = .ok "étrue" := by
    decide +kernel
  exact ⟨result, by decide +kernel, same.trans result, bound _ (same.trans result)⟩

end Env
end Stencil
