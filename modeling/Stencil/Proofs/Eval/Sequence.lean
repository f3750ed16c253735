import Stencil.Proofs.Eval.Scopes

/-! Rendering one forest after another. -/
namespace Stencil.Env

open Stencil.Action Evaluator

variable {σ α β : Type} {env : Env σ} {x : Action (Evaluator σ) α}

theorem renderNodes_append (env : Env σ) (ns ms : List Node) :
    env.renderNodes (ns ++ ms) = (do
      let text ← env.renderNodes ns
      let rest ← env.renderNodes ms
      pure (text ++ rest)) := by
  induction ns with
  | nil => simp only [List.nil_append, renderNodes, pure_bind, String.empty_append, bind_pure]
  | cons node ns ih =>
    simp only [List.cons_append, renderNodes, ih, bind_assoc, pure_bind, String.append_assoc]

/-- Two actions that follow each other may go deeper one at a time, if the first one comes back. -/
theorem deeper_bind (keeps : x.Maintains fun s t => t.depth = s.depth)
    (f : α → Action (Evaluator σ) β) :
    env.deeper (x >>= f) = env.deeper x >>= fun a => env.deeper (f a) := by
  funext s
  rw [bind_apply]
  unfold deeper
  by_cases full : env.config.maxDepth ≤ s.depth
  · simp only [if_pos full]
  · have depth : (x { s with depth := s.depth + 1 }).2.depth = s.depth + 1 := keeps _
    simp only [if_neg full, bind_apply]
    cases run : x { s with depth := s.depth + 1 } with
    | mk result t =>
      rw [run] at depth
      cases result with
      | error e => rfl
      | ok a =>
        have back : t.depth - 1 = s.depth := by rw [depth, Nat.add_sub_cancel]
        have again : { t with depth := s.depth + 1 } = t := by rw [← depth]
        simp only [back, if_neg full, again]

theorem deeper_map (f : α → β) : env.deeper (f <$> x) = f <$> env.deeper x := by
  funext s
  simp only [map_eq_pure_bind, bind_apply]
  unfold deeper
  split
  · rfl
  · rw [bind_apply]
    rcases x { s with depth := s.depth + 1 } with ⟨e | a, t⟩ <;> rfl

/-- Rendering two forests as one is rendering them one after the other, whatever comes of it. -/
theorem render_append (env : Env σ) (ns ms : List Node) :
    env.render (ns ++ ms) = (do
      let text ← env.render ns
      let rest ← env.render ms
      pure (text ++ rest)) := by
  have keeps : (env.renderNodes ns).Maintains fun s t => t.depth = s.depth :=
    (renderNodes_keeps env ns).mono fun _ _ kept => kept.depth
  simp only [render, renderNodes_append, ← map_eq_pure_bind]
  rw [deeper_bind keeps]
  simp only [deeper_map]

end Stencil.Env
