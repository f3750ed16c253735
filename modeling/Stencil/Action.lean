import Stencil.Error

/-! Computations that may fail and keep their state when they do. -/
namespace Stencil

abbrev Action (σ : Type) := ExceptT Error (StateM σ)

namespace Action

theorem pure_apply {σ α : Type} (a : α) (s : σ) : (pure a : Action σ α) s = (.ok a, s) := rfl

/-- What follows runs only after a success, from the state that the success left. -/
theorem bind_apply {σ α β : Type} (x : Action σ α) (f : α → Action σ β) (s : σ) :
    (x >>= f) s =
      match x s with
      | (.ok a, t) => f a t
      | (.error e, t) => (.error e, t) := by
  change (match x s with | (a, t) => ExceptT.bindCont f a t) = _
  rcases x s with ⟨_ | _, _⟩ <;> rfl

end Action
end Stencil
