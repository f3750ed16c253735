import Mathlib.Order.Defs.Unbundled
import Stencil.Action

/-! Runs of actions, step by step: what a successful run gives, and what every run maintains. -/
namespace Stencil

theorem bind_eq_ok_iff {α β : Type} {x : Except Error α} {f : α → Except Error β} {b : β} :
    x >>= f = .ok b ↔ ∃ a, x = .ok a ∧ f a = .ok b := by
  cases x with
  | error e => simp [bind, Except.bind]
  | ok a => simp [bind, Except.bind]

theorem map_eq_ok_iff {α β : Type} {x : Except Error α} {f : α → β} {b : β} :
    x.map f = .ok b ↔ ∃ a, x = .ok a ∧ f a = b := by
  cases x with
  | error e => simp [Except.map]
  | ok a => simp [Except.map]

theorem bind_eq_error_iff {α β : Type} {failure : Error} {x : Except Error α}
    {f : α → Except Error β} :
    x >>= f = .error failure ↔ x = .error failure ∨ ∃ a, x = .ok a ∧ f a = .error failure := by
  cases x with
  | error e => simp [bind, Except.bind]
  | ok a => simp [bind, Except.bind]

theorem map_eq_error_iff {α β : Type} {failure : Error} {x : Except Error α} {f : α → β} :
    x.map f = .error failure ↔ x = .error failure := by
  cases x with
  | error e => simp [Except.map]
  | ok a => simp [Except.map]

/-- Where `x` fails, it fails with an error of `errors`. -/
def FailsOnly {α : Type} (errors : Error → Prop) (x : Except Error α) : Prop :=
  ∀ ⦃e⦄, x = .error e → errors e

section FailsOnly

variable {α β : Type} {errors others : Error → Prop} {x : Except Error α} {f : α → Except Error β}

theorem failsOnly_ok (a : α) : FailsOnly errors (.ok a : Except Error α) := nofun

theorem failsOnly_error {e : Error} (member : errors e) :
    FailsOnly errors (.error e : Except Error α) := by
  rintro _ ⟨⟩
  exact member

theorem FailsOnly.mono (only : FailsOnly errors x) (le : ∀ e, errors e → others e) :
    FailsOnly others x :=
  fun _ failed => le _ (only failed)

theorem FailsOnly.bind (first : FailsOnly errors x) (next : ∀ a, FailsOnly errors (f a)) :
    FailsOnly errors (x >>= f) := by
  intro e failed
  rcases bind_eq_error_iff.1 failed with failed | ⟨a, -, failed⟩
  · exact first failed
  · exact next a failed

theorem FailsOnly.map {g : α → β} (only : FailsOnly errors x) : FailsOnly errors (x.map g) :=
  fun _ failed => only (map_eq_error_iff.1 failed)

end FailsOnly

namespace Action

variable {σ α β : Type} {x y : Action σ α} {s t u : σ} {a b : α}

/-- From the state `s` the action succeeds with `a` and leaves the state `t`. -/
def Gives (x : Action σ α) (s : σ) (a : α) (t : σ) : Prop := x s = (.ok a, t)

theorem fst_eq_ok_iff : (x s).1 = .ok a ↔ ∃ t, x.Gives s a t := by
  unfold Gives
  constructor
  · intro h
    exact ⟨(x s).2, Prod.ext h rfl⟩
  · rintro ⟨t, h⟩
    rw [h]

@[simp] theorem gives_pure_iff : (pure a : Action σ α).Gives s b t ↔ a = b ∧ s = t := by
  change ((Except.ok a : Except Error α), s) = (Except.ok b, t) ↔ _
  simp

@[simp] theorem gives_bind_iff {f : α → Action σ β} {b : β} :
    (x >>= f).Gives s b u ↔ ∃ a t, x.Gives s a t ∧ (f a).Gives t b u := by
  constructor
  · intro h
    unfold Gives at h
    rw [bind_apply] at h
    split at h
    · next a t first => exact ⟨a, t, first, h⟩
    · cases h
  · rintro ⟨a, t, first, second⟩
    unfold Gives at first second ⊢
    rw [bind_apply, first]
    exact second

@[simp] theorem gives_map_iff {f : α → β} {b : β} :
    (f <$> x).Gives s b t ↔ ∃ a, x.Gives s a t ∧ f a = b := by
  rw [map_eq_pure_bind, gives_bind_iff]
  constructor
  · rintro ⟨a, u, first, last⟩
    obtain ⟨rfl, rfl⟩ := gives_pure_iff.1 last
    exact ⟨a, first, rfl⟩
  · rintro ⟨a, first, rfl⟩
    exact ⟨a, t, first, gives_pure_iff.2 ⟨rfl, rfl⟩⟩

@[simp] theorem gives_throw_iff {e : Error} : (throw e : Action σ α).Gives s a t ↔ False := by
  change ((Except.error e : Except Error α), s) = (Except.ok a, t) ↔ False
  simp

@[simp] theorem gives_ite_iff {p : Prop} [Decidable p] :
    (if p then x else y).Gives s a t ↔ if p then x.Gives s a t else y.Gives s a t := by
  split <;> rfl

/-- From the state `s` the action fails with `e`. -/
def Fails (x : Action σ α) (s : σ) (e : Error) : Prop := (x s).1 = .error e

variable {e : Error}

@[simp] theorem fails_pure_iff : (pure a : Action σ α).Fails s e ↔ False := by
  change (Except.ok a : Except Error α) = .error e ↔ _
  simp

@[simp] theorem fails_bind_iff {f : α → Action σ β} :
    (x >>= f).Fails s e ↔ x.Fails s e ∨ ∃ a t, x.Gives s a t ∧ (f a).Fails t e := by
  unfold Fails Gives
  rw [bind_apply]
  rcases x s with ⟨failure | a, t⟩ <;> dsimp only
  · constructor
    · exact fun failed => .inl (congrArg _ (Except.error.inj failed))
    · rintro (failed | ⟨_, _, given, _⟩)
      · exact congrArg _ (Except.error.inj failed)
      · cases given
  · constructor
    · exact fun failed => .inr ⟨a, t, rfl, failed⟩
    · rintro (failed | ⟨_, _, given, failed⟩)
      · cases failed
      · cases given
        exact failed

theorem Gives.not_fails (given : x.Gives s a t) : ¬ x.Fails s e := by
  unfold Gives at given
  unfold Fails
  rw [given]
  nofun

/-- What follows matters only where the first action succeeds. -/
theorem bind_congr {f g : α → Action σ β} (same : ∀ a t, x.Gives s a t → f a t = g a t) :
    (x >>= f) s = (x >>= g) s := by
  rw [bind_apply, bind_apply]
  split
  · next a t run => exact same a t run
  · rfl

theorem bind_of_eq {f : α → Action σ β} (same : x s = y s) : (x >>= f) s = (y >>= f) s := by
  rw [bind_apply, bind_apply, same]

/-- Every run, a failing one as well, ends in a state that `R` relates to the first one. -/
def Maintains (R : σ → σ → Prop) (x : Action σ α) : Prop := ∀ s, R s (x s).2

variable {R : σ → σ → Prop}

theorem Maintains.mono {S : σ → σ → Prop} (maintains : x.Maintains R)
    (le : ∀ s t, R s t → S s t) : x.Maintains S := fun s => le _ _ (maintains s)

variable [IsPreorder σ R]

theorem maintains_pure (a : α) : (pure a : Action σ α).Maintains R := fun s => refl s

theorem Maintains.bind {f : α → Action σ β} (first : x.Maintains R)
    (next : ∀ a, (f a).Maintains R) : (x >>= f).Maintains R := by
  intro s
  have start := first s
  rw [bind_apply]
  split
  · next a t run =>
    rw [run] at start
    exact IsTrans.trans _ _ _ start (next a t)
  · next e t run => rwa [run] at start

end Action
end Stencil
