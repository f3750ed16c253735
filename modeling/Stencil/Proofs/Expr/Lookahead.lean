import Stencil.Proofs.Expr.Cursor

/-! Parsers look one token ahead: the tokens that a parser passes and the one behind them settle what
it does. Two parsers are compared, since one of them may have more room for nesting. -/
namespace Stencil.Parse

open Stencil.Action Cursor

variable {α β ι : Type} {x y x' y' : Parse α} {c d : Cursor} {t : Token}
  {begun more : List Token → Prop}

/-- Wherever the tokens come that `x` passes from `c`, and the same one behind them, `y` passes them
too and gives the same. -/
def Repeats (x y : Parse α) (c : Cursor) : Prop :=
  ∀ ⦃a d⦄, x.Gives c a d → ∃ ts, Passes c ts d ∧
    ∀ c' d', Passes c' ts d' → d'.next = d.next → y.Gives c' a d'

/-- Where `x` fails from `c`, it has passed tokens that are `begun` and blames the next one; wherever
the same tokens come, and the same one behind them, `y` blames that one too. If `x` lacks room for
nesting, nothing is said of `y`. -/
def Blames (begun : List Token → Prop) (x y : Parse α) (c : Cursor) : Prop :=
  ∀ ⦃e⦄, x.Fails c e → ∃ ts d fault, Passes c ts d ∧ e = d.error fault ∧
    (fault = .tooDeep c.limit ∨ begun ts ∧
      ∀ c' d', Passes c' ts d' → d'.next = d.next → y.Fails c' (d'.error fault))

structure Tracks (begun : List Token → Prop) (x y : Parse α) (c : Cursor) : Prop where
  repeats : Repeats x y c
  blames : Blames begun x y c

theorem Repeats.bind {f g : α → Parse β} (first : Repeats x y c)
    (next : ∀ a d, x.Gives c a d → Repeats (f a) (g a) d) : Repeats (x >>= f) (y >>= g) c := by
  intro b d given
  obtain ⟨a, m, given, rest⟩ := gives_bind_iff.1 given
  obtain ⟨ts, before, same⟩ := first given
  obtain ⟨us, after, others⟩ := next a m given rest
  refine ⟨ts ++ us, before.append after, fun c' d' passes ahead => ?_⟩
  obtain ⟨m', before', after'⟩ := passes_append_iff.1 passes
  have between : m'.next = m.next := after.next_eq after' ahead
  exact gives_bind_iff.2 ⟨a, m', same c' m' before' between, others m' d' after' ahead⟩

theorem Tracks.bind {f g : α → Parse β} (first : Tracks begun x y c)
    (next : ∀ a d ts, x.Gives c a d → Passes c ts d →
      Tracks (fun us => begun (ts ++ us)) (f a) (g a) d) :
    Tracks begun (x >>= f) (y >>= g) c where
  repeats := by
    refine first.repeats.bind fun a d given => ?_
    obtain ⟨ts, passes, -⟩ := first.repeats given
    exact (next a d ts given passes).repeats
  blames := by
    intro e failed
    rcases fails_bind_iff.1 failed with failed | ⟨a, m, given, failed⟩
    · obtain ⟨ts, d, fault, passes, rfl, deep | ⟨start, same⟩⟩ := first.blames failed
      · exact ⟨ts, d, fault, passes, rfl, .inl deep⟩
      · refine ⟨ts, d, fault, passes, rfl, .inr ⟨start, fun c' d' passes' ahead => ?_⟩⟩
        exact fails_bind_iff.2 (.inl (same c' d' passes' ahead))
    · obtain ⟨ts, before, same⟩ := first.repeats given
      obtain ⟨us, d, fault, after, rfl, deep | ⟨start, others⟩⟩ :=
        (next a m ts given before).blames failed
      · exact ⟨ts ++ us, d, fault, before.append after, rfl, .inl (before.limit ▸ deep)⟩
      · refine ⟨ts ++ us, d, fault, before.append after, rfl, .inr ⟨start, ?_⟩⟩
        intro c' d' passes ahead
        obtain ⟨m', before', after'⟩ := passes_append_iff.1 passes
        have between : m'.next = m.next := after.next_eq after' ahead
        exact fails_bind_iff.2
          (.inr ⟨a, m', same c' m' before' between, others m' d' after' ahead⟩)

theorem Tracks.mono (tracks : Tracks begun x y c) (le : ∀ ts, begun ts → more ts) :
    Tracks more x y c where
  repeats := tracks.repeats
  blames := by
    intro e failed
    obtain ⟨ts, d, fault, passes, error, deep | ⟨start, same⟩⟩ := tracks.blames failed
    · exact ⟨ts, d, fault, passes, error, .inl deep⟩
    · exact ⟨ts, d, fault, passes, error, .inr ⟨le ts start, same⟩⟩

/-- Parsers may be replaced by others that do the same where the same token comes next. -/
theorem Tracks.of_next (tracks : Tracks begun x' y' c)
    (first : ∀ c', c'.next = c.next → x c' = x' c')
    (second : ∀ c', c'.next = c.next → y c' = y' c') : Tracks begun x y c where
  repeats := by
    intro a d given
    rw [Gives, first c rfl] at given
    obtain ⟨ts, passes, same⟩ := tracks.repeats given
    refine ⟨ts, passes, fun c' d' passes' ahead => ?_⟩
    rw [Gives, second c' (passes.next_eq passes' ahead)]
    exact same c' d' passes' ahead
  blames := by
    intro e failed
    rw [Fails, first c rfl] at failed
    obtain ⟨ts, d, fault, passes, error, deep | ⟨start, same⟩⟩ := tracks.blames failed
    · exact ⟨ts, d, fault, passes, error, .inl deep⟩
    · refine ⟨ts, d, fault, passes, error, .inr ⟨start, fun c' d' passes' ahead => ?_⟩⟩
      rw [Fails, second c' (passes.next_eq passes' ahead)]
      exact same c' d' passes' ahead

theorem tracks_pure (a : α) : Tracks begun (pure a : Parse α) (pure a) c where
  repeats := by
    intro b d given
    obtain ⟨rfl, rfl⟩ := gives_pure_iff.1 given
    refine ⟨[], .nil, fun c' d' passes _ => ?_⟩
    exact gives_pure_iff.2 ⟨rfl, passes_nil_iff.1 passes⟩
  blames := fun _ failed => absurd failed fails_pure_iff.1

theorem tracks_refusal (fault : ParseFault) (start : begun [])
    (first : ∀ c', c'.next = c.next → x.Fails c' (c'.error fault))
    (second : ∀ c', c'.next = c.next → y.Fails c' (c'.error fault)) : Tracks begun x y c where
  repeats := fun _ _ given => absurd (first c rfl) given.not_fails
  blames := by
    intro e failed
    obtain rfl : c.error fault = e := Except.error.inj ((first c rfl).symm.trans failed)
    refine ⟨[], c, fault, .nil, rfl, .inr ⟨start, fun c' d' passes ahead => ?_⟩⟩
    obtain rfl := passes_nil_iff.1 passes
    exact second c' ahead

theorem tracks_fail (fault : ParseFault) (start : begun []) :
    Tracks begun (fail fault : Parse α) (fail fault) c :=
  tracks_refusal fault start (fun _ _ => rfl) fun _ _ => rfl

/-- Without room for nesting nothing is read, whatever could be read with more. -/
theorem tracks_tooDeep (y : Parse α) : Tracks begun tooDeep y c where
  repeats := fun _ _ given => absurd given gives_tooDeep_iff.1
  blames := by
    intro e failed
    exact ⟨[], c, .tooDeep c.limit, .nil, (Except.error.inj failed).symm, .inl rfl⟩

variable {f g : α → Parse β}

theorem tracks_peek_bind {f g : Option Token → Parse β}
    (rest : Tracks begun (f c.next) (g c.next) c) : Tracks begun (peek >>= f) (peek >>= g) c := by
  refine rest.of_next (fun c' same => ?_) fun c' same => ?_
  · rw [← same]
    rfl
  · rw [← same]
    rfl

theorem tracks_advance_bind {f g : Unit → Parse β} (next : c.next = some t)
    (rest : Tracks (fun us => begun (t :: us)) (f ()) (g ()) c.tail) :
    Tracks begun (advance >>= f) (advance >>= g) c where
  repeats := by
    intro b d given
    obtain ⟨ts, passes, same⟩ := rest.repeats given
    refine ⟨t :: ts, .cons next passes, fun c' d' passes' ahead => ?_⟩
    exact same c'.tail d' (passes_cons_iff.1 passes').2 ahead
  blames := by
    intro e failed
    obtain ⟨ts, d, fault, passes, error, deep | ⟨start, same⟩⟩ := rest.blames failed
    · exact ⟨t :: ts, d, fault, .cons next passes, error, .inl deep⟩
    · refine ⟨t :: ts, d, fault, .cons next passes, error, .inr ⟨start, ?_⟩⟩
      intro c' d' passes' ahead
      exact same c'.tail d' (passes_cons_iff.1 passes').2 ahead

theorem accept_of_next (next : c.next = some t) : accept t c = (.ok true, c.tail) :=
  gives_accept_iff.2 (.inl ⟨next, rfl, rfl⟩)

theorem accept_of_not_next (next : c.next ≠ some t) : accept t c = (.ok false, c) :=
  gives_accept_iff.2 (.inr ⟨next, rfl, rfl⟩)

theorem tracks_accept_bind {f g : Bool → Parse β}
    (taken : c.next = some t → Tracks (fun us => begun (t :: us)) (f true) (g true) c.tail)
    (left : c.next ≠ some t → Tracks begun (f false) (g false) c) :
    Tracks begun (accept t >>= f) (accept t >>= g) c := by
  by_cases next : c.next = some t
  · have rest : Tracks begun (advance >>= fun _ => f true) (advance >>= fun _ => g true) c :=
      tracks_advance_bind next (taken next)
    refine rest.of_next (fun c' same => ?_) fun c' same => ?_ <;>
      rw [bind_apply, accept_of_next (same.trans next)] <;> rfl
  · refine (left next).of_next (fun c' same => ?_) fun c' same => ?_ <;>
      rw [bind_apply, accept_of_not_next (same ▸ next)]

theorem expect_of_next (next : c.next = some t) : expect t c = (.ok (), c.tail) :=
  gives_expect_iff.2 ⟨next, rfl⟩

theorem expect_fails (next : c.next ≠ some t) :
    (expect t).Fails c (c.error (.expectedToken t)) := by
  refine fails_bind_iff.2 (.inr ⟨false, c, accept_of_not_next next, ?_⟩)
  rfl

theorem tracks_expect_bind {f g : Unit → Parse β} (start : c.next ≠ some t → begun [])
    (rest : c.next = some t → Tracks (fun us => begun (t :: us)) (f ()) (g ()) c.tail) :
    Tracks begun (expect t >>= f) (expect t >>= g) c := by
  by_cases next : c.next = some t
  · have after : Tracks begun (advance >>= f) (advance >>= g) c :=
      tracks_advance_bind next (rest next)
    refine after.of_next (fun c' same => ?_) fun c' same => ?_ <;>
      rw [bind_apply, expect_of_next (same.trans next)] <;> rfl
  · refine tracks_refusal (.expectedToken t) (start next) (fun c' same => ?_)
      fun c' same => ?_
    · exact fails_bind_iff.2 (.inl (expect_fails (same ▸ next)))
    · exact fails_bind_iff.2 (.inl (expect_fails (same ▸ next)))

theorem expectName_fails {role : NameRole} (next : ∀ name, c.next ≠ some (.name name)) :
    (expectName role).Fails c (c.error (.expectedName role)) := by
  rw [expectName, fails_peek_bind_iff]
  split
  · next name same => exact absurd same (next name)
  · rfl

theorem tracks_expectName_bind {f g : String → Parse β} (role : NameRole) (start : begun [])
    (rest : ∀ name, c.next = some (.name name) →
      Tracks (fun us => begun (.name name :: us)) (f name) (g name) c.tail) :
    Tracks begun (expectName role >>= f) (expectName role >>= g) c := by
  by_cases named : ∃ name, c.next = some (.name name)
  · obtain ⟨name, next⟩ := named
    have after : Tracks begun (advance >>= fun _ => f name) (advance >>= fun _ => g name) c :=
      tracks_advance_bind next (rest name next)
    have given (c' : Cursor) (same : c'.next = c.next) : expectName role c' = (.ok name, c'.tail) :=
      gives_expectName_iff.2 ⟨same.trans next, rfl⟩
    refine after.of_next (fun c' same => ?_) fun c' same => ?_ <;>
      rw [bind_apply, given c' same] <;> rfl
  · have other (c' : Cursor) (same : c'.next = c.next) :
        (expectName role).Fails c' (c'.error (.expectedName role)) :=
      expectName_fails fun name next => named ⟨name, same ▸ next⟩
    refine tracks_refusal (.expectedName role) start (fun c' same => ?_) fun c' same => ?_
    · exact fails_bind_iff.2 (.inl (other c' same))
    · exact fails_bind_iff.2 (.inl (other c' same))

theorem isEmpty_rest (c : Cursor) : c.rest.isEmpty = c.next.isNone := by
  cases rest : c.rest <;> simp [Cursor.next, rest]

theorem tracks_isAtEnd_bind {f g : Bool → Parse β}
    (rest : Tracks begun (f c.next.isNone) (g c.next.isNone) c) :
    Tracks begun (isAtEnd >>= f) (isAtEnd >>= g) c := by
  refine rest.of_next (fun c' same => ?_) fun c' same => ?_
  · rw [← same, ← isEmpty_rest]
    rfl
  · rw [← same, ← isEmpty_rest]
    rfl

theorem tracks_isNext_bind {f g : Bool → Parse β}
    (rest : Tracks begun (f (c.next == some t)) (g (c.next == some t)) c) :
    Tracks begun (isNext t >>= f) (isNext t >>= g) c := by
  refine rest.of_next (fun c' same => ?_) fun c' same => ?_
  · rw [← same]
    rfl
  · rw [← same]
    rfl

theorem tracks_expectEnd (start : begun []) : Tracks begun expectEnd expectEnd c := by
  refine tracks_isAtEnd_bind ?_
  split
  · exact tracks_pure ()
  · exact tracks_fail .trailing start

/-- A loop that goes on from smaller cursors only does not notice how many rounds it has, if these
are as many as the tokens that are left. -/
theorem rounds_eq {run : Nat → ι → Parse α} {step : (ι → Parse α) → ι → Parse α}
    (zero : ∀ next i c, c.rest = [] → run 0 i c = step next i c)
    (succ : ∀ rounds, run (rounds + 1) = step (run rounds))
    (smaller : ∀ next next' i c,
      (∀ j d, d.rest.length < c.rest.length → next j d = next' j d) → step next i c = step next' i c)
    {rounds rounds' : Nat} {i : ι} {c : Cursor} (enough : c.rest.length ≤ rounds)
    (enough' : c.rest.length ≤ rounds') : run rounds i c = run rounds' i c := by
  induction rounds generalizing rounds' i c with
  | zero =>
    have none : c.rest = [] := List.length_eq_zero_iff.1 (Nat.le_zero.1 enough)
    cases rounds' with
    | zero => rfl
    | succ rounds' => rw [succ, zero _ _ _ none]
  | succ rounds ih =>
    cases rounds' with
    | zero =>
      have none : c.rest = [] := List.length_eq_zero_iff.1 (Nat.le_zero.1 enough')
      rw [succ, zero _ _ _ none]
    | succ rounds' =>
      rw [succ, succ]
      exact smaller _ _ _ _ fun j d less => ih (by omega) (by omega)

/-- So such a loop with a round for every token left is a solution of its equation. -/
theorem whole_eq (run : Nat → ι → Parse α) (step : (ι → Parse α) → ι → Parse α)
    (zero : ∀ next i c, c.rest = [] → run 0 i c = step next i c)
    (succ : ∀ rounds, run (rounds + 1) = step (run rounds))
    (smaller : ∀ next next' i c,
      (∀ j d, d.rest.length < c.rest.length → next j d = next' j d) → step next i c = step next' i c)
    (i : ι) (c : Cursor) :
    run c.rest.length i c = step (fun j => remaining >>= fun rounds => run rounds j) i c := by
  cases size : c.rest.length with
  | zero => exact zero _ _ _ (List.length_eq_zero_iff.1 size)
  | succ rounds =>
    rw [succ]
    refine smaller _ _ _ _ fun j d less => ?_
    exact rounds_eq zero succ smaller (by omega) (Nat.le_refl _)

end Stencil.Parse
