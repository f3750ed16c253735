import Mathlib
import Stencil.Node.Assembly
import Stencil.Proofs.Expr.Viable
import Stencil.Proofs.Node.Tag

/-! The limit of nesting cuts off and does nothing else: with a higher limit a template gives the same,
unless the lower one is exceeded. -/
namespace Stencil

open Stencil.Action Cursor Parse

namespace Cursor

/-- The same tokens under another limit. -/
def under (c : Cursor) (limit : Nat) : Cursor := { c with limit }

variable {c d : Cursor} {ts : List Token}

theorem Passes.under (passes : Passes c ts d) (limit : Nat) :
    Passes (c.under limit) ts (d.under limit) := by
  induction passes with
  | nil => exact .nil
  | cons next _ ih => exact .cons next ih

end Cursor

namespace Parse

variable {α β : Type} {x : Parse α} {limit : Nat}

/-- Under the higher limit `limit` the parser does the same, unless it fails for want of nesting. -/
structure CutsOff (limit : Nat) (x : Parse α) : Prop where
  gives : ∀ ⦃c a d⦄, c.limit ≤ limit → x.Gives c a d →
    x.Gives (c.under limit) a (d.under limit) ∧ d.limit = c.limit
  fails : ∀ ⦃c e⦄, c.limit ≤ limit → x.Fails c e →
    x.Fails (c.under limit) e ∨ ∃ found position, e = .parse (.tooDeep c.limit) found position

theorem CutsOff.bind {f : α → Parse β} (first : CutsOff limit x)
    (next : ∀ a, CutsOff limit (f a)) : CutsOff limit (x >>= f) where
  gives := by
    intro c b d le given
    obtain ⟨a, m, given, rest⟩ := gives_bind_iff.1 given
    obtain ⟨given', same⟩ := first.gives le given
    obtain ⟨rest', same'⟩ := (next a).gives (same ▸ le) rest
    exact ⟨gives_bind_iff.2 ⟨a, _, given', rest'⟩, same'.trans same⟩
  fails := by
    intro c e le failed
    rcases fails_bind_iff.1 failed with failed | ⟨a, m, given, failed⟩
    · exact (first.fails le failed).imp_left fun failed' => fails_bind_iff.2 (.inl failed')
    · obtain ⟨given', same⟩ := first.gives le given
      have rest := (next a).fails (same ▸ le) failed
      rw [same] at rest
      exact rest.imp_left fun failed' => fails_bind_iff.2 (.inr ⟨a, _, given', failed'⟩)

/-- Parsers that never look at the limit. -/
theorem CutsOff.of_eq (same : ∀ c, x (c.under limit) = ((x c).1, (x c).2.under limit))
    (keeps : ∀ c, (x c).2.limit = c.limit) : CutsOff limit x where
  gives := by
    intro c a d _ given
    unfold Gives at given ⊢
    have limited := keeps c
    rw [given] at limited
    exact ⟨by rw [same, given], limited⟩
  fails := by
    intro c e _ failed
    unfold Fails at failed ⊢
    rw [same]
    exact .inl failed

theorem cutsOff_pure (a : α) : CutsOff limit (pure a : Parse α) :=
  .of_eq (fun _ => rfl) fun _ => rfl

theorem cutsOff_throw (e : Error) : CutsOff limit (throw e : Parse α) :=
  .of_eq (fun _ => rfl) fun _ => rfl

theorem cutsOff_fail (fault : ParseFault) : CutsOff limit (fail fault : Parse α) :=
  .of_eq (fun _ => rfl) fun _ => rfl

theorem cutsOff_peek : CutsOff limit peek := .of_eq (fun _ => rfl) fun _ => rfl

theorem cutsOff_advance : CutsOff limit advance := .of_eq (fun _ => rfl) fun _ => rfl

theorem cutsOff_isAtEnd : CutsOff limit isAtEnd := .of_eq (fun _ => rfl) fun _ => rfl

theorem cutsOff_expression : CutsOff limit expression where
  gives := by
    intro c e d le given
    obtain ⟨ts, passes, same⟩ := ((follows_nested le).1.tracks c).repeats given
    exact ⟨same (c.under limit) (d.under limit) (passes.under limit) rfl, passes.limit⟩
  fails := by
    intro c e le failed
    obtain ⟨ts, d, fault, passes, rfl, rfl | ⟨-, same⟩⟩ := ((follows_nested le).1.tracks c).blames failed
    · exact .inr (by unfold Cursor.error; split <;> exact ⟨_, _, rfl⟩)
    · exact .inl (same (c.under limit) (d.under limit) (passes.under limit) rfl)

theorem compatible_cutsOff (limit : Nat) : Compatible fun x _ => CutsOff limit x where
  bind := .bind
  pure := cutsOff_pure
  fail := cutsOff_fail
  peek := cutsOff_peek
  advance := cutsOff_advance
  isAtEnd := cutsOff_isAtEnd
  expression := cutsOff_expression

end Parse

/-- The same results, or the first one is that `limit` levels are not enough. -/
def SameOrTooDeep {α : Type} (limit : Nat) (first second : Except Error α) : Prop :=
  first = second ∨ ∃ found position, first = .error (.parse (.tooDeep limit) found position)

namespace SameOrTooDeep

variable {α β : Type} {limit : Nat} {r s : Except Error α} {f g : α → Except Error β}

theorem refl (r : Except Error α) : SameOrTooDeep limit r r := .inl rfl

theorem bind (first : SameOrTooDeep limit r s) (next : ∀ a, SameOrTooDeep limit (f a) (g a)) :
    SameOrTooDeep limit (r >>= f) (s >>= g) := by
  rcases first with rfl | ⟨found, position, rfl⟩
  · cases r with
    | error e => exact refl _
    | ok a => exact next a
  · exact .inr ⟨found, position, rfl⟩

theorem map (first : SameOrTooDeep limit r s) (f : α → β) :
    SameOrTooDeep limit (r.map f) (s.map f) := by
  rcases first with rfl | ⟨found, position, rfl⟩
  · exact refl _
  · exact .inr ⟨found, position, rfl⟩

theorem of_cutsOff {x : Parse α} {c : Cursor} {limit' : Nat} (cuts : CutsOff limit' x)
    (le : c.limit ≤ limit') : SameOrTooDeep c.limit (x c).1 (x (c.under limit')).1 := by
  cases result : (x c).1 with
  | ok a =>
    obtain ⟨d, given⟩ := fst_eq_ok_iff.1 result
    exact .inl (fst_eq_ok_iff.2 ⟨_, (cuts.gives le given).1⟩).symm
  | error e =>
    rcases cuts.fails le result with failed | ⟨found, position, rfl⟩
    · exact .inl failed.symm
    · exact .inr ⟨found, position, rfl⟩

end SameOrTooDeep

variable {limit limit' : Nat}

theorem sameOrTooDeep_ofCursor {α : Type} {x : Parse α} (cuts : CutsOff limit' x)
    (le : limit ≤ limit') (source : String) (offset : Nat) :
    SameOrTooDeep limit (do (x (← Cursor.ofSource source offset limit)).1)
      (do (x (← Cursor.ofSource source offset limit')).1) := by
  unfold Cursor.ofSource
  cases tokenize source offset with
  | error e => exact .refl _
  | ok tokens => exact .of_cutsOff (c := .ofTokens tokens _ limit) cuts le

theorem Expr.sameOrTooDeep_ofSource (le : limit ≤ limit') (source : String) (offset : Nat) :
    SameOrTooDeep limit (Expr.ofSource source offset limit) (Expr.ofSource source offset limit') :=
  sameOrTooDeep_ofCursor
    (cutsOff_expression.bind fun e =>
      (compatible_cutsOff limit').expectEnd.bind fun _ => cutsOff_pure e) le source offset

theorem LogicTag.sameOrTooDeep_ofSource (le : limit ≤ limit') (source : String) (offset : Nat) :
    SameOrTooDeep limit (LogicTag.ofSource source offset limit)
      (LogicTag.ofSource source offset limit') :=
  sameOrTooDeep_ofCursor
    ((compatible_cutsOff limit').read offset offset fun _ => cutsOff_throw _) le source offset

theorem Assembly.sameOrTooDeep_add (le : limit ≤ limit') (a : Assembly) (s : Segment) :
    SameOrTooDeep limit (a.add limit s) (a.add limit' s) := by
  unfold Assembly.add
  split
  · exact .refl _
  · exact .refl _
  · exact (Expr.sameOrTooDeep_ofSource le _ _).map _
  · exact (LogicTag.sameOrTooDeep_ofSource le _ _).bind fun tag => .refl _

theorem Assembly.sameOrTooDeep_run (le : limit ≤ limit') (segments : List Segment) (a : Assembly) :
    SameOrTooDeep limit (segments.foldlM (add limit) a) (segments.foldlM (add limit') a) := by
  induction segments generalizing a with
  | nil => exact .refl _
  | cons s segments ih =>
    rw [List.foldlM_cons, List.foldlM_cons]
    exact (sameOrTooDeep_add le a s).bind ih

/-- A higher limit of nesting changes nothing where the lower one is enough: under the lower one a
template compiles to the same forest, or fails with the same error, or is too deeply nested. -/
theorem Node.ofSource_cut_off (source : String) (config config' : Config)
    (same : config.trimBlocks = config'.trimBlocks) (le : config.maxDepth ≤ config'.maxDepth) :
    (Node.ofSource source config = Node.ofSource source config' ∨
      ∃ fault found position,
        Node.ofSource source config = .error (.parse fault found position) ∧
        fault = .tooDeep config.maxDepth ∧
        fault.message = "expression nested deeper than " ++ Nat.repr config.maxDepth ++ " levels") ∧
    ∀ forest, Node.ofSource source config = .ok forest → Node.ofSource source config' = .ok forest := by
  have related : SameOrTooDeep config.maxDepth (Node.ofSource source config)
      (Node.ofSource source config') := by
    unfold Node.ofSource
    rw [same]
    exact (SameOrTooDeep.refl _).bind fun segments =>
      (Assembly.sameOrTooDeep_run le segments .empty).bind fun a => .refl _
  refine ⟨related.imp_right ?_, fun forest compiled => ?_⟩
  · rintro ⟨found, position, failed⟩
    exact ⟨_, found, position, failed, rfl, rfl⟩
  · rcases related with equal | ⟨found, position, failed⟩
    · rw [← equal, compiled]
    · rw [compiled] at failed
      cases failed

theorem Node.ofSource_of_group_under_limits :
    Node.ofSource "\x7b\x7b (x) \x7d\x7d" { maxDepth := 1 } =
        .error (.parse (.tooDeep 1) (some (.name "x")) 4) ∧
      Node.ofSource "\x7b\x7b (x) \x7d\x7d" { maxDepth := 2 } = .ok [.output (.variable "x")] ∧
      Node.ofSource "\x7b\x7b (x) \x7d\x7d" { maxDepth := 64 } = .ok [.output (.variable "x")] := by
  have compiled : Node.ofSource "\x7b\x7b (x) \x7d\x7d" { maxDepth := 2 } =
      .ok [.output (.variable "x")] := by cbv
  refine ⟨by cbv, compiled, ?_⟩
  exact (ofSource_cut_off _ { maxDepth := 2 } { maxDepth := 64 } rfl (by decide)).2 _ compiled

end Stencil
