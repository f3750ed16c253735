import Stencil.Proofs.Expr.Completeness
import Stencil.Proofs.Expr.Lookahead

/-! The loops of the expression parsers as equations: with a round for every token that is left, the
number of rounds does not matter. -/
namespace Stencil.Parse

open Stencil.Action Cursor Grammar

variable {α : Type} {c d : Cursor} {x : Parse Expr} {item : Parse α} {close : Symbol}

/-- The parser takes at least one token. -/
def Shrinks (x : Parse α) : Prop := ∀ ⦃c a d⦄, x.Gives c a d → d.rest.length < c.rest.length

theorem Sound.shrinks {room : Nat} {p : Phrase} {x : Parse p.Tree} (sound : Sound room p x)
    (single : ∀ item, p ≠ .list item) : Shrinks x := by
  intro c tree d given
  obtain ⟨ts, n, derived, -, passes⟩ := sound given
  obtain ⟨t, us, rfl, -⟩ := derived.exists_begins single
  have longer := passes.length
  rw [List.length_cons] at longer
  omega

def listStep (close : Symbol) (item : Parse α) (next : Unit → Parse (List α)) (_ : Unit) :
    Parse (List α) := do
  if ← accept (.symbol close) then return []
  let first ← item
  unless ← accept (.symbol .comma) do
    unless ← isNext (.symbol close) do fail (.expectedSeparator close)
  return first :: (← next ())

theorem Shrinks.list (shrinks : Shrinks item) (close : Symbol) : Shrinks (list close item) := by
  intro c items d given
  replace given := gives_list_iff.1 given
  generalize c.rest.length + 1 = rounds at given
  induction rounds generalizing c items with
  | zero => exact absurd given gives_fail_iff.1
  | succ rounds ih =>
    by_cases next : c.next = some (.symbol close)
    · obtain ⟨-, rfl⟩ := (gives_items_of_close next).1 given
      have := length_tail next
      omega
    · obtain ⟨first, m, taken, rest⟩ := (gives_items_of_not_close next).1 given
      have := shrinks taken
      rcases rest with ⟨-, -, _, more, -⟩ | ⟨comma, _, more, -⟩
      · have := ih more
        omega
      · have := ih more
        have := length_tail comma
        omega

theorem listStep_congr {next next' : Unit → Parse (List α)} (shrinks : Shrinks item)
    (same : ∀ d, d.rest.length < c.rest.length → next () d = next' () d) :
    listStep close item next () c = listStep close item next' () c := by
  refine bind_congr fun took m accepted => ?_
  rcases gives_accept_iff.1 accepted with ⟨closes, rfl, rfl⟩ | ⟨-, rfl, rfl⟩
  · rfl
  refine bind_congr fun first m given => ?_
  have less := shrinks given
  refine bind_congr fun took d accepted => ?_
  rcases gives_accept_iff.1 accepted with ⟨comma, rfl, rfl⟩ | ⟨-, rfl, rfl⟩
  · have := length_tail_le m
    exact bind_of_eq (same m.tail (by omega))
  · refine bind_congr fun closes d peeked => ?_
    obtain ⟨-, rfl⟩ := gives_isNext_iff.1 peeked
    cases closes with
    | true => exact bind_of_eq (same m less)
    | false => rfl

theorem list_eq (shrinks : Shrinks item) (c : Cursor) :
    list close item c = listStep close item (fun _ => list close item) () c := by
  refine whole_eq (fun rounds (_ : Unit) => items close item (rounds + 1))
    (listStep close item) ?_ (fun _ => rfl) ?_ () c
  · intro next _ c ended
    change listStep close item (fun _ => items close item 0) () c = _
    exact listStep_congr shrinks fun d less => absurd less (by simp [ended])
  · intro next next' _ c same
    exact listStep_congr shrinks (same ())

def suffixStep (x : Parse Expr) (next : Expr → Parse Expr) (base : Expr) : Parse Expr := do
  if ← accept (.symbol .dot) then
    let name ← memberName
    next (.member base (.literal (.string name)) .dot)
  else if ← accept (.symbol .openBracket) then
    let inner ← x
    expect (.symbol .closeBracket)
    next (.member base inner .bracket)
  else if ← accept (.symbol .pipe) then
    let name ← expectName .filter
    let args ← if ← accept (.symbol .openParen) then arguments x else pure []
    next (.filter base name args)
  else pure base

def wholeSuffixes (x : Parse Expr) (base : Expr) : Parse Expr := do
  suffixes x (← remaining) base

theorem suffixStep_of_none (next : Expr → Parse Expr) {base : Expr}
    (ends : c.next.any startsSuffix = false) : suffixStep x next base c = (.ok base, c) := by
  have ahead (s : Symbol) (starts : startsSuffix (.symbol s)) : c.next ≠ some (.symbol s) := by
    intro next
    simp [next, starts] at ends
  have refuses (s : Symbol) (starts : startsSuffix (.symbol s)) :
      (accept (.symbol s)).Gives c false c := accept_of_not_next (ahead s starts)
  refine gives_bind_iff.2 ⟨false, c, refuses .dot rfl, ?_⟩
  refine gives_bind_iff.2 ⟨false, c, refuses .openBracket rfl, ?_⟩
  exact gives_bind_iff.2 ⟨false, c, refuses .pipe rfl, rfl⟩

theorem suffixStep_congr {next next' : Expr → Parse Expr} (shrinks : Shrinks x) {base : Expr}
    (same : ∀ e d, d.rest.length < c.rest.length → next e d = next' e d) :
    suffixStep x next base c = suffixStep x next' base c := by
  refine bind_congr fun took m accepted => ?_
  rcases gives_accept_iff.1 accepted with ⟨dot, rfl, rfl⟩ | ⟨-, rfl, rfl⟩
  · refine bind_congr fun name m named => same _ m ?_
    obtain ⟨t, after, -, rfl⟩ := gives_memberName_iff.1 named
    have := length_tail dot
    have := length_tail after
    omega
  refine bind_congr fun took m accepted => ?_
  rcases gives_accept_iff.1 accepted with ⟨bracket, rfl, rfl⟩ | ⟨-, rfl, rfl⟩
  · refine bind_congr fun inner m given => bind_congr fun _ m' closed => same _ m' ?_
    obtain ⟨closes, rfl⟩ := gives_expect_iff.1 closed
    have := shrinks given
    have := length_tail bracket
    have := length_tail closes
    omega
  refine bind_congr fun took m accepted => ?_
  rcases gives_accept_iff.1 accepted with ⟨pipe, rfl, rfl⟩ | ⟨-, rfl, rfl⟩
  · refine bind_congr fun name m named => ?_
    obtain ⟨after, rfl⟩ := gives_expectName_iff.1 named
    have := length_tail pipe
    have := length_tail after
    refine bind_congr fun took m accepted => ?_
    rcases gives_accept_iff.1 accepted with ⟨opens, rfl, rfl⟩ | ⟨-, rfl, rfl⟩
    · have := length_tail opens
      refine bind_congr fun args m given => same _ m ?_
      have := shrinks.list .closeParen given
      omega
    · exact same _ _ (by omega)
  · rfl

theorem wholeSuffixes_eq (shrinks : Shrinks x) (base : Expr) (c : Cursor) :
    wholeSuffixes x base c = suffixStep x (wholeSuffixes x) base c := by
  refine whole_eq (suffixes x) (suffixStep x) ?_ (fun _ => rfl) ?_ base c
  · intro next base c ended
    exact (suffixStep_of_none next (by simp [Cursor.next, ended])).symm
  · intro next next' base c same
    exact suffixStep_congr shrinks same

end Stencil.Parse
