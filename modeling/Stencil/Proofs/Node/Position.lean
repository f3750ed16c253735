import Stencil.Proofs.Expr.Viable
import Stencil.Proofs.Node.Grammar
import Stencil.Proofs.Node.Tag

/-! What a tag says does not depend on where it stands in its template. -/
namespace Stencil

open Stencil.Action Cursor Parse

namespace Cursor

variable {c c' d : Cursor} {ts : List Token}

/-- The same tokens under the same limit, though maybe at other places. -/
structure Alike (c c' : Cursor) : Prop where
  tokens : c.rest.map Placed.token = c'.rest.map Placed.token
  limit : c.limit = c'.limit

theorem Alike.next (alike : Alike c c') : c.next = c'.next := by
  simpa [Cursor.next] using congrArg List.head? alike.tokens

theorem Alike.tail (alike : Alike c c') : Alike c.tail c'.tail where
  tokens := by simpa [Cursor.tail] using congrArg List.tail alike.tokens
  limit := alike.limit

theorem Alike.isEmpty (alike : Alike c c') : c.rest.isEmpty = c'.rest.isEmpty := by
  rw [isEmpty_rest, isEmpty_rest, alike.next]

theorem Alike.passes (alike : Alike c c') (passes : Passes c ts d) :
    ∃ d', Passes c' ts d' ∧ Alike d d' := by
  induction passes generalizing c' with
  | nil => exact ⟨c', .nil, alike⟩
  | cons next _ ih =>
    obtain ⟨d', passes, alike'⟩ := ih alike.tail
    exact ⟨d', .cons (alike.next ▸ next) passes, alike'⟩

end Cursor

namespace Parse

variable {α β : Type} {x y : Parse α}

/-- What `x` gives, `y` gives from every cursor over the same tokens. -/
def Transfers (x y : Parse α) : Prop :=
  ∀ ⦃c c' a d⦄, Alike c c' → x.Gives c a d → ∃ d', Alike d d' ∧ y.Gives c' a d'

theorem Transfers.bind {f g : α → Parse β} (first : Transfers x y)
    (next : ∀ a, Transfers (f a) (g a)) : Transfers (x >>= f) (y >>= g) := by
  intro c c' b d alike given
  obtain ⟨a, m, given, rest⟩ := gives_bind_iff.1 given
  obtain ⟨m', between, given'⟩ := first alike given
  obtain ⟨d', behind, rest'⟩ := next a between rest
  exact ⟨d', behind, gives_bind_iff.2 ⟨a, m', given', rest'⟩⟩

theorem transfers_pure (a : α) : Transfers (pure a : Parse α) (pure a) := by
  intro c c' b d alike given
  obtain ⟨rfl, rfl⟩ := gives_pure_iff.1 given
  exact ⟨c', alike, gives_pure_iff.2 ⟨rfl, rfl⟩⟩

theorem transfers_throw (e : Error) (y : Parse α) : Transfers (throw e) y :=
  fun _ _ _ _ _ given => absurd given gives_throw_iff.1

theorem transfers_fail (fault : ParseFault) (y : Parse α) : Transfers (fail fault) y :=
  fun _ _ _ _ _ given => absurd given gives_fail_iff.1

theorem transfers_peek : Transfers peek peek := by
  intro c c' next d alike given
  obtain ⟨rfl, rfl⟩ := gives_peek_iff.1 given
  exact ⟨c', alike, gives_peek_iff.2 ⟨alike.next.symm, rfl⟩⟩

theorem transfers_advance : Transfers advance advance := by
  intro c c' u d alike given
  obtain rfl := gives_advance_iff.1 given
  exact ⟨c'.tail, alike.tail, gives_advance_iff.2 rfl⟩

theorem transfers_isAtEnd : Transfers isAtEnd isAtEnd := by
  intro c c' ended d alike given
  obtain ⟨empty, rfl⟩ := gives_isAtEnd_iff.1 given
  exact ⟨c', alike, gives_isAtEnd_iff.2 ⟨alike.isEmpty ▸ empty, rfl⟩⟩

theorem transfers_expression : Transfers expression expression := by
  intro c c' e d alike given
  have follows := (follows_nested (Nat.le_refl c.limit)).1
  obtain ⟨ts, passes, same⟩ := (follows.tracks c).repeats given
  obtain ⟨d', passes', behind⟩ := alike.passes passes
  have given' := same c' d' passes' behind.next.symm
  rw [alike.limit] at given'
  exact ⟨d', behind, given'⟩

theorem compatible_transfers : Compatible Transfers where
  bind := .bind
  pure := transfers_pure
  fail fault := transfers_fail fault _
  peek := transfers_peek
  advance := transfers_advance
  isAtEnd := transfers_isAtEnd
  expression := transfers_expression

end Parse

namespace LogicTag

theorem ofSource_moved {source : String} {position limit : Nat} {tag : LogicTag}
    (given : ofSource source position limit = .ok tag) (position' : Nat) :
    ofSource source position' limit = .ok tag := by
  obtain ⟨c, cursor, parsed⟩ := bind_eq_ok_iff.1 given
  obtain ⟨tokens, tokenized, rfl⟩ := map_eq_ok_iff.1 cursor
  obtain ⟨tokens', cursor', same⟩ :=
    Cursor.ofSource_of_spells (spells_of_tokenize tokenized) position' limit
  have alike : Alike (.ofTokens tokens (position + source.utf8ByteSize) limit)
      (.ofTokens tokens' (position' + source.utf8ByteSize) limit) := ⟨same.symm, rfl⟩
  obtain ⟨d, parsed⟩ := fst_eq_ok_iff.1 parsed
  obtain ⟨d', -, parsed'⟩ :=
    compatible_transfers.read position position' (fun _ => transfers_throw _ _) alike parsed
  rw [ofSource, cursor']
  exact fst_eq_ok_iff.2 ⟨d', parsed'⟩

end LogicTag

theorem Segment.Reads.moved {limit position : Nat} {kind : Kind} {source : String} {part : Part}
    (reads : Reads limit ⟨kind, source, position⟩ part) (position' : Nat) :
    Reads limit ⟨kind, source, position'⟩ part := by
  cases reads with
  | text => exact .text source position'
  | comment => exact .comment source position'
  | output given =>
    obtain ⟨ts, spells, n, bound, derived⟩ := Expr.spells_of_ofSource given
    exact .output (Expr.ofSource_of_spells spells derived bound)
  | logic given => exact .logic (LogicTag.ofSource_moved given position')

end Stencil
