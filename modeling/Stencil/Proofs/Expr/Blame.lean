import Mathlib
import Stencil.Proofs.Expr.Viable

/-! Errors of reading an expression point at the first token that cannot stand where it does. -/
namespace Stencil

open Stencil.Action Cursor Parse Grammar

namespace Parse

/-- An expression that may nest `room` levels deep, with nothing behind it. -/
def complete (room : Nat) : Parse Expr := do
  let e ← nested room .expression
  expectEnd
  return e

theorem tracks_complete {room room' : Nat} (le : room ≤ room') (c : Cursor) :
    Tracks (Viable .expression) (complete room) (complete room') c := by
  refine (follows_nested le).1.bind (fun _ viable => viable) fun e d ts n derived _ => ?_
  have whole : Viable .expression (ts ++ []) := Derives.viable [] (by simpa using derived)
  exact (tracks_expectEnd whole).bind fun _ _ _ _ _ => tracks_pure e

end Parse

namespace Expr

/-- Some limit of nesting lets the tokens be read as one expression. -/
def Accepted (tokens : List Placed) : Prop :=
  ∃ stop limit e, Expr.ofCursor (.ofTokens tokens stop limit) = .ok e

theorem accepted_iff {tokens : List Placed} :
    Accepted tokens ↔ ∃ e n, Derives .expression (tokens.map Placed.token) e n := by
  constructor
  · rintro ⟨stop, limit, e, accepted⟩
    obtain ⟨n, -, derived⟩ := derives_of_ofCursor accepted
    exact ⟨e, n, derived⟩
  · rintro ⟨e, n, derived⟩
    exact ⟨0, n, e, ofCursor_of_derives derived (Nat.le_refl n)⟩

theorem exists_accepted_of_viable {tokens : List Placed}
    (viable : Viable .expression (tokens.map Placed.token)) : ∃ more, Accepted (tokens ++ more) := by
  obtain ⟨us, e, n, derived⟩ := viable
  refine ⟨us.map (⟨·, 0⟩), accepted_iff.2 ⟨e, n, ?_⟩⟩
  simpa [Function.comp_def] using derived

theorem Accepted.viable {others : List Placed} {ts : List Token} (accepted : Accepted others)
    (begins : ts <+: others.map Placed.token) : Viable .expression ts := by
  obtain ⟨us, whole⟩ := begins
  obtain ⟨e, n, derived⟩ := accepted_iff.1 accepted
  exact Derives.viable us (whole ▸ derived)

/-- Every list of tokens has a longest part at its front that can be completed. -/
theorem exists_longest_viable (ts : List Token) :
    ∃ i ≤ ts.length, Viable .expression (ts.take i) ∧
      ∀ j ≤ ts.length, i < j → ¬ Viable .expression (ts.take j) := by
  classical
  have start : Viable .expression (ts.take 0) := Derives.viable [.name "x"] derives_filler
  refine ⟨Nat.findGreatest (fun i => Viable .expression (ts.take i)) ts.length,
    Nat.findGreatest_le _, ?_, fun j bound longer => Nat.findGreatest_is_greatest longer bound⟩
  exact Nat.findGreatest_spec (P := fun i => Viable .expression (ts.take i)) (Nat.zero_le _) start

/-- A parser with enough room for a phrase gets past every part of it. -/
theorem length_le_of_fails {c d : Cursor} {ts us : List Token} {e : Expr} {i n room : Nat}
    {fault : ParseFault} (passes : Passes c ts d) (bound : i ≤ c.rest.length)
    (completed : Derives .expression ((c.rest.map Placed.token).take i ++ us) e n) (le : n ≤ room)
    (fails : ∀ c' d', Passes c' ts d' → d'.next = d.next →
      (complete room).Fails c' (d'.error fault)) : i ≤ ts.length := by
  by_contra shorter
  obtain ⟨k, rfl⟩ : ∃ k, i = ts.length + (k + 1) := ⟨i - ts.length - 1, by omega⟩
  have size := passes.length
  obtain ⟨placed, others, rest⟩ := List.exists_cons_of_length_pos (l := d.rest) (by omega)
  have whole : (c.rest.map Placed.token).take (ts.length + (k + 1)) ++ us =
      ts ++ (placed.token :: ((others.map Placed.token).take k ++ us)) := by
    rw [passes.tokens, rest, List.take_length_add_append]
    simp
  rw [whole] at completed
  generalize (others.map Placed.token).take k ++ us = behind at completed
  -- The phrase comes as a list of tokens, wherever they stand.
  obtain ⟨tokens, same⟩ : ∃ tokens : List Placed, tokens.map Placed.token = ts ++ placed.token :: behind :=
    ⟨(ts ++ placed.token :: behind).map (⟨·, 0⟩), by simp [Function.comp_def]⟩
  have accepted : Expr.ofCursor (.ofTokens tokens 0 room) = .ok e :=
    ofCursor_of_derives (same ▸ completed) le
  have all := passes_all (Cursor.ofTokens tokens 0 room)
  rw [show (Cursor.ofTokens tokens 0 room).rest = tokens from rfl, same] at all
  obtain ⟨m, before, after⟩ := passes_append_iff.1 all
  have ahead : m.next = d.next := by
    rw [(passes_cons_iff.1 after).1, Cursor.next, rest]
    rfl
  obtain ⟨d', given⟩ := fst_eq_ok_iff.1 accepted
  exact given.not_fails (fails _ m before ahead)

/-- If an expression cannot be read, but not for want of nesting, then its error points at the first
token that no list of tokens going on from there can have; the tokens before it can be completed. If
all tokens can, the error points at their end. -/
theorem ofSource_blames_first_impossible {source : String} {offset limit position : Nat}
    {tokens : List Placed} {fault : ParseFault} {found : Option Token}
    (lexed : tokenize source offset = .ok tokens)
    (failed : Expr.ofSource source offset limit = .error (.parse fault found position))
    (room : ∀ n, fault ≠ .tooDeep n) :
    ∃ i ≤ tokens.length,
      Error.foundText found = tokens[i]?.elim "end of tag" (·.token.display) ∧
      position = tokens[i]?.elim (offset + source.utf8ByteSize) Placed.position ∧
      (∃ more, Accepted (tokens.take i ++ more)) ∧
      (i < tokens.length → ∀ others,
        (tokens.take (i + 1)).map Placed.token <+: others.map Placed.token → ¬ Accepted others) := by
  rw [Expr.ofSource, Cursor.ofSource, lexed] at failed
  have fails : (complete limit).Fails (.ofTokens tokens (offset + source.utf8ByteSize) limit)
      (.parse fault found position) := failed
  obtain ⟨i, bound, ⟨us, e, n, completed⟩, longest⟩ := exists_longest_viable (tokens.map Placed.token)
  rw [List.length_map] at bound longest
  obtain ⟨ts, d, fault', passes, error, blamed⟩ :=
    (tracks_complete (Nat.le_max_left limit n) _).blames fails
  rw [passes.error_eq] at error
  obtain ⟨rfl, rfl, rfl⟩ := Error.parse.inj error
  obtain ⟨begun, repeated⟩ := blamed.resolve_left (room _)
  have whole : tokens.map Placed.token = ts ++ d.rest.map Placed.token := passes.tokens
  obtain rfl : i = ts.length := by
    refine Nat.le_antisymm ?_ ?_
    · exact length_le_of_fails passes bound completed (Nat.le_max_right limit n) repeated
    · by_contra longer
      refine longest ts.length ?_ (by omega) ?_
      · exact Nat.le.intro passes.length.symm
      · rwa [whole, List.take_left]
  refine ⟨ts.length, bound, ?_, rfl, ?_, ?_⟩
  · change Error.foundText (tokens[ts.length]?.map Placed.token) = _
    cases tokens[ts.length]? <;> rfl
  · refine exists_accepted_of_viable ?_
    rw [List.map_take]
    exact ⟨us, e, n, completed⟩
  · intro inside others begins accepted
    rw [List.map_take] at begins
    exact longest _ inside (Nat.lt_succ_self _) (accepted.viable begins)

theorem ofSource_blames_missing_comma :
    Expr.ofSource "f(a b)" 3 5 =
        .error (.parse (.expectedSeparator .closeParen) (some (.name "b")) 7) ∧
      (∃ more, Accepted ([⟨.name "f", 3⟩, ⟨.symbol .openParen, 4⟩, ⟨.name "a", 5⟩] ++ more)) ∧
      ∀ others, [.name "f", .symbol .openParen, .name "a", .name "b"] <+: others.map Placed.token →
        ¬ Accepted others := by
  have tokens : tokenize "f(a b)" 3 = .ok [⟨.name "f", 3⟩, ⟨.symbol .openParen, 4⟩, ⟨.name "a", 5⟩,
      ⟨.name "b", 7⟩, ⟨.symbol .closeParen, 8⟩] := by cbv
  have failed : Expr.ofSource "f(a b)" 3 5 =
      .error (.parse (.expectedSeparator .closeParen) (some (.name "b")) 7) := by cbv
  obtain ⟨i, bound, -, position, begun, impossible⟩ :=
    ofSource_blames_first_impossible tokens failed (by simp)
  simp only [List.length_cons, List.length_nil] at bound
  obtain rfl : i = 3 := by
    interval_cases i <;> first | rfl | exact absurd position (by decide)
  exact ⟨failed, begun, impossible (by simp)⟩

end Expr
end Stencil
