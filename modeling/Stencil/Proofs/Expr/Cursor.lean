import Stencil.Expr.Parser
import Stencil.Proofs.Action

/-! Steps of a cursor over the tokens of a tag, and what the single-token parsers do to it. -/
namespace Stencil

namespace Cursor

variable {c d e : Cursor} {t : Token} {ts us : List Token}

def next (c : Cursor) : Option Token := c.rest.head?.map Placed.token

def tail (c : Cursor) : Cursor := { c with rest := c.rest.tail }

/-- `Passes c ts d`: the tokens `ts` lie between `c` and `d`. -/
inductive Passes : Cursor → List Token → Cursor → Prop
  | nil {c : Cursor} : Passes c [] c
  | cons {c d : Cursor} {t : Token} {ts : List Token} :
      c.next = some t → Passes c.tail ts d → Passes c (t :: ts) d

@[simp] theorem passes_nil_iff : Passes c [] d ↔ c = d := by
  constructor
  · intro h
    cases h
    rfl
  · rintro rfl
    exact .nil

@[simp] theorem passes_cons_iff : Passes c (t :: ts) d ↔ c.next = some t ∧ Passes c.tail ts d := by
  constructor
  · intro h
    cases h with
    | cons next rest => exact ⟨next, rest⟩
  · rintro ⟨next, rest⟩
    exact .cons next rest

theorem Passes.append (first : Passes c ts d) (second : Passes d us e) : Passes c (ts ++ us) e := by
  induction first with
  | nil => exact second
  | cons next _ ih => exact .cons next (ih second)

@[simp] theorem passes_append_iff :
    Passes c (ts ++ us) e ↔ ∃ d, Passes c ts d ∧ Passes d us e := by
  constructor
  · intro h
    induction ts generalizing c with
    | nil => exact ⟨c, .nil, h⟩
    | cons t ts ih =>
      obtain ⟨next, rest⟩ := passes_cons_iff.1 h
      obtain ⟨d, first, second⟩ := ih rest
      exact ⟨d, .cons next first, second⟩
  · rintro ⟨d, first, second⟩
    exact first.append second

theorem exists_of_next (h : c.next = some t) :
    ∃ placed rest, c.rest = placed :: rest ∧ placed.token = t := by
  obtain ⟨placed, head, token⟩ := Option.map_eq_some_iff.1 h
  obtain ⟨rest, whole⟩ := List.head?_eq_some_iff.1 head
  exact ⟨placed, rest, whole, token⟩

theorem length_tail (h : c.next = some t) : c.tail.rest.length + 1 = c.rest.length := by
  obtain ⟨placed, rest, whole, -⟩ := exists_of_next h
  simp [tail, whole]

theorem Passes.tokens (h : Passes c ts d) :
    c.rest.map Placed.token = ts ++ d.rest.map Placed.token := by
  induction h with
  | nil => rfl
  | cons next _ ih =>
    obtain ⟨placed, rest, whole, rfl⟩ := exists_of_next next
    simp only [tail, whole, List.tail_cons] at ih
    simp [whole, ih]

theorem Passes.length (h : Passes c ts d) : c.rest.length = ts.length + d.rest.length := by
  simpa using congrArg List.length h.tokens

theorem Passes.limit (h : Passes c ts d) : d.limit = c.limit := by
  induction h with
  | nil => rfl
  | cons _ _ ih => exact ih

theorem Passes.stop (h : Passes c ts d) : d.stop = c.stop := by
  induction h with
  | nil => rfl
  | cons _ _ ih => exact ih

theorem Passes.rest (h : Passes c ts d) : d.rest = c.rest.drop ts.length := by
  induction h with
  | nil => rfl
  | cons _ _ ih => simp [ih, tail, List.drop_tail]

theorem Passes.unique (first : Passes c ts d) (second : Passes c us d) : ts = us :=
  List.append_cancel_right (first.tokens.symm.trans second.tokens)

/-- An error behind the tokens points at the one of index `ts.length`, or at the end if there is none. -/
theorem Passes.error_eq (h : Passes c ts d) (fault : ParseFault) :
    d.error fault = .parse fault (c.rest[ts.length]?.map Placed.token)
      (c.rest[ts.length]?.elim c.stop Placed.position) := by
  rw [Cursor.error, h.rest, h.stop, ← List.head?_drop]
  cases c.rest.drop ts.length <;> rfl

/-- Where the same tokens come and the same one behind them, the same one comes next. -/
theorem Passes.next_eq {c' d' : Cursor} (first : Passes c ts d) (second : Passes c' ts d')
    (next : d'.next = d.next) : c'.next = c.next := by
  cases first with
  | nil =>
    obtain rfl := passes_nil_iff.1 second
    exact next
  | cons at_first _ => rw [at_first, (passes_cons_iff.1 second).1]

theorem passes_all (c : Cursor) : Passes c (c.rest.map Placed.token) { c with rest := [] } := by
  obtain ⟨tokens, stop, limit⟩ := c
  induction tokens with
  | nil => exact .nil
  | cons placed tokens ih => exact .cons rfl ih

end Cursor

namespace Parse

open Stencil.Action Cursor

variable {c d : Cursor} {t : Token}

@[simp] theorem gives_peek_iff {next : Option Token} :
    peek.Gives c next d ↔ c.next = next ∧ c = d := by
  change ((Except.ok c.next : Except Error _), c) = (Except.ok next, d) ↔ _
  simp

theorem gives_peek_bind_iff {α : Type} {f : Option Token → Parse α} {a : α} :
    (peek >>= f).Gives c a d ↔ (f c.next).Gives c a d := by
  simp [and_assoc]

theorem peek_bind_apply {α : Type} {f : Option Token → Parse α} :
    (peek >>= f) c = f c.next c := rfl

theorem fails_peek_bind_iff {α : Type} {f : Option Token → Parse α} {e : Error} :
    (peek >>= f).Fails c e ↔ (f c.next).Fails c e := Iff.rfl

@[simp] theorem gives_advance_iff {u : Unit} : advance.Gives c u d ↔ c.tail = d := by
  change ((Except.ok () : Except Error _), c.tail) = (Except.ok u, d) ↔ _
  simp

theorem gives_advance_bind_iff {α : Type} {f : Unit → Parse α} {a : α} :
    (advance >>= f).Gives c a d ↔ (f ()).Gives c.tail a d :=
  Iff.rfl

@[simp] theorem gives_remaining_iff {n : Nat} :
    remaining.Gives c n d ↔ c.rest.length = n ∧ c = d := by
  change ((Except.ok c.rest.length : Except Error _), c) = (Except.ok n, d) ↔ _
  simp

@[simp] theorem gives_isAtEnd_iff {b : Bool} :
    isAtEnd.Gives c b d ↔ c.rest.isEmpty = b ∧ c = d := by
  change ((Except.ok c.rest.isEmpty : Except Error _), c) = (Except.ok b, d) ↔ _
  simp

@[simp] theorem gives_fail_iff {α : Type} {fault : ParseFault} {a : α} :
    (fail fault).Gives c a d ↔ False := by
  change ((Except.error (c.error fault) : Except Error α), c) = (Except.ok a, d) ↔ _
  simp

@[simp] theorem gives_tooDeep_iff {α : Type} {a : α} : tooDeep.Gives c a d ↔ False := by
  change ((Except.error (c.error (.tooDeep c.limit)) : Except Error α), c) = (Except.ok a, d) ↔ _
  simp

@[simp] theorem gives_isNext_iff {b : Bool} :
    (isNext t).Gives c b d ↔ (c.next == some t) = b ∧ c = d := by
  simp [isNext, and_comm]

@[simp] theorem gives_accept_iff {b : Bool} :
    (accept t).Gives c b d ↔
      c.next = some t ∧ b = true ∧ c.tail = d ∨ c.next ≠ some t ∧ b = false ∧ c = d := by
  by_cases h : c.next = some t <;> simp [accept, h, and_assoc, and_comm]

@[simp] theorem gives_expect_iff {u : Unit} :
    (expect t).Gives c u d ↔ c.next = some t ∧ c.tail = d := by
  by_cases h : c.next = some t <;> simp [expect, h]

@[simp] theorem gives_expectName_iff {role : NameRole} {x : String} :
    (expectName role).Gives c x d ↔ c.next = some (.name x) ∧ c.tail = d := by
  simp only [expectName, gives_peek_bind_iff]
  split
  · next name next => simp [next, and_comm]
  · next other =>
    have no_name : c.next ≠ some (.name x) := fun next => other x next
    simp [no_name]

@[simp] theorem gives_expectEnd_iff {u : Unit} :
    expectEnd.Gives c u d ↔ c.rest = [] ∧ c = d := by
  by_cases h : c.rest = [] <;> simp [expectEnd, h]

end Parse
end Stencil
