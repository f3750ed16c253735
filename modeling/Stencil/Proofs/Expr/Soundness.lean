import Stencil.Proofs.Expr.Operators
import Stencil.Proofs.Expr.Steps

/-! What the parsers take from the tokens is derived by the grammar. -/
namespace Stencil.Parse

open Stencil.Action Cursor Grammar

/-- Between `c` and `d` lies a phrase that stands for `tree` and nests at most `room` levels deep. -/
def Spans (room : Nat) (p : Phrase) (c : Cursor) (tree : p.Tree) (d : Cursor) : Prop :=
  ∃ ts n, Derives p ts tree n ∧ n ≤ room ∧ Passes c ts d

/-- The parser takes nothing but phrases. -/
def Sound (room : Nat) (p : Phrase) (x : Parse p.Tree) : Prop :=
  ∀ ⦃c tree d⦄, x.Gives c tree d → Spans room p c tree d

theorem Sound.forward {room : Nat} {p : Phrase} {x : Parse p.Tree} (sound : Sound room p x) :
    Forward x := by
  intro c tree d given
  obtain ⟨ts, _, -, -, passes⟩ := sound given
  have := passes.length
  omega

variable {room : Nat} {c d m : Cursor} {x y : Parse Expr} {close : Symbol} {rounds : Nat}

theorem Spans.chain {p : Nat} {left e : Expr} (sound : Sound room (.chain (p + 1)) x)
    (first : Spans room (.chain p) c left m) (rest : (chain p x rounds left).Gives m e d) :
    Spans room (.chain p) c e d := by
  induction rounds generalizing left m with
  | zero =>
    obtain ⟨rfl, rfl⟩ := gives_pure_iff.1 rest
    exact first
  | succ rounds ih =>
    cases h : operator? p m with
    | none =>
      obtain ⟨rfl, rfl⟩ := (gives_chain_of_none h).1 rest
      exact first
    | some op =>
      obtain ⟨t, next, spells, rfl⟩ := operator?_eq_some_iff.1 h
      obtain ⟨right, m₁, operand, rest⟩ := (gives_chain_of_some h).1 rest
      obtain ⟨ts, a, left, _, before⟩ := first
      obtain ⟨us, b, right, _, after⟩ := sound operand
      refine ih ⟨_, _, .binary left spells right, by omega, ?_⟩ rest
      exact passes_append_iff.2 ⟨m, before, .cons next after⟩

theorem sound_chains (sound : Sound room .unary x) {p k : Nat} (levels : p + k = 7) :
    Sound room (.chain p) (chains x (List.range' p k)) := by
  intro c e d h
  induction k generalizing p c e d with
  | zero =>
    obtain rfl : p = 7 := levels
    obtain ⟨ts, n, derived, bound, passes⟩ := sound h
    exact ⟨ts, n, .operand derived, bound, passes⟩
  | succ k ih =>
    rw [List.range'_succ] at h
    obtain ⟨left, m, first, rest⟩ := gives_chains_cons_iff.1 h
    have tighter : Sound room (.chain (p + 1)) (chains x (List.range' (p + 1) k)) :=
      fun _ _ _ given => ih (by omega) given
    obtain ⟨ts, n, derived, bound, passes⟩ := tighter first
    exact Spans.chain tighter ⟨ts, n, .tighter (by omega) derived, bound, passes⟩ rest

theorem sound_climb (operand : Sound room .unary x) : Sound room (.chain 1) (climb x 7 1) := by
  rw [climb_eq_stratified operand.forward (by omega) (by omega)]
  exact sound_chains operand (p := 1) (k := 6) rfl

theorem sound_conditional (operand : Sound room .unary x) (expression : Sound room .expression y) :
    Sound (room + 1) .expression (conditional x y) := by
  intro c e d h
  obtain ⟨test, m, first, rest⟩ := gives_conditional_iff.1 h
  obtain ⟨ts, n, derived, bound, passes⟩ := sound_climb operand first
  rcases rest with ⟨-, rfl, rfl⟩ | ⟨question, a, m₁, whenTrue, colon, b, whenFalse, rfl⟩
  · exact ⟨ts, n + 1, .plain derived, by omega, passes⟩
  · obtain ⟨us, j, derived₁, _, passes₁⟩ := expression whenTrue
    obtain ⟨vs, k, derived₂, _, passes₂⟩ := expression whenFalse
    refine ⟨_, _, .conditional derived derived₁ derived₂, by omega, ?_⟩
    simp only [passes_append_iff, passes_cons_iff]
    exact ⟨m₁, ⟨m, passes, question, passes₁⟩, colon, passes₂⟩

theorem sound_items {p : Phrase} {item : Parse p.Tree} (sound : Sound room p item)
    {trees : List p.Tree} (h : (items close item rounds).Gives c trees d) :
    ∃ m, Spans room (.list p) c trees m ∧ m.next = some (.symbol close) ∧ m.tail = d := by
  induction rounds generalizing c trees with
  | zero => exact absurd h gives_fail_iff.1
  | succ rounds ih =>
    by_cases next : c.next = some (.symbol close)
    · obtain ⟨rfl, rfl⟩ := (gives_items_of_close next).1 h
      exact ⟨c, ⟨[], 0, .nil, by omega, .nil⟩, next, rfl⟩
    · obtain ⟨tree, m, first, rest⟩ := (gives_items_of_not_close next).1 h
      obtain ⟨ts, n, derived, bound, passes⟩ := sound first
      rcases rest with ⟨-, closes, trees, rest, rfl⟩ | ⟨comma, trees, rest, rfl⟩
      · -- Without a comma the next round stops at once.
        cases rounds with
        | zero => exact absurd rest gives_fail_iff.1
        | succ rounds =>
          obtain ⟨rfl, rfl⟩ := (gives_items_of_close closes).1 rest
          exact ⟨m, ⟨ts, n, .last derived, bound, passes⟩, closes, rfl⟩
      · obtain ⟨m₁, ⟨us, k, others, _, passes₁⟩, closes, rfl⟩ := ih rest
        refine ⟨m₁, ⟨_, _, .cons derived others, by omega, ?_⟩, closes, rfl⟩
        exact passes_append_iff.2 ⟨m, passes, .cons comma passes₁⟩

theorem sound_list {p : Phrase} {item : Parse p.Tree} (sound : Sound room p item)
    {trees : List p.Tree} (h : (list close item).Gives c trees d) :
    ∃ m, Spans room (.list p) c trees m ∧ m.next = some (.symbol close) ∧ m.tail = d :=
  sound_items sound (gives_list_iff.1 h)

theorem sound_key (expression : Sound room .expression x) : Sound room .key (key x) := by
  intro c e d h
  rcases gives_key_cases h with ⟨t, name, next, isKey⟩ | next
  · obtain ⟨rfl, rfl⟩ := (gives_key_of_isKey next isKey).1 h
    exact ⟨_, _, .key isKey, by omega, .cons next .nil⟩
  · obtain ⟨m, inner, closes, rfl⟩ := (gives_key_of_openParen next).1 h
    obtain ⟨ts, n, derived, bound, passes⟩ := expression inner
    refine ⟨_, _, .computedKey derived, bound, .cons next ?_⟩
    exact passes_append_iff.2 ⟨m, passes, .cons closes .nil⟩

theorem sound_entry (expression : Sound room .expression x) :
    Sound room .entry (Parse.entry x) := by
  intro c e d h
  obtain ⟨k, m, first, colon, v, second, rfl⟩ := gives_entry_iff.1 h
  obtain ⟨ts, a, derived, _, passes⟩ := sound_key expression first
  obtain ⟨us, b, derived₁, _, passes₁⟩ := expression second
  refine ⟨_, _, .entry derived derived₁, by omega, ?_⟩
  exact passes_append_iff.2 ⟨m, passes, .cons colon passes₁⟩

theorem sound_primary (expression : Sound room .expression x) :
    Sound room .primary (primary x) := by
  intro c e d h
  obtain ⟨t, next, ⟨value, isLiteral⟩ | ⟨name, rfl⟩ | rfl | rfl | rfl⟩ := gives_primary_cases h
  · obtain ⟨rfl, rfl⟩ := (gives_primary_of_literal next isLiteral).1 h
    exact ⟨_, _, .literal isLiteral, by omega, .cons next .nil⟩
  · rcases (gives_primary_of_name next).1 h with ⟨-, rfl, rfl⟩ | ⟨opens, args, given, rfl⟩
    · exact ⟨_, _, .name name, by omega, .cons next .nil⟩
    · obtain ⟨m, ⟨ts, n, derived, bound, passes⟩, closes, rfl⟩ := sound_list expression given
      refine ⟨_, _, .call derived, bound, .cons next (.cons opens ?_)⟩
      exact passes_append_iff.2 ⟨m, passes, .cons closes .nil⟩
  · obtain ⟨m, inner, closes, rfl⟩ := (gives_primary_of_openParen next).1 h
    obtain ⟨ts, n, derived, bound, passes⟩ := expression inner
    refine ⟨_, _, .group derived, bound, .cons next ?_⟩
    exact passes_append_iff.2 ⟨m, passes, .cons closes .nil⟩
  · obtain ⟨items, given, rfl⟩ := (gives_primary_of_openBracket next).1 h
    obtain ⟨m, ⟨ts, n, derived, bound, passes⟩, closes, rfl⟩ := sound_list expression given
    refine ⟨_, _, .array derived, bound, .cons next ?_⟩
    exact passes_append_iff.2 ⟨m, passes, .cons closes .nil⟩
  · obtain ⟨entries, given, rfl⟩ := (gives_primary_of_openBrace next).1 h
    obtain ⟨m, ⟨ts, n, derived, bound, passes⟩, closes, rfl⟩ :=
      sound_list (sound_entry expression) given
    refine ⟨_, _, .mapping derived, bound, .cons next ?_⟩
    exact passes_append_iff.2 ⟨m, passes, .cons closes .nil⟩

theorem Spans.suffixes (expression : Sound room .expression x) {base e : Expr}
    (first : Spans room .suffixed c base m) (rest : (suffixes x rounds base).Gives m e d) :
    Spans room .suffixed c e d := by
  induction rounds generalizing base m with
  | zero =>
    obtain ⟨rfl, rfl⟩ := gives_pure_iff.1 rest
    exact first
  | succ rounds ih =>
    obtain ⟨ts, a, object, _, before⟩ := id first
    by_cases dot : m.next = some (.symbol .dot)
    · obtain ⟨name, m₁, named, rest⟩ := (gives_suffixes_of_dot dot).1 rest
      obtain ⟨t, next, isName, rfl⟩ := gives_memberName_iff.1 named
      refine ih ⟨_, _, .dot object isName, by omega, ?_⟩ rest
      exact passes_append_iff.2 ⟨m, before, .cons dot (.cons next .nil)⟩
    by_cases bracket : m.next = some (.symbol .openBracket)
    · obtain ⟨k, m₁, inner, closes, rest⟩ := (gives_suffixes_of_bracket bracket).1 rest
      obtain ⟨us, b, key, _, passes⟩ := expression inner
      refine ih ⟨_, _, .bracket object key, by omega, ?_⟩ rest
      simp only [passes_append_iff, passes_cons_iff, passes_nil_iff]
      exact ⟨m₁, ⟨m, before, bracket, passes⟩, closes, rfl⟩
    by_cases pipe : m.next = some (.symbol .pipe)
    · obtain ⟨name, named, rest⟩ := (gives_suffixes_of_pipe pipe).1 rest
      rcases rest with ⟨-, rest⟩ | ⟨opens, args, m₁, given, rest⟩
      · refine ih ⟨_, _, .filter object, by omega, ?_⟩ rest
        exact passes_append_iff.2 ⟨m, before, .cons pipe (.cons named .nil)⟩
      · obtain ⟨m₂, ⟨us, b, derived, _, passes⟩, closes, rfl⟩ := sound_list expression given
        refine ih ⟨_, _, .filterWith object derived, by omega, ?_⟩ rest
        simp only [passes_append_iff, passes_cons_iff, passes_nil_iff]
        exact ⟨m₂, ⟨m, before, pipe, named, opens, passes⟩, closes, rfl⟩
    · have none : m.next.any startsSuffix = false := by
        cases next : m.next with
        | none => rfl
        | some t =>
          simp only [next, Option.some.injEq] at dot bracket pipe
          simp [startsSuffix, dot, bracket, pipe]
      obtain ⟨rfl, rfl⟩ := (gives_suffixes_of_none none).1 rest
      exact first

theorem sound_suffixed (expression : Sound room .expression x) :
    Sound room .suffixed (suffixed x) := by
  intro c e d h
  obtain ⟨base, m, first, rest⟩ := gives_suffixed_iff.1 h
  obtain ⟨ts, n, derived, bound, passes⟩ := sound_primary expression first
  exact Spans.suffixes expression ⟨ts, n, .bare derived, bound, passes⟩ rest

/-- An operator's operand takes one of the levels. -/
theorem sound_operand (expression : Sound room .expression x)
    (deeper : ∀ c e d, y.Gives c e d → ∃ n, room = n + 1 ∧ Spans n .unary c e d) :
    Sound room .unary (operand y x) := by
  intro c e d h
  cases unary : c.next.bind UnaryOp.ofToken? with
  | none =>
    obtain ⟨ts, n, derived, bound, passes⟩ :=
      sound_suffixed expression ((gives_operand_of_none unary).1 h)
    exact ⟨ts, n, .unsigned derived, bound, passes⟩
  | some op =>
    obtain ⟨t, next, isOp⟩ := Option.bind_eq_some_iff.1 unary
    have spells := UnaryOp.ofToken?_eq_some_iff.1 isOp
    obtain ⟨inner, given, rfl⟩ := (gives_operand_of_some next spells).1 h
    obtain ⟨_, rfl, ts, n, derived, bound, passes⟩ := deeper _ _ _ given
    exact ⟨_, _, .unary spells derived, by omega, .cons next passes⟩

theorem sound_nested (room : Nat) :
    Sound room .expression (nested room .expression) ∧
      Sound room .unary (nested room .operand) := by
  induction room with
  | zero =>
    have tooDeep : Sound 0 .expression (tooDeep : Parse Expr) :=
      fun _ _ _ h => absurd h gives_tooDeep_iff.1
    exact ⟨tooDeep, sound_operand tooDeep fun _ _ _ h => absurd h gives_tooDeep_iff.1⟩
  | succ room ih =>
    have expression := sound_conditional ih.2 ih.1
    exact ⟨expression, sound_operand expression fun _ _ _ h => ⟨room, rfl, ih.2 h⟩⟩

theorem sound_expression {e : Expr} (h : expression.Gives c e d) :
    Spans c.limit .expression c e d :=
  (sound_nested c.limit).1 h

end Stencil.Parse
