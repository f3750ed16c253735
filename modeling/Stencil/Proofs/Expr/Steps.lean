import Stencil.Proofs.Expr.Cursor
import Stencil.Proofs.Expr.Grammar

/-! What each parser of a phrase gives, in terms of the parsers that it calls. -/
namespace Stencil.Parse

open Stencil.Action Cursor Grammar

variable {c d : Cursor} {e base left : Expr} {x : Parse Expr} {close : Symbol} {rounds : Nat}
  {t : Token}

theorem gives_conditional_iff {operand expression : Parse Expr} :
    (conditional operand expression).Gives c e d ↔
      ∃ test m, (climb operand 7 1).Gives c test m ∧
        (m.next ≠ some (.symbol .question) ∧ test = e ∧ m = d ∨
          m.next = some (.symbol .question) ∧ ∃ a m₁, expression.Gives m.tail a m₁ ∧
            m₁.next = some (.symbol .colon) ∧ ∃ b, expression.Gives m₁.tail b d ∧
              .conditional test a b = e) := by
  simp [conditional, and_assoc, and_comm, and_left_comm]

theorem gives_operand_of_some {deeper : Parse Expr} {op : UnaryOp} (next : c.next = some t)
    (spells : t ∈ op.spellings) :
    (operand deeper x).Gives c e d ↔ ∃ inner, deeper.Gives c.tail inner d ∧ .unary op inner = e := by
  simp [operand, next, UnaryOp.ofToken?_eq_some_iff.2 spells, and_assoc]

theorem gives_operand_of_none {deeper : Parse Expr} (h : c.next.bind UnaryOp.ofToken? = none) :
    (operand deeper x).Gives c e d ↔ (suffixed x).Gives c e d := by
  simp [operand, h, and_assoc]

theorem gives_items_of_close {α : Type} {item : Parse α} {as : List α}
    (h : c.next = some (.symbol close)) :
    (items close item (rounds + 1)).Gives c as d ↔ as = [] ∧ c.tail = d := by
  simp [items, h]

theorem gives_items_of_not_close {α : Type} {item : Parse α} {as : List α}
    (h : c.next ≠ some (.symbol close)) :
    (items close item (rounds + 1)).Gives c as d ↔
      ∃ a m, item.Gives c a m ∧
        (m.next ≠ some (.symbol .comma) ∧ m.next = some (.symbol close) ∧
            (∃ rest, (items close item rounds).Gives m rest d ∧ a :: rest = as) ∨
          m.next = some (.symbol .comma) ∧
            ∃ rest, (items close item rounds).Gives m.tail rest d ∧ a :: rest = as) := by
  simp [items, h, and_assoc]

theorem gives_list_iff {α : Type} {item : Parse α} {as : List α} :
    (list close item).Gives c as d ↔ (items close item (c.rest.length + 1)).Gives c as d := by
  simp [list, and_assoc]

theorem gives_key_of_isKey {name : String} (next : c.next = some t) (h : IsKey t name) :
    (key x).Gives c e d ↔ c.tail = d ∧ .literal (.string name) = e := by
  cases h with
  | string => simp [key, next, and_assoc]
  | memberName h => cases h <;> simp [key, next, and_assoc]

theorem gives_closed_iff :
    Gives (do
      let inner ← x
      expect (.symbol .closeParen)
      return inner) c e d ↔
      ∃ m, x.Gives c e m ∧ m.next = some (.symbol .closeParen) ∧ m.tail = d := by
  simp only [gives_bind_iff, gives_expect_iff, gives_pure_iff]
  constructor
  · rintro ⟨inner, m, given, _, n, ⟨close, rfl⟩, rfl, rfl⟩
    exact ⟨m, given, close, rfl⟩
  · rintro ⟨m, given, close, rfl⟩
    exact ⟨e, m, given, (), m.tail, ⟨close, rfl⟩, rfl, rfl⟩

theorem gives_key_of_openParen (next : c.next = some (.symbol .openParen)) :
    (key x).Gives c e d ↔
      ∃ m, x.Gives c.tail e m ∧ m.next = some (.symbol .closeParen) ∧ m.tail = d := by
  simp only [key, gives_peek_bind_iff, next, gives_advance_bind_iff, gives_closed_iff]

theorem gives_key_cases (h : (key x).Gives c e d) :
    (∃ t name, c.next = some t ∧ IsKey t name) ∨ c.next = some (.symbol .openParen) := by
  simp only [key, gives_peek_bind_iff] at h
  split at h
  · next next => exact .inl ⟨_, _, next, .string ..⟩
  · next next => exact .inl ⟨_, _, next, .memberName (.number _)⟩
  · next next => exact .inl ⟨_, _, next, .memberName (.name _)⟩
  · next next => exact .inr next
  · exact absurd h (by simp)

theorem gives_entry_iff {entry : Expr × Expr} :
    (Parse.entry x).Gives c entry d ↔
      ∃ k m, (key x).Gives c k m ∧ m.next = some (.symbol .colon) ∧
        ∃ v, x.Gives m.tail v d ∧ (k, v) = entry := by
  simp [Parse.entry, and_assoc]

theorem gives_primary_of_literal {value : Literal} (next : c.next = some t)
    (h : IsLiteral t value) :
    (primary x).Gives c e d ↔ .literal value = e ∧ c.tail = d := by
  obtain ⟨first, rest, whole, token⟩ := exists_of_next next
  conv => lhs; unfold Gives primary
  simp only [whole, token]
  change Gives (do advance; _) c e d ↔ _
  cases h <;> simp [and_comm]

theorem gives_primary_of_name {name : String} (next : c.next = some (.name name)) :
    (primary x).Gives c e d ↔
      c.tail.next ≠ some (.symbol .openParen) ∧ .variable name = e ∧ c.tail = d ∨
        c.tail.next = some (.symbol .openParen) ∧
          ∃ args, (arguments x).Gives c.tail.tail args d ∧ .call name args = e := by
  obtain ⟨first, rest, whole, token⟩ := exists_of_next next
  conv => lhs; unfold Gives primary
  simp only [whole, token]
  change Gives (do advance; _) c e d ↔ _
  simp [and_assoc]

theorem gives_primary_of_openParen (next : c.next = some (.symbol .openParen)) :
    (primary x).Gives c e d ↔
      ∃ m, x.Gives c.tail e m ∧ m.next = some (.symbol .closeParen) ∧ m.tail = d := by
  obtain ⟨first, rest, whole, token⟩ := exists_of_next next
  conv => lhs; unfold Gives primary
  simp only [whole, token]
  change Gives (do advance; _) c e d ↔ _
  rw [gives_advance_bind_iff]
  exact gives_closed_iff

theorem gives_primary_of_openBracket (next : c.next = some (.symbol .openBracket)) :
    (primary x).Gives c e d ↔
      ∃ items, (list .closeBracket x).Gives c.tail items d ∧ .array items = e := by
  obtain ⟨first, rest, whole, token⟩ := exists_of_next next
  conv => lhs; unfold Gives primary
  simp only [whole, token]
  change Gives (do advance; _) c e d ↔ _
  simp

theorem gives_primary_of_openBrace (next : c.next = some (.symbol .openBrace)) :
    (primary x).Gives c e d ↔
      ∃ entries, (list .closeBrace (Parse.entry x)).Gives c.tail entries d ∧
        .mapping entries = e := by
  obtain ⟨first, rest, whole, token⟩ := exists_of_next next
  conv => lhs; unfold Gives primary
  simp only [whole, token]
  change Gives (do advance; _) c e d ↔ _
  simp

/-- The tokens that an operand begins with. -/
theorem gives_primary_cases (h : (primary x).Gives c e d) :
    ∃ t, c.next = some t ∧ ((∃ value, IsLiteral t value) ∨ (∃ name, t = .name name) ∨
      t = .symbol .openParen ∨ t = .symbol .openBracket ∨ t = .symbol .openBrace) := by
  unfold Gives primary at h
  cases whole : c.rest with
  | nil =>
    simp only [whole] at h
    exact absurd h (gives_fail_iff.1)
  | cons first rest =>
    refine ⟨first.token, by simp [Cursor.next, whole], ?_⟩
    simp only [whole] at h
    replace h : Gives (do advance; _) c e d := h
    obtain ⟨_, _, -, h⟩ := gives_bind_iff.1 h
    split at h
    · next n token => exact .inl ⟨.number n, by rw [token]; exact .number n⟩
    · next s q token => exact .inl ⟨.string s, by rw [token]; exact .string s q⟩
    · next token => exact .inl ⟨.bool true, by rw [token]; exact .true⟩
    · next token => exact .inl ⟨.bool false, by rw [token]; exact .false⟩
    · next token => exact .inl ⟨.null, by rw [token]; exact .null⟩
    · next token => exact .inr (.inl ⟨_, token⟩)
    · next token => exact .inr (.inr (.inl token))
    · next token => exact .inr (.inr (.inr (.inl token)))
    · next token => exact .inr (.inr (.inr (.inr token)))
    · exact absurd h (by simp)

theorem gives_memberName_iff {name : String} :
    memberName.Gives c name d ↔ ∃ t, c.next = some t ∧ IsMemberName t name ∧ c.tail = d := by
  simp only [memberName, gives_peek_bind_iff]
  constructor
  · intro h
    split at h
    · next x next =>
      simp only [gives_bind_iff, gives_advance_iff, gives_pure_iff] at h
      obtain ⟨_, _, rfl, rfl, rfl⟩ := h
      exact ⟨_, next, .name _, rfl⟩
    · next n next =>
      simp only [gives_bind_iff, gives_advance_iff, gives_pure_iff] at h
      obtain ⟨_, _, rfl, rfl, rfl⟩ := h
      exact ⟨_, next, .number _, rfl⟩
    · exact absurd h (by simp)
  · rintro ⟨t, next, names, rfl⟩
    cases names <;> simp [next]

theorem gives_suffixes_of_dot (next : c.next = some (.symbol .dot)) :
    (suffixes x (rounds + 1) base).Gives c e d ↔
      ∃ name m, memberName.Gives c.tail name m ∧
        (suffixes x rounds (.member base (.literal (.string name)) .dot)).Gives m e d := by
  simp [suffixes, next, and_assoc]

theorem gives_suffixes_of_bracket (next : c.next = some (.symbol .openBracket)) :
    (suffixes x (rounds + 1) base).Gives c e d ↔
      ∃ k m, x.Gives c.tail k m ∧ m.next = some (.symbol .closeBracket) ∧
        (suffixes x rounds (.member base k .bracket)).Gives m.tail e d := by
  simp [suffixes, next, and_assoc]

theorem gives_suffixes_of_pipe (next : c.next = some (.symbol .pipe)) :
    (suffixes x (rounds + 1) base).Gives c e d ↔
      ∃ name, c.tail.next = some (.name name) ∧
        (c.tail.tail.next ≠ some (.symbol .openParen) ∧
            (suffixes x rounds (.filter base name [])).Gives c.tail.tail e d ∨
          c.tail.tail.next = some (.symbol .openParen) ∧ ∃ args m,
            (arguments x).Gives c.tail.tail.tail args m ∧
              (suffixes x rounds (.filter base name args)).Gives m e d) := by
  simp [suffixes, next, and_assoc]

theorem gives_suffixes_of_none (h : c.next.any startsSuffix = false) :
    (suffixes x rounds base).Gives c e d ↔ base = e ∧ c = d := by
  cases rounds with
  | zero => simp [suffixes]
  | succ rounds =>
    have not_suffix (s : Symbol) (starts : startsSuffix (.symbol s)) : c.next ≠ some (.symbol s) := by
      intro next
      simp [next, starts] at h
    simp [suffixes, not_suffix .dot rfl, not_suffix .openBracket rfl, not_suffix .pipe rfl, and_comm]

theorem gives_suffixed_iff :
    (suffixed x).Gives c e d ↔
      ∃ base m, (primary x).Gives c base m ∧ (suffixes x m.rest.length base).Gives m e d := by
  have shortcut (base : Expr) (m : Cursor) :
      (if m.next.any startsSuffix then suffixes x m.rest.length base else pure base).Gives m e d ↔
        (suffixes x m.rest.length base).Gives m e d := by
    cases h : m.next.any startsSuffix with
    | false => simp [gives_suffixes_of_none h]
    | true => simp
  simp only [← shortcut]
  simp [suffixed, and_assoc]

end Stencil.Parse
