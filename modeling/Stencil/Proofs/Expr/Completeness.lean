import Stencil.Proofs.Expr.Soundness

/-! What the grammar derives is accepted by the parsers, if the tokens behind it do not go on with
it; so a derived tree is the only one. -/
namespace Stencil

namespace Grammar

/-- The tokens that an operand without unary operators can begin with. -/
def BeginsOperand (t : Token) : Prop :=
  (∃ value, IsLiteral t value) ∨ (∃ x, t = .name x) ∨
    t ∈ [.symbol .openParen, .symbol .openBracket, .symbol .openBrace]

def Begins : Phrase → Token → Prop
  | .primary, t | .suffixed, t => BeginsOperand t
  | _, t => BeginsOperand t ∨ ∃ op : UnaryOp, t ∈ op.spellings

theorem beginsOperand_of_isKey {t : Token} {x : String} (h : IsKey t x) : BeginsOperand t := by
  cases h with
  | string _ quote => exact .inl ⟨_, .string _ quote⟩
  | memberName h =>
    cases h with
    | name => exact .inr (.inl ⟨_, rfl⟩)
    | number n => exact .inl ⟨_, .number n⟩

theorem Derives.exists_begins {p : Phrase} {ts : List Token} {tree : p.Tree} {n : Nat}
    (h : Derives p ts tree n) (single : ∀ item, p ≠ .list item) :
    ∃ t us, ts = t :: us ∧ Begins p t := by
  induction h with
  | plain _ ih | operand _ ih | tighter _ _ ih | bare _ ih => exact ih (by simp)
  | unsigned _ ih =>
    obtain ⟨t, us, rfl, begins⟩ := ih (by simp)
    exact ⟨t, us, rfl, .inl begins⟩
  | conditional _ _ _ ih | binary _ _ _ ih | dot _ _ ih | bracket _ _ ih | filter _ ih
  | filterWith _ _ ih | entry _ _ ih =>
    obtain ⟨t, us, rfl, begins⟩ := ih (by simp)
    exact ⟨t, _, rfl, begins⟩
  | unary spells => exact ⟨_, _, rfl, .inr ⟨_, spells⟩⟩
  | literal isLiteral => exact ⟨_, _, rfl, .inl ⟨_, isLiteral⟩⟩
  | key isKey => exact ⟨_, _, rfl, .inl (beginsOperand_of_isKey isKey)⟩
  | name | call => exact ⟨_, _, rfl, .inr (.inl ⟨_, rfl⟩)⟩
  | group | array | mapping => exact ⟨_, _, rfl, .inr (.inr (by simp))⟩
  | computedKey => exact ⟨_, _, rfl, .inl (.inr (.inr (by simp)))⟩
  | nil | last | cons => exact absurd rfl (single _)

theorem not_spells_of_beginsOperand {t : Token} {op : UnaryOp} (h : BeginsOperand t) :
    t ∉ op.spellings := by
  rcases h with ⟨value, isLiteral⟩ | ⟨x, rfl⟩ | h
  · cases isLiteral <;> cases op <;> simp [UnaryOp.spellings]
  · cases op <;> simp [UnaryOp.spellings]
  · simp only [List.mem_cons, List.not_mem_nil, or_false] at h
    rcases h with rfl | rfl | rfl <;> cases op <;> simp [UnaryOp.spellings]

theorem not_begins_of_close {close : Symbol} {p : Phrase}
    (closes : close ∈ [Symbol.closeParen, .closeBracket, .closeBrace]) :
    ¬ Begins p (.symbol close) := by
  have not_operand : ¬ BeginsOperand (.symbol close) := by
    rintro (⟨value, ⟨⟩⟩ | ⟨x, ⟨⟩⟩ | h)
    simp only [List.mem_cons, List.not_mem_nil, or_false, Token.symbol.injEq] at closes h
    rcases closes with rfl | rfl | rfl <;> simp at h
  have not_operator (op : UnaryOp) : .symbol close ∉ op.spellings := by
    simp only [List.mem_cons, List.not_mem_nil, or_false] at closes
    rcases closes with rfl | rfl | rfl <;> cases op <;> simp [UnaryOp.spellings]
  unfold Begins
  split
  · exact not_operand
  · exact not_operand
  · rintro (h | ⟨op, h⟩)
    · exact not_operand h
    · exact not_operator op h

end Grammar

namespace Parse

open Stencil.Action Cursor Grammar

variable {room : Nat} {c d m : Cursor} {x y : Parse Expr} {close : Symbol} {rounds : Nat}

def EndsName (next : Option Token) : Prop := next ≠ some (.symbol .openParen)

def EndsOperand (next : Option Token) : Prop := EndsName next ∧ next.any startsSuffix = false

/-- No operator of precedence `p` or higher follows. -/
def EndsChain (p : Nat) (next : Option Token) : Prop :=
  EndsOperand next ∧ ∀ q, p ≤ q → next.bind (operatorAt? q) = none

def EndsExpression (next : Option Token) : Prop :=
  EndsChain 0 next ∧ next ≠ some (.symbol .question)

theorem EndsChain.mono {p q : Nat} {next : Option Token} (h : EndsChain p next) (le : p ≤ q) :
    EndsChain q next :=
  ⟨h.1, fun r bound => h.2 r (by omega)⟩

theorem endsExpression_of_symbol {s : Symbol}
    (h : s ∈ [Symbol.comma, .colon, .closeParen, .closeBracket, .closeBrace]) :
    EndsExpression (some (.symbol s)) := by
  simp only [List.mem_cons, List.not_mem_nil, or_false] at h
  rcases h with rfl | rfl | rfl | rfl | rfl <;>
    simp [EndsExpression, EndsChain, EndsOperand, EndsName, startsSuffix, operatorAt?,
      BinaryOp.ofToken?]

theorem endsExpression_none : EndsExpression none := by
  simp [EndsExpression, EndsChain, EndsOperand, EndsName]

theorem endsChain_question : EndsChain 1 (some (.symbol .question)) := by
  simp [EndsChain, EndsOperand, EndsName, startsSuffix, operatorAt?, BinaryOp.ofToken?]

theorem endsOperand_of_spells {op : BinaryOp} {t : Token} (h : t ∈ op.spellings) :
    EndsOperand (some t) := by
  cases op <;> simp only [BinaryOp.spellings, List.mem_cons, List.not_mem_nil, or_false] at h
  case or | and => rcases h with rfl | rfl <;> simp [EndsOperand, EndsName, startsSuffix]
  all_goals subst h; simp [EndsOperand, EndsName, startsSuffix]

/-- An operator ends the operands of all higher precedences. -/
theorem endsChain_of_spells {op : BinaryOp} {t : Token} (h : t ∈ op.spellings) :
    EndsChain (op.precedence + 1) (some t) := by
  refine ⟨endsOperand_of_spells h, fun q bound => ?_⟩
  rw [Option.bind_some, Option.eq_none_iff_forall_ne_some]
  intro other at_q
  obtain ⟨spells, rfl⟩ := operatorAt?_eq_some_iff.1 at_q
  have same := (BinaryOp.ofToken?_eq_some_iff.2 h).symm.trans (BinaryOp.ofToken?_eq_some_iff.2 spells)
  obtain rfl := Option.some.inj same
  omega

/-- The parser accepts every phrase that nests at most `room` levels deep. -/
def Accepts (room : Nat) (p : Phrase) (ends : Option Token → Prop) (x : Parse p.Tree) : Prop :=
  ∀ ⦃c ts tree n d⦄, Derives p ts tree n → n ≤ room → Passes c ts d → ends d.next →
    x.Gives c tree d

theorem next_ne_close {p : Phrase} {ts : List Token} {tree : p.Tree} {n : Nat}
    (derived : Derives p ts tree n) (single : ∀ item, p ≠ .list item) (passes : Passes c ts d)
    (closes : close ∈ [Symbol.closeParen, .closeBracket, .closeBrace]) :
    c.next ≠ some (.symbol close) := by
  obtain ⟨t, us, rfl, begins⟩ := derived.exists_begins single
  obtain ⟨next, -⟩ := passes_cons_iff.1 passes
  rw [next]
  rintro ⟨rfl⟩
  exact not_begins_of_close closes begins

theorem accepts_items {p : Phrase} {item : Parse p.Tree} (accepts : Accepts room p EndsExpression item)
    (single : ∀ item, p ≠ .list item) (closes : close ∈ [Symbol.closeParen, .closeBracket, .closeBrace])
    {trees : List p.Tree} {ts : List Token} {n : Nat}
    (derived : Derives (.list p) ts trees n) (bound : n ≤ room) (passes : Passes c ts d)
    (next : d.next = some (.symbol close)) (enough : trees.length < rounds) :
    (items close item rounds).Gives c trees d.tail := by
  have ends : EndsExpression d.next := by
    rw [next]
    exact endsExpression_of_symbol (List.mem_cons_of_mem _ (List.mem_cons_of_mem _ closes))
  induction trees generalizing c ts n rounds with
  | nil =>
    obtain ⟨rounds, rfl⟩ := Nat.exists_eq_add_one_of_ne_zero (Nat.ne_of_gt enough)
    cases derived
    obtain rfl := passes_nil_iff.1 passes
    exact (gives_items_of_close next).2 ⟨rfl, rfl⟩
  | cons tree trees ih =>
    obtain ⟨rounds, rfl⟩ := Nat.exists_eq_add_one_of_ne_zero (Nat.ne_of_gt (Nat.zero_lt_of_lt enough))
    rw [List.length_cons] at enough
    cases derived with
    | last first =>
      have begin := next_ne_close first single passes closes
      refine (gives_items_of_not_close begin).2 ⟨_, d, accepts first bound passes ends, .inl ?_⟩
      obtain ⟨rounds, rfl⟩ := Nat.exists_eq_add_one_of_ne_zero (by omega : rounds ≠ 0)
      have comma : d.next ≠ some (.symbol .comma) := by
        rw [next]
        rintro ⟨rfl⟩
        simp at closes
      exact ⟨comma, next, [], (gives_items_of_close next).2 ⟨rfl, rfl⟩, rfl⟩
    | cons first others =>
      obtain ⟨m, before, after⟩ := passes_append_iff.1 passes
      obtain ⟨comma, after⟩ := passes_cons_iff.1 after
      have begin := next_ne_close first single before closes
      have end_comma : EndsExpression m.next := by
        rw [comma]
        exact endsExpression_of_symbol (by simp)
      refine (gives_items_of_not_close begin).2
        ⟨_, m, accepts first (by omega) before end_comma, .inr ⟨comma, trees, ?_, rfl⟩⟩
      exact ih others (by omega) after (by omega)

theorem length_le_of_derives {p : Phrase} (single : ∀ item, p ≠ .list item) {trees : List p.Tree}
    {ts : List Token} {n : Nat} (derived : Derives (.list p) ts trees n) :
    trees.length ≤ ts.length := by
  induction trees generalizing ts n with
  | nil => exact Nat.zero_le _
  | cons tree trees ih =>
    cases derived with
    | last first =>
      obtain ⟨t, us, rfl, -⟩ := first.exists_begins single
      simp
    | cons first others =>
      have := ih others
      simp only [List.length_cons, List.length_append]
      omega

theorem accepts_list {p : Phrase} {item : Parse p.Tree} (accepts : Accepts room p EndsExpression item)
    (single : ∀ item, p ≠ .list item) (closes : close ∈ [Symbol.closeParen, .closeBracket, .closeBrace])
    {trees : List p.Tree} {ts : List Token} {n : Nat}
    (derived : Derives (.list p) ts trees n) (bound : n ≤ room) (passes : Passes c ts d)
    (next : d.next = some (.symbol close)) : (list close item).Gives c trees d.tail := by
  have := length_le_of_derives single derived
  have := passes.length
  exact gives_list_iff.2 (accepts_items accepts single closes derived bound passes next (by omega))

theorem accepts_key (expression : Accepts room .expression EndsExpression x) :
    Accepts room .key (fun _ => True) (key x) := by
  intro c ts e n d derived bound passes _
  cases derived with
  | key isKey =>
    simp only [passes_cons_iff, passes_nil_iff] at passes
    obtain ⟨next, rfl⟩ := passes
    exact (gives_key_of_isKey next isKey).2 ⟨rfl, rfl⟩
  | computedKey inner =>
    simp only [passes_append_iff, passes_cons_iff, passes_nil_iff] at passes
    obtain ⟨m, ⟨opens, within⟩, closes, rfl⟩ := passes
    have ends : EndsExpression m.next := closes ▸ endsExpression_of_symbol (by simp)
    exact (gives_key_of_openParen opens).2 ⟨m, expression inner bound within ends, closes, rfl⟩

theorem accepts_entry (expression : Accepts room .expression EndsExpression x) :
    Accepts room .entry EndsExpression (Parse.entry x) := by
  intro c ts e n d derived bound passes ends
  cases derived with
  | entry k v =>
    simp only [passes_append_iff, passes_cons_iff] at passes
    obtain ⟨m, before, colon, after⟩ := passes
    have key := accepts_key expression k (by omega) before trivial
    exact gives_entry_iff.2 ⟨_, m, key, colon, _, expression v (by omega) after ends, rfl⟩

theorem accepts_primary (expression : Accepts room .expression EndsExpression x) :
    Accepts room .primary EndsName (primary x) := by
  intro c ts e n d derived bound passes ends
  cases derived with
  | literal isLiteral =>
    simp only [passes_cons_iff, passes_nil_iff] at passes
    obtain ⟨next, rfl⟩ := passes
    exact (gives_primary_of_literal next isLiteral).2 ⟨rfl, rfl⟩
  | name x =>
    simp only [passes_cons_iff, passes_nil_iff] at passes
    obtain ⟨next, rfl⟩ := passes
    exact (gives_primary_of_name next).2 (.inl ⟨ends, rfl, rfl⟩)
  | call args =>
    simp only [passes_append_iff, passes_cons_iff, passes_nil_iff] at passes
    obtain ⟨m, ⟨next, opens, within⟩, closes, rfl⟩ := passes
    have given := accepts_list expression (by simp) (by simp) args bound within closes
    exact (gives_primary_of_name next).2 (.inr ⟨opens, _, given, rfl⟩)
  | group inner =>
    simp only [passes_append_iff, passes_cons_iff, passes_nil_iff] at passes
    obtain ⟨m, ⟨opens, within⟩, closes, rfl⟩ := passes
    have ends : EndsExpression m.next := closes ▸ endsExpression_of_symbol (by simp)
    exact (gives_primary_of_openParen opens).2 ⟨m, expression inner bound within ends, closes, rfl⟩
  | array items =>
    simp only [passes_append_iff, passes_cons_iff, passes_nil_iff] at passes
    obtain ⟨m, ⟨opens, within⟩, closes, rfl⟩ := passes
    have given := accepts_list expression (by simp) (by simp) items bound within closes
    exact (gives_primary_of_openBracket opens).2 ⟨_, given, rfl⟩
  | mapping entries =>
    simp only [passes_append_iff, passes_cons_iff, passes_nil_iff] at passes
    obtain ⟨m, ⟨opens, within⟩, closes, rfl⟩ := passes
    have given :=
      accepts_list (accepts_entry expression) (by simp) (by simp) entries bound within closes
    exact (gives_primary_of_openBrace opens).2 ⟨_, given, rfl⟩

/-- From `c` the parser comes to `d` with `e` and goes on there. The rounds that it has left are
enough for the tokens behind `d`. -/
def ReachesSuffix (x : Parse Expr) (c : Cursor) (e : Expr) (d : Cursor) : Prop :=
  ∃ rounds, d.rest.length ≤ rounds ∧
    ∀ whole m, (suffixes x rounds e).Gives d whole m → (suffixed x).Gives c whole m

theorem ReachesSuffix.step {base e : Expr} {t : Token} {us : List Token}
    (reached : ReachesSuffix x c base m) (passes : Passes m (t :: us) d)
    (step : ∀ rounds whole last, (suffixes x rounds e).Gives d whole last →
      (suffixes x (rounds + 1) base).Gives m whole last) :
    ReachesSuffix x c e d := by
  obtain ⟨rounds, enough, continues⟩ := reached
  have longer := passes.length
  rw [List.length_cons] at longer
  obtain ⟨rounds, rfl⟩ := Nat.exists_eq_add_one_of_ne_zero (by omega : rounds ≠ 0)
  exact ⟨rounds, by omega, fun whole last rest => continues whole last (step rounds whole last rest)⟩

theorem reachesSuffix_of_derives (expression : Accepts room .expression EndsExpression x)
    {ts : List Token} {e : Expr} {n : Nat} (derived : Derives .suffixed ts e n) (bound : n ≤ room)
    (passes : Passes c ts d) (ends : EndsName d.next) : ReachesSuffix x c e d := by
  -- The object of a suffix is a phrase of the same kind, written with fewer tokens.
  induction size : ts.length using Nat.strongRecOn generalizing ts e n d with
  | ind size ih =>
    subst size
    cases derived with
    | bare base =>
      have first := accepts_primary expression base bound passes ends
      exact ⟨_, Nat.le_refl _, fun _ _ rest => gives_suffixed_iff.2 ⟨e, d, first, rest⟩⟩
    | dot object isName =>
      obtain ⟨m, before, after⟩ := passes_append_iff.1 passes
      have dot := (passes_cons_iff.1 after).1
      have reached := ih _ (by simp) object bound before (by simp [dot, EndsName]) rfl
      refine reached.step after fun rounds whole last rest => ?_
      simp only [passes_cons_iff, passes_nil_iff] at after
      obtain ⟨-, next, rfl⟩ := after
      exact (gives_suffixes_of_dot dot).2 ⟨_, _, gives_memberName_iff.2 ⟨_, next, isName, rfl⟩, rest⟩
    | bracket object k =>
      rw [List.append_assoc] at passes
      obtain ⟨m, before, after⟩ := passes_append_iff.1 passes
      have bracket := (passes_cons_iff.1 after).1
      have reached := ih _ (by simp) object (by omega) before (by simp [bracket, EndsName]) rfl
      refine reached.step after fun rounds whole last rest => ?_
      simp only [List.cons_append, passes_cons_iff, passes_append_iff, passes_nil_iff] at after
      obtain ⟨-, m₁, within, closes, rfl⟩ := after
      have ends : EndsExpression m₁.next := closes ▸ endsExpression_of_symbol (by simp)
      have inner := expression k (by omega) within ends
      exact (gives_suffixes_of_bracket bracket).2 ⟨_, m₁, inner, closes, rest⟩
    | filter input =>
      obtain ⟨m, before, after⟩ := passes_append_iff.1 passes
      have pipe := (passes_cons_iff.1 after).1
      have reached := ih _ (by simp) input bound before (by simp [pipe, EndsName]) rfl
      refine reached.step after fun rounds whole last rest => ?_
      simp only [passes_cons_iff, passes_nil_iff] at after
      obtain ⟨-, next, rfl⟩ := after
      exact (gives_suffixes_of_pipe pipe).2 ⟨_, next, .inl ⟨ends, rest⟩⟩
    | filterWith input args =>
      rw [List.append_assoc] at passes
      obtain ⟨m, before, after⟩ := passes_append_iff.1 passes
      have pipe := (passes_cons_iff.1 after).1
      have reached := ih _ (by simp) input (by omega) before (by simp [pipe, EndsName]) rfl
      refine reached.step after fun rounds whole last rest => ?_
      simp only [List.cons_append, passes_cons_iff, passes_append_iff, passes_nil_iff] at after
      obtain ⟨-, next, opens, m₁, within, closes, rfl⟩ := after
      have given := accepts_list expression (by simp) (by simp) args (by omega) within closes
      exact (gives_suffixes_of_pipe pipe).2 ⟨_, next, .inr ⟨opens, _, _, given, rest⟩⟩

theorem accepts_suffixed (expression : Accepts room .expression EndsExpression x) :
    Accepts room .suffixed EndsOperand (suffixed x) := by
  intro c ts e n d derived bound passes ends
  obtain ⟨rounds, -, continues⟩ := reachesSuffix_of_derives expression derived bound passes ends.1
  exact continues e d ((gives_suffixes_of_none ends.2).2 ⟨rfl, rfl⟩)

/-- An operator's operand takes one of the levels. -/
theorem accepts_operand (expression : Accepts room .expression EndsExpression x)
    (deeper : ∀ n, room = n + 1 → Accepts n .unary EndsOperand y) :
    Accepts room .unary EndsOperand (operand y x) := by
  intro c ts e n d derived bound passes ends
  cases derived with
  | unary spells inner =>
    obtain ⟨next, rest⟩ := passes_cons_iff.1 passes
    obtain ⟨room, rfl⟩ := Nat.exists_eq_add_one_of_ne_zero (by omega : room ≠ 0)
    have given := deeper room rfl inner (by omega) rest ends
    exact (gives_operand_of_some next spells).2 ⟨_, given, rfl⟩
  | unsigned suffixed =>
    have none : c.next.bind UnaryOp.ofToken? = none := by
      obtain ⟨t, us, rfl, begins⟩ := suffixed.exists_begins (by simp)
      rw [(passes_cons_iff.1 passes).1, Option.bind_some, Option.eq_none_iff_forall_ne_some]
      intro op isOp
      exact not_spells_of_beginsOperand begins (UnaryOp.ofToken?_eq_some_iff.1 isOp)
    exact (gives_operand_of_none none).2 (accepts_suffixed expression suffixed bound passes ends)

theorem operator?_of_endsChain {p q : Nat} (ends : EndsChain p d.next) (le : p ≤ q) :
    operator? q d = none :=
  ends.2 q le

/-- From `c` the parser comes to `d` with `e` and goes on there. The rounds that it has left are
enough for the tokens behind `d`. -/
def ReachesChain (p : Nat) (tighter : List Nat) (x : Parse Expr) (c : Cursor) (e : Expr)
    (d : Cursor) : Prop :=
  ∃ rounds, d.rest.length ≤ rounds ∧ ∀ whole m,
    (chain p (chains x tighter) rounds e).Gives d whole m → (chains x (p :: tighter)).Gives c whole m

theorem reachesChain_of_derives {p k : Nat} (levels : p + k = 6)
    (operand : Accepts room (.chain (p + 1)) (EndsChain (p + 1)) (chains x (List.range' (p + 1) k)))
    {ts : List Token} {e : Expr} {n : Nat} (derived : Derives (.chain p) ts e n) (bound : n ≤ room)
    (passes : Passes c ts d) (ends : EndsChain (p + 1) d.next) :
    ReachesChain p (List.range' (p + 1) k) x c e d := by
  -- The left operand is a chain of the same kind, written with fewer tokens.
  induction size : ts.length using Nat.strongRecOn generalizing ts e n d with
  | ind size ih =>
    subst size
    cases derived with
    | operand => omega
    | tighter _ first =>
      have given := operand first bound passes ends
      exact ⟨_, Nat.le_refl _, fun _ _ rest => gives_chains_cons_iff.2 ⟨e, d, given, rest⟩⟩
    | @binary op t _ _ left right _ _ first spells second =>
      obtain ⟨m, before, after⟩ := passes_append_iff.1 passes
      obtain ⟨next, within⟩ := passes_cons_iff.1 after
      obtain ⟨rounds, enough, continues⟩ :=
        ih _ (by simp) first (by omega) before (next ▸ endsChain_of_spells spells) rfl
      have longer := after.length
      rw [List.length_cons] at longer
      obtain ⟨rounds, rfl⟩ := Nat.exists_eq_add_one_of_ne_zero (by omega : rounds ≠ 0)
      refine ⟨rounds, by omega, fun whole last rest => continues whole last ?_⟩
      have given := operand second (by omega) within ends
      have at_op : operator? op.precedence m = some op :=
        operator?_eq_some_iff.2 ⟨t, next, spells, rfl⟩
      exact (gives_chain_of_some at_op).2 ⟨right, d, given, rest⟩

theorem accepts_chains (operand : Accepts room .unary EndsOperand x) {p k : Nat}
    (levels : p + k = 7) : Accepts room (.chain p) (EndsChain p) (chains x (List.range' p k)) := by
  intro c ts e n d derived bound passes ends
  induction k generalizing p c ts e n d with
  | zero =>
    cases derived with
    | operand inner => exact operand inner bound passes ends.1
    | tighter => omega
    | @binary op =>
      have := op.precedence_lt
      omega
  | succ k ih =>
    have tighter : Accepts room (.chain (p + 1)) (EndsChain (p + 1)) (chains x (List.range' (p + 1) k)) :=
      fun _ _ _ _ _ derived bound passes ends => ih (by omega) derived bound passes ends
    obtain ⟨rounds, -, continues⟩ :=
      reachesChain_of_derives (by omega) tighter derived bound passes (ends.mono (by omega))
    rw [List.range'_succ]
    exact continues e d ((gives_chain_of_none (operator?_of_endsChain ends (Nat.le_refl p))).2 ⟨rfl, rfl⟩)

theorem accepts_climb (sound : Sound room .unary x) (operand : Accepts room .unary EndsOperand x) :
    Accepts room (.chain 1) (EndsChain 1) (climb x 7 1) := by
  rw [climb_eq_stratified sound.forward (by omega) (by omega)]
  exact accepts_chains operand (p := 1) (k := 6) rfl

theorem accepts_conditional (sound : Sound room .unary x)
    (operand : Accepts room .unary EndsOperand x)
    (expression : Accepts room .expression EndsExpression y) :
    Accepts (room + 1) .expression EndsExpression (conditional x y) := by
  intro c ts e n d derived bound passes ends
  have test := accepts_climb sound operand
  cases derived with
  | plain first =>
    have given := test first (by omega) passes (ends.1.mono (by omega))
    exact gives_conditional_iff.2 ⟨e, d, given, .inl ⟨ends.2, rfl, rfl⟩⟩
  | conditional first second third =>
    simp only [passes_append_iff, passes_cons_iff] at passes
    obtain ⟨m₁, ⟨m, before, question, within⟩, colon, after⟩ := passes
    have given := test first (by omega) before (question ▸ endsChain_question)
    have ends_colon : EndsExpression m₁.next := colon ▸ endsExpression_of_symbol (by simp)
    have whenTrue := expression second (by omega) within ends_colon
    have whenFalse := expression third (by omega) after ends
    exact gives_conditional_iff.2
      ⟨_, m, given, .inr ⟨question, _, m₁, whenTrue, colon, _, whenFalse, rfl⟩⟩

theorem Derives.nesting_pos {ts : List Token} {e : Expr} {n : Nat}
    (derived : Derives .expression ts e n) : 0 < n := by
  cases derived <;> omega

theorem accepts_nested (room : Nat) :
    Accepts room .expression EndsExpression (nested room .expression) ∧
      Accepts room .unary EndsOperand (nested room .operand) := by
  induction room with
  | zero =>
    have none : Accepts 0 .expression EndsExpression (tooDeep : Parse Expr) := by
      intro c ts e n d derived bound
      have := Derives.nesting_pos derived
      omega
    exact ⟨none, accepts_operand none fun n h => absurd h (by omega)⟩
  | succ room ih =>
    have expression := accepts_conditional (sound_nested room).2 ih.2 ih.1
    refine ⟨expression, accepts_operand expression fun n h => ?_⟩
    obtain rfl : room = n := by omega
    exact ih.2

theorem accepts_expression {ts : List Token} {e : Expr} {n : Nat}
    (derived : Derives .expression ts e n) (bound : n ≤ c.limit) (passes : Passes c ts d)
    (ends : EndsExpression d.next) : expression.Gives c e d :=
  (accepts_nested c.limit).1 derived bound passes ends

end Parse

open Stencil.Action Cursor Parse Grammar

theorem Expr.ofCursor_eq_ok_iff {c : Cursor} {e : Expr} :
    Expr.ofCursor c = .ok e ↔ ∃ d, expression.Gives c e d ∧ d.rest = [] := by
  rw [Expr.ofCursor, fst_eq_ok_iff]
  simp only [gives_bind_iff, gives_expectEnd_iff, gives_pure_iff]
  constructor
  · rintro ⟨_, _, d, given, _, _, ⟨rest, rfl⟩, rfl, rfl⟩
    exact ⟨d, given, rest⟩
  · rintro ⟨d, given, rest⟩
    exact ⟨d, e, d, given, (), d, ⟨rest, rfl⟩, rfl, rfl⟩

theorem Expr.ofCursor_of_derives {tokens : List Placed} {stop limit n : Nat} {e : Expr}
    (derived : Derives .expression (tokens.map Placed.token) e n) (bound : n ≤ limit) :
    Expr.ofCursor (.ofTokens tokens stop limit) = .ok e :=
  Expr.ofCursor_eq_ok_iff.2
    ⟨_, accepts_expression derived bound (passes_all _) endsExpression_none, rfl⟩

theorem Expr.derives_of_ofCursor {tokens : List Placed} {stop limit : Nat} {e : Expr}
    (h : Expr.ofCursor (.ofTokens tokens stop limit) = .ok e) :
    ∃ n ≤ limit, Derives .expression (tokens.map Placed.token) e n := by
  obtain ⟨d, given, rest⟩ := Expr.ofCursor_eq_ok_iff.1 h
  obtain ⟨ts, n, derived, bound, passes⟩ := sound_expression given
  have whole : tokens.map Placed.token = ts := by simpa [rest, ofTokens] using passes.tokens
  exact ⟨n, bound, whole ▸ derived⟩

theorem Grammar.Derives.tree_unique {ts : List Token} {e₁ e₂ : Expr} {m n : Nat}
    (first : Derives .expression ts e₁ m) (second : Derives .expression ts e₂ n) : e₁ = e₂ := by
  obtain ⟨tokens, rfl⟩ : ∃ tokens : List Placed, tokens.map Placed.token = ts :=
    ⟨ts.map (⟨·, 0⟩), by simp [Function.comp_def]⟩
  have one : Expr.ofCursor (.ofTokens tokens 0 (max m n)) = .ok e₁ :=
    Expr.ofCursor_of_derives first (by omega)
  have two : Expr.ofCursor (.ofTokens tokens 0 (max m n)) = .ok e₂ :=
    Expr.ofCursor_of_derives second (by omega)
  exact Except.ok.inj (one.symm.trans two)

/-- A list of tokens is read as an expression within the limit of nesting exactly if the grammar
derives it so, and the grammar derives no second tree from it. -/
theorem Expr.ofCursor_eq_ok_iff_derives (tokens : List Placed) :
    (∀ stop limit e, Expr.ofCursor (.ofTokens tokens stop limit) = .ok e ↔
      ∃ n ≤ limit, Derives .expression (tokens.map Placed.token) e n) ∧
    ∀ e₁ e₂ m n, Derives .expression (tokens.map Placed.token) e₁ m →
      Derives .expression (tokens.map Placed.token) e₂ n → e₁ = e₂ := by
  constructor
  · intro stop limit e
    constructor
    · exact Expr.derives_of_ofCursor
    · rintro ⟨n, bound, derived⟩
      exact Expr.ofCursor_of_derives derived bound
  · intro e₁ e₂ m n first second
    exact first.tree_unique second

end Stencil
