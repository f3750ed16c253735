import Stencil.Proofs.Expr.Grammar
import Stencil.Proofs.Expr.Lookahead

/-! The loop that climbs by precedence reads what a chain for each precedence reads, so operators may
be studied one precedence at a time. -/
namespace Stencil.Parse

open Stencil.Action Cursor

variable {α β : Type} {c d : Cursor} {t : Token} {e left : Expr} {operand x : Parse Expr}
  {right : Nat → Parse Expr} {levels p q rounds : Nat} {op : BinaryOp}

/-- The operator of this precedence that the token writes. -/
def operatorAt? (precedence : Nat) (token : Token) : Option BinaryOp :=
  (BinaryOp.ofToken? token).filter (·.precedence == precedence)

/-- Operators of one precedence and their right operands, joined to `left` one after the other. -/
def chain (precedence : Nat) (operand : Parse Expr) : Nat → Expr → Parse Expr
  | 0, left => pure left
  | rounds + 1, left => do
    match (← peek).bind (operatorAt? precedence) with
    | none => pure left
    | some op =>
      advance
      let right ← operand
      chain precedence operand rounds (.binary op left right)

def wholeChain (p : Nat) (x : Parse Expr) (left : Expr) : Parse Expr := do
  chain p x (← remaining) left

/-- Chains of the given precedences, loosest first, over the operands of the tightest one. -/
def chains (operand : Parse Expr) : List Nat → Parse Expr
  | [] => operand
  | precedence :: tighter => chains operand tighter >>= wholeChain precedence (chains operand tighter)

theorem operatorAt?_eq_some_iff : operatorAt? p t = some op ↔ t ∈ op.spellings ∧ op.precedence = p := by
  simp [operatorAt?, Option.filter_eq_some_iff, BinaryOp.ofToken?_eq_some_iff]

/-- The operator of precedence `p` that comes next. -/
def operator? (p : Nat) (c : Cursor) : Option BinaryOp := c.next.bind (operatorAt? p)

theorem operator?_eq_some_iff :
    operator? p c = some op ↔ ∃ t, c.next = some t ∧ t ∈ op.spellings ∧ op.precedence = p := by
  simp [operator?, Option.bind_eq_some_iff, operatorAt?_eq_some_iff]

theorem operator?_of_written (found : c.next.bind BinaryOp.ofToken? = some op) :
    operator? op.precedence c = some op := by
  obtain ⟨t, next, writes⟩ := Option.bind_eq_some_iff.1 found
  exact operator?_eq_some_iff.2 ⟨t, next, BinaryOp.ofToken?_eq_some_iff.1 writes, rfl⟩

theorem gives_chain_of_none (h : operator? p c = none) :
    (chain p x rounds left).Gives c e d ↔ left = e ∧ c = d := by
  unfold operator? at h
  cases rounds <;> simp [chain, h, and_assoc]

theorem gives_chain_of_some (h : operator? p c = some op) :
    (chain p x (rounds + 1) left).Gives c e d ↔
      ∃ right m, x.Gives c.tail right m ∧
        (chain p x rounds (.binary op left right)).Gives m e d := by
  unfold operator? at h
  simp [chain, h, and_assoc]

theorem gives_chains_cons_iff {tighter : List Nat} :
    (chains x (p :: tighter)).Gives c e d ↔
      ∃ left m, (chains x tighter).Gives c left m ∧
        (chain p (chains x tighter) m.rest.length left).Gives m e d := by
  simp [chains, wholeChain, and_assoc]

/-- The parser never goes back. -/
def Forward (x : Parse α) : Prop := ∀ ⦃c a d⦄, x.Gives c a d → d.rest.length ≤ c.rest.length

theorem length_tail_le (c : Cursor) : c.tail.rest.length ≤ c.rest.length := by simp [Cursor.tail]

theorem Forward.bind {x : Parse α} {f : α → Parse β} (first : Forward x)
    (next : ∀ a, Forward (f a)) : Forward (x >>= f) := by
  intro c b d given
  obtain ⟨a, m, before, after⟩ := gives_bind_iff.1 given
  exact Nat.le_trans (next a after) (first before)

theorem forward_pure (a : α) : Forward (pure a : Parse α) := by
  intro c b d given
  obtain ⟨-, rfl⟩ := gives_pure_iff.1 given
  exact Nat.le_refl _

theorem forward_peek : Forward peek := by
  intro c next d given
  obtain ⟨-, rfl⟩ := gives_peek_iff.1 given
  exact Nat.le_refl _

theorem forward_remaining : Forward remaining := by
  intro c n d given
  obtain ⟨-, rfl⟩ := gives_remaining_iff.1 given
  exact Nat.le_refl _

theorem forward_advance : Forward advance := by
  intro c u d given
  obtain rfl := gives_advance_iff.1 given
  exact length_tail_le c

theorem Forward.chain (forward : Forward x) (p rounds : Nat) (left : Expr) :
    Forward (chain p x rounds left) := by
  induction rounds generalizing left with
  | zero => exact forward_pure left
  | succ rounds ih =>
    refine forward_peek.bind fun next => ?_
    cases next.bind (operatorAt? p) with
    | none => exact forward_pure left
    | some op => exact forward_advance.bind fun _ => forward.bind fun _ => ih _

theorem Forward.chains (forward : Forward operand) (ps : List Nat) :
    Forward (chains operand ps) := by
  induction ps with
  | nil => exact forward
  | cons p tighter ih => exact ih.bind fun left => forward_remaining.bind fun n => ih.chain p n left

theorem next_eq_none (ended : c.rest = []) : c.next = none := by simp [Cursor.next, ended]

/-- Behind an operator and its right operand fewer tokens are left. -/
theorem Forward.shorter (forward : Forward x) (found : c.next = some t)
    (given : x.Gives c.tail e d) : d.rest.length < c.rest.length := by
  have := forward given
  have := length_tail found
  omega

theorem operand_congr {next next' : Expr → Parse Expr} (forward : Forward x) (found : c.next = some t)
    (same : ∀ e d, d.rest.length < c.rest.length → next e d = next' e d) (op : BinaryOp)
    (left : Expr) :
    (advance >>= fun _ => x >>= fun right => next (.binary op left right)) c =
      (advance >>= fun _ => x >>= fun right => next' (.binary op left right)) c := by
  refine bind_congr fun _ _ advanced => bind_congr fun right m given => same _ m ?_
  obtain rfl := gives_advance_iff.1 advanced
  exact forward.shorter found given

def chainStep (p : Nat) (x : Parse Expr) (next : Expr → Parse Expr) (left : Expr) :
    Parse Expr := do
  match (← peek).bind (operatorAt? p) with
  | none => pure left
  | some op =>
    advance
    let right ← x
    next (.binary op left right)

theorem wholeChain_eq (forward : Forward x) (p : Nat) (left : Expr) (c : Cursor) :
    wholeChain p x left c = chainStep p x (wholeChain p x) left c := by
  refine whole_eq (chain p x) (chainStep p x) ?_ (fun _ => rfl) ?_ left c
  · intro next left c ended
    rw [chainStep, peek_bind_apply, next_eq_none ended]
    rfl
  · intro next next' left c same
    rw [chainStep, chainStep, peek_bind_apply, peek_bind_apply]
    cases found : c.next with
    | none => rfl
    | some t =>
      dsimp only [Option.bind_some]
      cases operatorAt? p t with
      | none => rfl
      | some op => exact operand_congr forward found same op left

theorem wholeChain_of_none (h : operator? p c = none) :
    wholeChain p x left c = (.ok left, c) :=
  (gives_chain_of_none h).2 ⟨rfl, rfl⟩

theorem wholeChain_of_some (forward : Forward x) (h : operator? p c = some op) :
    wholeChain p x left c =
      (advance >>= fun _ => x >>= fun right => wholeChain p x (.binary op left right)) c := by
  have token : c.next.bind (operatorAt? p) = some op := h
  rw [wholeChain_eq forward, chainStep, peek_bind_apply, token]

def climbStep (least : Nat) (right : Nat → Parse Expr) (next : Expr → Parse Expr) (left : Expr) :
    Parse Expr := do
  match (← peek).bind BinaryOp.ofToken? with
  | none => pure left
  | some op =>
    if op.precedence < least then pure left
    else
      advance
      let tighter ← right (op.precedence + 1)
      next (.binary op left tighter)

def wholeClimb (least : Nat) (right : Nat → Parse Expr) (left : Expr) : Parse Expr := do
  climbFrom least right (← remaining) left

theorem wholeClimb_eq (forward : ∀ q, Forward (right q)) (p : Nat) (left : Expr) (c : Cursor) :
    wholeClimb p right left c = climbStep p right (wholeClimb p right) left c := by
  refine whole_eq (climbFrom p right) (climbStep p right) ?_ (fun _ => rfl) ?_ left c
  · intro next left c ended
    rw [climbStep, peek_bind_apply, next_eq_none ended]
    rfl
  · intro next next' left c same
    rw [climbStep, climbStep, peek_bind_apply, peek_bind_apply]
    cases found : c.next with
    | none => rfl
    | some t =>
      dsimp only [Option.bind_some]
      cases BinaryOp.ofToken? t with
      | none => rfl
      | some op =>
        dsimp only
        split
        · rfl
        · exact operand_congr (forward _) found same op left

/-- No operator of precedence `p` or a higher one comes next. -/
def Settled (p : Nat) (c : Cursor) : Prop :=
  ∀ op, c.next.bind BinaryOp.ofToken? = some op → op.precedence < p

theorem Settled.mono (settled : Settled p c) (le : p ≤ q) : Settled q c :=
  fun op found => Nat.lt_of_lt_of_le (settled op found) le

theorem Settled.operator?_eq_none (settled : Settled p c) : operator? p c = none := by
  refine Option.eq_none_iff_forall_ne_some.2 fun op found => ?_
  obtain ⟨t, next, spells, rfl⟩ := operator?_eq_some_iff.1 found
  have := settled op (by simp [next, BinaryOp.ofToken?_eq_some_iff.2 spells])
  omega

theorem settled_of_operator? (none : operator? p c = none) (above : Settled (p + 1) c) :
    Settled p c := by
  intro op found
  have := above op found
  have other : op.precedence ≠ p := by
    rintro rfl
    rw [operator?_of_written found] at none
    cases none
  omega

theorem wholeClimb_of_settled (forward : ∀ q, Forward (right q)) (settled : Settled p c) :
    wholeClimb p right left c = (.ok left, c) := by
  rw [wholeClimb_eq forward, climbStep, peek_bind_apply]
  cases found : c.next.bind BinaryOp.ofToken? with
  | none => rfl
  | some op =>
    dsimp only
    rw [if_pos (settled op found)]
    rfl

theorem wholeClimb_of_some (forward : ∀ q, Forward (right q))
    (found : c.next.bind BinaryOp.ofToken? = some op) (le : p ≤ op.precedence) :
    wholeClimb p right left c = (advance >>= fun _ => right (op.precedence + 1) >>= fun tighter =>
      wholeClimb p right (.binary op left tighter)) c := by
  rw [wholeClimb_eq forward, climbStep, peek_bind_apply, found]
  dsimp only
  rw [if_neg (Nat.not_lt.2 le)]

/-- Behind a chain no operator of its precedence is left, if its operands leave none of a higher
one. -/
theorem Settled.chain (forward : Forward x)
    (operands : ∀ ⦃c e d⦄, x.Gives c e d → Settled (p + 1) d) (start : Settled (p + 1) c)
    (enough : c.rest.length ≤ rounds) (given : (chain p x rounds left).Gives c e d) :
    Settled p d := by
  induction rounds generalizing left c with
  | zero =>
    obtain ⟨-, rfl⟩ := gives_pure_iff.1 given
    have ended : c.rest = [] := List.length_eq_zero_iff.1 (Nat.le_zero.1 enough)
    intro op found
    simp [next_eq_none ended] at found
  | succ rounds ih =>
    cases found : operator? p c with
    | none =>
      obtain ⟨-, rfl⟩ := (gives_chain_of_none found).1 given
      exact settled_of_operator? found start
    | some op =>
      obtain ⟨right, m, operand, rest⟩ := (gives_chain_of_some found).1 given
      obtain ⟨t, next, -⟩ := operator?_eq_some_iff.1 found
      have := forward.shorter next operand
      exact ih (operands operand) (by omega) rest

theorem settled_of_chains (forward : Forward operand) {k : Nat} (levels : p + k = 7)
    (given : (chains operand (List.range' p k)).Gives c e d) : Settled p d := by
  induction k generalizing p c e d with
  | zero =>
    obtain rfl : p = 7 := levels
    exact fun op _ => op.precedence_lt
  | succ k ih =>
    rw [List.range'_succ] at given
    obtain ⟨left, m, first, rest⟩ := gives_chains_cons_iff.1 given
    have operands ⦃c e d⦄ : (chains operand (List.range' (p + 1) k)).Gives c e d →
        Settled (p + 1) d := ih (by omega)
    exact Settled.chain (forward.chains _) operands (operands first) (Nat.le_refl _) rest

/-- The loop for precedence `p` is the loop for the next one with a chain of precedence `p` behind it:
where an operand of that chain ends, the next operator is not above `p`. -/
theorem wholeClimb_eq_bind (forward : ∀ q, Forward (right q))
    (operands : ∀ ⦃c e d⦄, (right (p + 1)).Gives c e d → Settled (p + 1) d) (left : Expr)
    (c : Cursor) :
    wholeClimb p right left c =
      (wholeClimb (p + 1) right left >>= wholeChain p (right (p + 1))) c := by
  induction size : c.rest.length using Nat.strongRecOn generalizing left c with
  | ind size ih =>
    subst size
    have stopped {left : Expr} {c : Cursor} (settled : Settled (p + 1) c) :
        (wholeClimb (p + 1) right left >>= wholeChain p (right (p + 1))) c =
          wholeChain p (right (p + 1)) left c := by
      rw [bind_apply, wholeClimb_of_settled forward settled]
    by_cases settled : Settled p c
    · rw [wholeClimb_of_settled forward settled, stopped (settled.mono (Nat.le_succ p)),
        wholeChain_of_none settled.operator?_eq_none]
    obtain ⟨op, found, le⟩ : ∃ op, c.next.bind BinaryOp.ofToken? = some op ∧ p ≤ op.precedence := by
      simpa [Settled] using settled
    obtain ⟨t, next, -⟩ := Option.bind_eq_some_iff.1 found
    rw [wholeClimb_of_some forward found le]
    rcases Nat.eq_or_lt_of_le le with rfl | above
    · -- The tighter loop stops here, and again behind the operand of the chain.
      have only : Settled (op.precedence + 1) c := by
        intro other writes
        obtain rfl := Option.some.inj (found.symm.trans writes)
        exact Nat.lt_succ_self _
      rw [stopped only, wholeChain_of_some (forward _) (operator?_of_written found)]
      refine bind_congr fun _ _ advanced => bind_congr fun tighter m given => ?_
      obtain rfl := gives_advance_iff.1 advanced
      rw [ih _ ((forward _).shorter next given) _ m rfl, stopped (operands given)]
    · -- Both loops read the operator.
      rw [bind_of_eq (wholeClimb_of_some forward found above), bind_assoc]
      refine bind_congr fun _ _ advanced => ?_
      rw [bind_assoc]
      refine bind_congr fun tighter m given => ?_
      obtain rfl := gives_advance_iff.1 advanced
      exact ih _ ((forward _).shorter next given) _ m rfl

/-- Operators of precedence `p` and of the higher ones, read chain by chain. -/
def stratified (operand : Parse Expr) (p : Nat) : Parse Expr :=
  chains operand (List.range' p (7 - p))

theorem stratified_of_lt (less : p < 7) :
    stratified operand p =
      stratified operand (p + 1) >>= wholeChain p (stratified operand (p + 1)) := by
  rw [stratified, show 7 - p = 7 - (p + 1) + 1 by omega, List.range'_succ]
  rfl

theorem bind_wholeClimb (forward : Forward operand) (bound : p ≤ 7) :
    operand >>= wholeClimb p (stratified operand) = stratified operand p := by
  have each (q : Nat) : Forward (stratified operand q) := forward.chains _
  obtain ⟨k, levels⟩ := Nat.exists_eq_add_of_le bound
  induction k generalizing p with
  | zero =>
    obtain rfl : p = 7 := levels.symm
    funext c
    have stops : (operand >>= wholeClimb 7 (stratified operand)) c = (operand >>= pure) c :=
      bind_congr fun left d _ => wholeClimb_of_settled each fun op _ => op.precedence_lt
    rw [stops, bind_pure]
    rfl
  | succ k ih =>
    have split : wholeClimb p (stratified operand) = fun left =>
        wholeClimb (p + 1) (stratified operand) left >>= wholeChain p (stratified operand (p + 1)) := by
      funext left c
      refine wholeClimb_eq_bind each (fun c e d given => ?_) left c
      exact settled_of_chains forward (by omega) given
    rw [split, ← bind_assoc, ih (by omega) (by omega), ← stratified_of_lt (by omega)]

theorem climbFrom_congr {right' : Nat → Parse Expr}
    (same : ∀ q, p < q → q ≤ 7 → right q = right' q) (rounds : Nat) (left : Expr) :
    climbFrom p right rounds left = climbFrom p right' rounds left := by
  induction rounds generalizing left with
  | zero => rfl
  | succ rounds ih =>
    simp only [climbFrom, ih]
    funext c
    refine bind_congr fun next _ _ => ?_
    cases next.bind BinaryOp.ofToken? with
    | none => rfl
    | some op =>
      dsimp only
      split
      · rfl
      · rw [same _ (by omega) op.precedence_lt]

/-- Climbing by precedence reads what the chains read. The levels are enough, since every level that a
right operand goes up leaves one precedence fewer. -/
theorem climb_eq_stratified (forward : Forward operand) (bound : p ≤ 7) (enough : 7 ≤ levels + p) :
    climb operand levels p = stratified operand p := by
  induction levels generalizing p with
  | zero =>
    obtain rfl : p = 7 := by omega
    rfl
  | succ levels ih =>
    have same (q : Nat) (above : p < q) (bound : q ≤ 7) :
        climb operand levels q = stratified operand q := ih bound (by omega)
    have loop : climb operand (levels + 1) p = operand >>= wholeClimb p (stratified operand) := by
      simp only [climb, climbFrom_congr same]
      rfl
    rw [loop, bind_wholeClimb forward bound]

end Stencil.Parse
