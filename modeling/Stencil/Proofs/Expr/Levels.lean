import Mathlib.Logic.Function.Iterate
import Stencil.Proofs.Expr.Loops

/-! The levels of nesting as a counter that all parsers share. A nested expression takes a level and
gives it back, also where it fails, so that one reader may be called again and again: nothing of a call
is left behind but the passed tokens. -/
namespace Stencil

namespace Cursor

/-- The cursor `d` is at `c` or behind it. -/
def Reaches (c d : Cursor) : Prop := ∃ ts, Passes c ts d

def withLimit (c : Cursor) (limit : Nat) : Cursor := { c with limit := limit }

variable {c d e : Cursor}

theorem Reaches.refl (c : Cursor) : c.Reaches c := ⟨[], .nil⟩

theorem Reaches.trans (first : c.Reaches d) (second : d.Reaches e) : c.Reaches e := by
  obtain ⟨ts, first⟩ := first
  obtain ⟨us, second⟩ := second
  exact ⟨ts ++ us, first.append second⟩

theorem reaches_tail (c : Cursor) : c.Reaches c.tail := by
  obtain ⟨_ | ⟨placed, rest⟩, stop, limit⟩ := c
  · exact .refl _
  · exact ⟨[placed.token], .cons rfl .nil⟩

theorem Reaches.limit (reached : c.Reaches d) : d.limit = c.limit := by
  obtain ⟨ts, passes⟩ := reached
  exact passes.limit

theorem Reaches.withLimit (reached : c.Reaches d) : d.withLimit c.limit = d := by
  rw [← reached.limit]
  rfl

theorem Reaches.length_le (reached : c.Reaches d) : d.rest.length ≤ c.rest.length := by
  obtain ⟨ts, passes⟩ := reached
  have := passes.length
  omega

theorem Reaches.eq_drop (reached : c.Reaches d) :
    ∃ n ≤ c.rest.length, d = ofTokens (c.rest.drop n) c.stop c.limit := by
  obtain ⟨ts, passes⟩ := reached
  refine ⟨ts.length, by have := passes.length; omega, ?_⟩
  rw [← passes.rest, ← passes.stop, ← passes.limit]
  rfl

end Cursor

namespace Parse

open Stencil.Action Cursor

variable {α β : Type}

/-- Runs `x` one level deeper. The cursor's `limit` counts the levels that are left; the one that `x`
takes is given back whether it succeeds or fails. -/
def inLevel (limit : Nat) (x : Parse α) : Parse α := fun c =>
  match c.limit with
  | 0 => (.error (c.error (.tooDeep limit)), c)
  | left + 1 =>
    match x (c.withLimit left) with
    | (outcome, d) => (outcome, d.withLimit (d.limit + 1))

/-- The parser of expressions and that of operands, one level above `operand` and `expression`. -/
def level (limit : Nat) (operand expression : Parse Expr) : Goal → Parse Expr
  | .expression => inLevel limit (conditional operand expression)
  | .operand =>
    Parse.operand (inLevel limit operand) (inLevel limit (conditional operand expression))

def unrolled (limit : Nat) : Nat → Goal → Parse Expr
  | 0 => level limit tooDeep tooDeep
  | times + 1 => level limit (unrolled limit times .operand) (unrolled limit times .expression)

/-- Reads an expression, or an operand, and counts the levels while it does. Every unrolling takes a
level, so as many as are left are enough. -/
def counting (limit : Nat) (goal : Goal) : Parse Expr := fun c => unrolled limit c.limit goal c

/-- From any cursor at `start` or behind it, `y` does with a counter at `left` what `x` does without
one, and its counter ends at `left`. -/
def InStep (start : Cursor) (left : Nat) (x y : Parse α) : Prop :=
  ∀ ⦃c⦄, start.Reaches c →
    y (c.withLimit left) = ((x c).1, (x c).2.withLimit left) ∧ start.Reaches (x c).2

variable {start : Cursor} {left : Nat} {a b : Parse α} {x y x' y' : Parse Expr}

theorem InStep.bind {f g : α → Parse β} (first : InStep start left a b)
    (next : ∀ v, InStep start left (f v) (g v)) : InStep start left (a >>= f) (b >>= g) := by
  intro c reached
  obtain ⟨same, reached⟩ := first reached
  rw [bind_apply, bind_apply, same]
  rcases run : a c with ⟨_ | v, m⟩ <;> rw [run] at reached
  · exact ⟨rfl, reached⟩
  · exact next v reached

theorem inStep_pure (v : α) : InStep start left (pure v : Parse α) (pure v) :=
  fun _ reached => ⟨rfl, reached⟩

theorem inStep_throw (e : Error) : InStep start left (throw e : Parse α) (throw e) :=
  fun _ reached => ⟨rfl, reached⟩

theorem inStep_fail (fault : ParseFault) : InStep start left (fail fault : Parse α) (fail fault) :=
  fun _ reached => ⟨rfl, reached⟩

theorem inStep_peek : InStep start left peek peek := fun _ reached => ⟨rfl, reached⟩

theorem inStep_remaining : InStep start left remaining remaining := fun _ reached => ⟨rfl, reached⟩

theorem inStep_advance : InStep start left advance advance :=
  fun c reached => ⟨rfl, reached.trans c.reaches_tail⟩

theorem inStep_isNext (t : Token) : InStep start left (isNext t) (isNext t) :=
  inStep_peek.bind fun _ => inStep_pure _

theorem inStep_accept (t : Token) : InStep start left (accept t) (accept t) := by
  refine (inStep_isNext t).bind fun next => ?_
  cases next with
  | true => exact inStep_advance.bind fun _ => inStep_pure true
  | false => exact inStep_pure false

theorem inStep_expect (t : Token) : InStep start left (expect t) (expect t) := by
  refine (inStep_accept t).bind fun taken => ?_
  cases taken with
  | true => exact inStep_pure ()
  | false => exact inStep_fail _

theorem inStep_expectName (role : NameRole) :
    InStep start left (expectName role) (expectName role) := by
  refine inStep_peek.bind fun next => ?_
  split
  · exact inStep_advance.bind fun _ => inStep_pure _
  · exact inStep_fail _

theorem inStep_memberName : InStep start left memberName memberName := by
  refine inStep_peek.bind fun next => ?_
  split
  · exact inStep_advance.bind fun _ => inStep_pure _
  · exact inStep_advance.bind fun _ => inStep_pure _
  · exact inStep_fail _

theorem InStep.climbFrom {right right' : Nat → Parse Expr}
    (tighter : ∀ p, InStep start left (right p) (right' p)) (least rounds : Nat) (e : Expr) :
    InStep start left (climbFrom least right rounds e) (climbFrom least right' rounds e) := by
  induction rounds generalizing e with
  | zero => exact inStep_pure e
  | succ rounds ih =>
    refine inStep_peek.bind fun next => ?_
    cases next.bind BinaryOp.ofToken? with
    | none => exact inStep_pure e
    | some op =>
      dsimp only
      split
      · exact inStep_pure e
      · exact inStep_advance.bind fun _ => (tighter _).bind fun _ => ih _

theorem InStep.climb (operand : InStep start left x y) (levels least : Nat) :
    InStep start left (climb x levels least) (climb y levels least) := by
  induction levels generalizing least with
  | zero => exact operand
  | succ levels ih =>
    exact operand.bind fun e => inStep_remaining.bind fun rounds =>
      InStep.climbFrom ih least rounds e

theorem InStep.conditional (operand : InStep start left x y)
    (expression : InStep start left x' y') :
    InStep start left (conditional x x') (conditional y y') := by
  refine (operand.climb 7 1).bind fun test => ?_
  refine (inStep_accept (.symbol .question)).bind fun asked => ?_
  cases asked with
  | true =>
    exact expression.bind fun _ => (inStep_expect _).bind fun _ => expression.bind fun _ =>
      inStep_pure _
  | false => exact inStep_pure test

theorem InStep.items (item : InStep start left a b) (close : Symbol) (rounds : Nat) :
    InStep start left (items close a rounds) (items close b rounds) := by
  induction rounds with
  | zero => exact inStep_fail _
  | succ rounds ih =>
    refine (inStep_accept (.symbol close)).bind fun closed => ?_
    cases closed with
    | true => exact inStep_pure []
    | false =>
      refine item.bind fun first => (inStep_accept (.symbol .comma)).bind fun comma => ?_
      cases comma with
      | true => exact ih.bind fun _ => inStep_pure _
      | false =>
        refine (inStep_isNext (.symbol close)).bind fun closes => ?_
        cases closes with
        | true => exact ih.bind fun _ => inStep_pure _
        | false => exact (inStep_fail _).bind fun _ => ih.bind fun _ => inStep_pure _

theorem InStep.list (item : InStep start left a b) (close : Symbol) :
    InStep start left (list close a) (list close b) :=
  inStep_remaining.bind fun rounds => item.items close (rounds + 1)

theorem InStep.closed (expression : InStep start left x y) (close : Symbol) {f : Expr → α} :
    InStep start left (do let inner ← x; expect (.symbol close); return f inner)
      (do let inner ← y; expect (.symbol close); return f inner) :=
  expression.bind fun _ => (inStep_expect _).bind fun _ => inStep_pure _

theorem InStep.key (expression : InStep start left x y) :
    InStep start left (key x) (key y) := by
  refine inStep_peek.bind fun next => ?_
  split
  · exact inStep_advance.bind fun _ => inStep_pure _
  · exact inStep_advance.bind fun _ => inStep_pure _
  · exact inStep_advance.bind fun _ => inStep_pure _
  · exact inStep_advance.bind fun _ => expression.closed .closeParen
  · exact inStep_fail _

theorem InStep.entry (expression : InStep start left x y) :
    InStep start left (entry x) (entry y) :=
  expression.key.bind fun _ => (inStep_expect _).bind fun _ => expression.bind fun _ =>
    inStep_pure _

theorem InStep.primary (expression : InStep start left x y) :
    InStep start left (primary x) (primary y) := by
  rintro ⟨_ | ⟨first, rest⟩, stop, limit⟩ reached
  · exact inStep_fail _ reached
  · refine (inStep_advance.bind fun _ => ?_ : InStep start left _ _) reached
    split
    · exact inStep_pure _
    · exact inStep_pure _
    · exact inStep_pure _
    · exact inStep_pure _
    · exact inStep_pure _
    · refine (inStep_accept (.symbol .openParen)).bind fun opens => ?_
      cases opens with
      | true => exact (expression.list .closeParen).bind fun _ => inStep_pure _
      | false => exact inStep_pure _
    · exact expression.closed .closeParen
    · exact (expression.list .closeBracket).bind fun _ => inStep_pure _
    · exact (expression.entry.list .closeBrace).bind fun _ => inStep_pure _
    · exact inStep_throw _

theorem InStep.suffixes (expression : InStep start left x y) (rounds : Nat) (base : Expr) :
    InStep start left (suffixes x rounds base) (suffixes y rounds base) := by
  induction rounds generalizing base with
  | zero => exact inStep_pure base
  | succ rounds ih =>
    refine (inStep_accept (.symbol .dot)).bind fun dot => ?_
    cases dot with
    | true => exact inStep_memberName.bind fun _ => ih _
    | false =>
    refine (inStep_accept (.symbol .openBracket)).bind fun bracket => ?_
    cases bracket with
    | true => exact expression.bind fun _ => (inStep_expect _).bind fun _ => ih _
    | false =>
    refine (inStep_accept (.symbol .pipe)).bind fun pipe => ?_
    cases pipe with
    | true =>
      refine (inStep_expectName .filter).bind fun name => ?_
      refine (inStep_accept (.symbol .openParen)).bind fun opens => ?_
      cases opens with
      | true => exact (expression.list .closeParen).bind fun _ => ih _
      | false => exact ih _
    | false => exact inStep_pure base

theorem InStep.suffixed (expression : InStep start left x y) :
    InStep start left (suffixed x) (suffixed y) := by
  refine expression.primary.bind fun base => inStep_peek.bind fun next => ?_
  split
  · exact inStep_remaining.bind fun rounds => expression.suffixes rounds base
  · exact inStep_pure base

theorem InStep.operand (deeper : InStep start left x y) (expression : InStep start left x' y') :
    InStep start left (operand x x') (operand y y') := by
  refine inStep_peek.bind fun next => ?_
  cases next.bind UnaryOp.ofToken? with
  | some op => exact inStep_advance.bind fun _ => deeper.bind fun _ => inStep_pure _
  | none => exact expression.suffixed

theorem inStep_tooDeep (start : Cursor) (b : Parse α) :
    InStep start 0 tooDeep (inLevel start.limit b) := by
  intro c reached
  refine ⟨?_, reached⟩
  rw [← reached.limit]
  rfl

theorem InStep.inLevel (body : InStep start left a b) (limit : Nat) :
    InStep start (left + 1) a (inLevel limit b) := by
  intro c reached
  obtain ⟨same, reached⟩ := body reached
  refine ⟨?_, reached⟩
  change (match b (c.withLimit left) with | (outcome, d) => (outcome, d.withLimit (d.limit + 1))) = _
  rw [same]
  rfl

theorem inStep_level {k : Goal → Parse Expr}
    (deeper : ∀ room, room + 1 = left → ∀ goal, InStep start room (nested room goal) (k goal))
    (goal : Goal) :
    InStep start left (nested left goal) (level start.limit (k .operand) (k .expression) goal) := by
  cases left with
  | zero =>
    have expression := inStep_tooDeep start (conditional (k .operand) (k .expression))
    cases goal with
    | expression => exact expression
    | operand => exact (inStep_tooDeep start (k .operand)).operand expression
  | succ room =>
    have operand := deeper room rfl .operand
    have expression := (operand.conditional (deeper room rfl .expression)).inLevel start.limit
    cases goal with
    | expression => exact expression
    | operand => exact (operand.inLevel start.limit).operand expression

theorem inStep_unrolled {times : Nat} (le : left ≤ times) (goal : Goal) :
    InStep start left (nested left goal) (unrolled start.limit times goal) := by
  induction times generalizing left goal with
  | zero =>
    exact inStep_level (k := fun _ => tooDeep) (fun room more => absurd more (by omega)) goal
  | succ times ih => exact inStep_level (fun room more goal => ih (by omega) goal) goal

theorem inStep_counting (start : Cursor) (left : Nat) (goal : Goal) :
    InStep start left (nested left goal) (counting start.limit goal) :=
  fun _ reached => inStep_unrolled (Nat.le_refl left) goal reached

/-- The unrolling sets no bound of its own: `counting` solves the equations of parsers that call each
other. -/
theorem counting_eq (limit : Nat) (goal : Goal) :
    counting limit goal =
      level limit (counting limit .operand) (counting limit .expression) goal := by
  funext c
  have here := Reaches.refl (c.withLimit limit)
  obtain ⟨once, -⟩ := inStep_counting (c.withLimit limit) c.limit goal here
  obtain ⟨again, -⟩ :=
    inStep_level (fun room _ => inStep_counting (c.withLimit limit) room) goal here
  exact once.trans again.symm

variable {c : Cursor}

theorem counting_eq_expression (reached : start.Reaches c) :
    counting start.limit .expression c = expression c := by
  obtain ⟨same, after⟩ := inStep_counting start start.limit .expression reached
  rw [reached.withLimit, after.withLimit] at same
  rw [expression, reached.limit]
  exact same

theorem reaches_expression (c : Cursor) : c.Reaches (expression c).2 :=
  (inStep_counting c c.limit .expression (.refl c)).2

theorem shrinks_expression : Shrinks expression := fun c _ _ given =>
  (sound_nested c.limit).1.shrinks nofun given

/-- The cursor after this many calls, each from where the one before it stopped. -/
def afterCalls (limit : Nat) (c : Cursor) (calls : Nat) : Cursor :=
  (fun d => (counting limit .expression d).2)^[calls] c

theorem reaches_afterCalls (start : Cursor) (calls : Nat) :
    start.Reaches (afterCalls start.limit start calls) := by
  induction calls with
  | zero => exact .refl start
  | succ calls ih =>
    rw [afterCalls, Function.iterate_succ_apply', ← afterCalls, counting_eq_expression ih]
    exact ih.trans (reaches_expression _)

/-- After any number of calls, whether they succeeded or failed, the next call gives back all levels
that it took, does not move back, moves on if it succeeds, and does what a reader of its own does from
the tokens that are left. -/
theorem calls_leave_no_residue (tokens : List Placed) (stop limit calls : Nat) :
    let c := afterCalls limit (ofTokens tokens stop limit) calls
    let d := (counting limit .expression c).2
    d.limit = c.limit ∧ ∃ i j, i ≤ j ∧ j ≤ tokens.length ∧
      c = ofTokens (tokens.drop i) stop limit ∧ d = ofTokens (tokens.drop j) stop limit ∧
      ((∃ e, (counting limit .expression c).1 = .ok e) → i < j) ∧
      (counting limit .expression c).1 = (expression (ofTokens (tokens.drop i) stop limit)).1 := by
  intro c d
  have reached : (ofTokens tokens stop limit).Reaches c := reaches_afterCalls _ calls
  have call : counting limit .expression c = expression c := counting_eq_expression reached
  have moved : c.Reaches d := by
    change c.Reaches (counting limit .expression c).2
    exact call ▸ reaches_expression c
  obtain ⟨i, i_le, here⟩ := reached.eq_drop
  obtain ⟨j, j_le, there⟩ := (reached.trans moved).eq_drop
  change i ≤ tokens.length at i_le
  change j ≤ tokens.length at j_le
  have left : c.rest.length = tokens.length - i := by rw [here]; exact List.length_drop
  have left' : d.rest.length = tokens.length - j := by rw [there]; exact List.length_drop
  refine ⟨moved.limit, i, j, ?_, j_le, here, there, ?_, ?_⟩
  · have := moved.length_le
    omega
  · rintro ⟨e, read⟩
    have given : expression.Gives c e d := Prod.ext (call ▸ read) (congrArg Prod.snd call).symm
    have := shrinks_expression given
    omega
  · rw [call]
    exact congrArg (fun c => (expression c).1) here

/-- In `(a b) c` the first call fails inside the parentheses, and the second one reads `b`. -/
theorem calls_leave_no_residue_of_failure :
    let c := ofTokens [⟨.symbol .openParen, 0⟩, ⟨.name "a", 1⟩, ⟨.name "b", 3⟩,
      ⟨.symbol .closeParen, 4⟩, ⟨.name "c", 6⟩] 7 2
    (counting 2 .expression c).1 =
        .error (.parse (.expectedToken (.symbol .closeParen)) (some (.name "b")) 3) ∧
      (counting 2 .expression (afterCalls 2 c 1)).2.limit = (afterCalls 2 c 1).limit ∧
      (counting 2 .expression (afterCalls 2 c 1)).1 = .ok (.variable "b") := by
  intro c
  exact ⟨rfl, (calls_leave_no_residue c.rest 7 2 1).1, rfl⟩

end Parse
end Stencil
