import Stencil.Node.Tag
import Stencil.Proofs.Expr.Completeness
import Stencil.Proofs.Token.Spelling

/-! Reading the inside of a tag that is spelled as its grammar has it. -/
namespace Stencil

open Stencil.Action Cursor Parse Grammar

variable {source : String} {offset limit start n : Nat} {c d : Cursor} {ts : List Token} {e : Expr}
  {x k : String} {tag : LogicTag}

theorem Cursor.ofSource_of_spells (spells : Spells false source.toList ts) (offset limit : Nat) :
    ∃ tokens, Cursor.ofSource source offset limit =
        .ok (.ofTokens tokens (offset + source.utf8ByteSize) limit) ∧
      tokens.map Placed.token = ts := by
  obtain ⟨tokens, read, spelled⟩ := tokenize_of_spells spells offset
  refine ⟨tokens, ?_, spelled⟩
  rw [Cursor.ofSource, read]
  rfl

theorem Expr.ofSource_of_spells (spells : Spells false source.toList ts)
    (derived : Derives .expression ts e n) (bound : n ≤ limit) :
    Expr.ofSource source offset limit = .ok e := by
  obtain ⟨tokens, read, rfl⟩ := Cursor.ofSource_of_spells spells offset limit
  rw [Expr.ofSource, read]
  exact Expr.ofCursor_of_derives derived bound

theorem Expr.spells_of_ofSource (h : Expr.ofSource source offset limit = .ok e) :
    ∃ ts, Spells false source.toList ts ∧ ∃ n ≤ limit, Derives .expression ts e n := by
  obtain ⟨c, read, parsed⟩ := bind_eq_ok_iff.1 h
  obtain ⟨tokens, tokenized, rfl⟩ := map_eq_ok_iff.1 read
  exact ⟨_, spells_of_tokenize tokenized, Expr.derives_of_ofCursor parsed⟩

namespace LogicTag

theorem gives_endOfTag (ends : c.rest = []) : (endOfTag tag).Gives c tag c := by
  simp [endOfTag, ends]

/-- An expression is the last thing in its tag. -/
theorem gives_lastExpression (f : Expr → LogicTag) (derived : Derives .expression ts e n)
    (bound : n ≤ c.limit) (passes : Passes c ts d) (ends : d.rest = []) :
    (expression >>= fun e => endOfTag (f e)).Gives c (f e) d := by
  have none : d.next = none := by simp [Cursor.next, ends]
  have given := accepts_expression derived bound passes (none ▸ endsExpression_none)
  exact gives_bind_iff.2 ⟨e, d, given, gives_endOfTag ends⟩

theorem gives_read (word : c.next = some (.name x)) (rest : (body start x).Gives c.tail tag d) :
    (read start).Gives c tag d :=
  gives_bind_iff.2 ⟨x, c.tail, gives_expectName_iff.2 ⟨word, rfl⟩, rest⟩

/-- What is said of every cursor over the tokens is said of the source that spells them. -/
theorem ofSource_of_gives (spells : Spells false source.toList ts)
    (gives : ∀ c d, Passes c ts d → d.rest = [] → c.limit = limit →
      (read offset).Gives c tag d) : LogicTag.ofSource source offset limit = .ok tag := by
  obtain ⟨tokens, cursor, rfl⟩ := Cursor.ofSource_of_spells spells offset limit
  rw [LogicTag.ofSource, cursor]
  exact fst_eq_ok_iff.2 ⟨_, gives _ _ (passes_all _) rfl rfl⟩

/-- A tag whose word stands in front of an expression and nothing else. -/
theorem ofSource_condition {f : Expr → LogicTag}
    (reads : ∀ start, body start x = expression >>= fun e => endOfTag (f e))
    (spells : Spells false source.toList (.name x :: ts))
    (derived : Derives .expression ts e n) (bound : n ≤ limit) :
    LogicTag.ofSource source offset limit = .ok (f e) := by
  apply ofSource_of_gives spells
  rintro c d passes ends rfl
  obtain ⟨word, passes⟩ := passes_cons_iff.1 passes
  have last : (expression >>= fun e => endOfTag (f e)).Gives c.tail (f e) d :=
    gives_lastExpression f derived bound passes ends
  exact gives_read word (reads offset ▸ last)

theorem ofSource_set
    (spells : Spells false source.toList (.name "set" :: .name x :: .symbol .assign :: ts))
    (derived : Derives .expression ts e n) (bound : n ≤ limit) :
    LogicTag.ofSource source offset limit = .ok (.set x e) := by
  apply ofSource_of_gives spells
  rintro c d passes ends rfl
  simp only [passes_cons_iff] at passes
  obtain ⟨word, name, assign, passes⟩ := passes
  have more : c.tail.tail.rest ≠ [] := by
    obtain ⟨placed, rest, whole, -⟩ := exists_of_next assign
    simp [whole]
  refine gives_read word ?_
  refine gives_bind_iff.2 ⟨x, c.tail.tail, gives_expectName_iff.2 ⟨name, rfl⟩, ?_⟩
  refine gives_bind_iff.2 ⟨false, c.tail.tail, gives_isAtEnd_iff.2 ⟨by simp [more], rfl⟩, ?_⟩
  refine gives_bind_iff.2 ⟨(), c.tail.tail.tail, gives_expect_iff.2 ⟨assign, rfl⟩, ?_⟩
  exact gives_lastExpression (.set x) derived bound passes ends

theorem ofSource_openCapture (spells : Spells false source.toList [.name "set", .name x]) :
    LogicTag.ofSource source offset limit = .ok (.openCapture x) := by
  apply ofSource_of_gives spells
  rintro c d passes ends rfl
  simp only [passes_cons_iff, passes_nil_iff] at passes
  obtain ⟨word, name, rfl⟩ := passes
  refine gives_read word ?_
  refine gives_bind_iff.2 ⟨x, c.tail.tail, gives_expectName_iff.2 ⟨name, rfl⟩, ?_⟩
  refine gives_bind_iff.2 ⟨true, c.tail.tail, gives_isAtEnd_iff.2 ⟨by simp [ends], rfl⟩, ?_⟩
  exact gives_pure_iff.2 ⟨rfl, rfl⟩

/-- The tokens that write the variables of a loop. -/
def variableTokens : Option String → String → List Token
  | none, x => [.name x]
  | some k, x => [.name k, .symbol .comma, .name x]

theorem gives_loopVariables {key : Option String} (passes : Passes c (variableTokens key x) d)
    (ends : d.next ≠ some (.symbol .comma)) : loopVariables.Gives c (key, x) d := by
  cases key with
  | none =>
    simp only [variableTokens, passes_cons_iff, passes_nil_iff] at passes
    obtain ⟨value, rfl⟩ := passes
    refine gives_bind_iff.2 ⟨x, c.tail, gives_expectName_iff.2 ⟨value, rfl⟩, ?_⟩
    refine gives_bind_iff.2 ⟨false, c.tail, gives_accept_iff.2 (.inr ⟨ends, rfl, rfl⟩), ?_⟩
    exact gives_pure_iff.2 ⟨rfl, rfl⟩
  | some k =>
    simp only [variableTokens, passes_cons_iff, passes_nil_iff] at passes
    obtain ⟨key, comma, value, rfl⟩ := passes
    refine gives_bind_iff.2 ⟨k, c.tail, gives_expectName_iff.2 ⟨key, rfl⟩, ?_⟩
    refine gives_bind_iff.2 ⟨true, c.tail.tail, gives_accept_iff.2 (.inl ⟨comma, rfl, rfl⟩), ?_⟩
    refine gives_bind_iff.2 ⟨x, c.tail.tail.tail, gives_expectName_iff.2 ⟨value, rfl⟩, ?_⟩
    exact gives_pure_iff.2 ⟨rfl, rfl⟩

theorem ofSource_openLoop {key : Option String}
    (spells : Spells false source.toList (.name "for" :: variableTokens key x ++ .keyword .in :: ts))
    (derived : Derives .expression ts e n) (bound : n ≤ limit) :
    LogicTag.ofSource source offset limit = .ok (.openLoop key x e) := by
  apply ofSource_of_gives spells
  rintro c d passes ends rfl
  simp only [List.cons_append, passes_cons_iff, passes_append_iff] at passes
  obtain ⟨word, m, names, within, passes⟩ := passes
  have names_end : m.next ≠ some (.symbol .comma) := by simp [within]
  have same : m.tail.limit = c.limit := names.limit
  refine gives_read word ?_
  refine gives_bind_iff.2 ⟨(key, x), m, gives_loopVariables names names_end, ?_⟩
  refine gives_bind_iff.2 ⟨(), m.tail, gives_expect_iff.2 ⟨within, rfl⟩, ?_⟩
  exact gives_lastExpression (.openLoop key x) derived (same ▸ bound) passes ends

theorem ofSource_otherwise (spells : Spells false source.toList [.name "else"]) :
    LogicTag.ofSource source offset limit = .ok .otherwise := by
  apply ofSource_of_gives spells
  rintro c d passes ends rfl
  obtain ⟨word, passes⟩ := passes_cons_iff.1 passes
  obtain rfl := passes_nil_iff.1 passes
  exact gives_read word (gives_endOfTag ends)

theorem ofSource_close {kind : BlockKind}
    (spells : Spells false source.toList [.name ("end" ++ kind.keyword)]) :
    LogicTag.ofSource source offset limit = .ok (.close kind) := by
  apply ofSource_of_gives spells
  rintro c d passes ends rfl
  obtain ⟨word, passes⟩ := passes_cons_iff.1 passes
  obtain rfl := passes_nil_iff.1 passes
  refine gives_read word ?_
  cases kind <;> exact gives_endOfTag ends

end LogicTag

/-- A tag with a name that no tag has. -/
def LogicTag.unknown (start : Nat) (word : String) : Parse LogicTag :=
  throw (.parse .unknownTag (some (.name word)) start)

namespace Parse

/-- `R` relates the parsers of which those of tags are made, and what is made of related ones. -/
structure Compatible (R : ∀ {α : Type}, Parse α → Parse α → Prop) : Prop where
  bind : ∀ {α β : Type} {x y : Parse α} {f g : α → Parse β}, R x y → (∀ a, R (f a) (g a)) →
    R (x >>= f) (y >>= g)
  pure : ∀ {α : Type} (a : α), R (pure a) (pure a)
  fail : ∀ {α : Type} (fault : ParseFault), R (fail fault : Parse α) (fail fault)
  peek : R peek peek
  advance : R advance advance
  isAtEnd : R isAtEnd isAtEnd
  expression : R expression expression

namespace Compatible

variable {R : ∀ {α : Type}, Parse α → Parse α → Prop}

theorem accept (compatible : Compatible R) (t : Token) : R (accept t) (accept t) := by
  refine compatible.bind (compatible.bind compatible.peek fun _ => compatible.pure _) fun took => ?_
  cases took with
  | true => exact compatible.bind compatible.advance fun _ => compatible.pure true
  | false => exact compatible.pure false

theorem expect (compatible : Compatible R) (t : Token) : R (expect t) (expect t) := by
  refine compatible.bind (compatible.accept t) fun took => ?_
  cases took with
  | true => exact compatible.pure ()
  | false => exact compatible.fail _

theorem expectName (compatible : Compatible R) (role : NameRole) :
    R (expectName role) (expectName role) := by
  refine compatible.bind compatible.peek fun next => ?_
  split
  · exact compatible.bind compatible.advance fun _ => compatible.pure _
  · exact compatible.fail _

theorem expectEnd (compatible : Compatible R) : R expectEnd expectEnd := by
  refine compatible.bind compatible.isAtEnd fun ended => ?_
  cases ended with
  | true => exact compatible.pure ()
  | false => exact compatible.fail _

theorem endOfTag (compatible : Compatible R) (tag : LogicTag) :
    R (LogicTag.endOfTag tag) (LogicTag.endOfTag tag) :=
  compatible.bind compatible.expectEnd fun _ => compatible.pure tag

theorem lastExpression (compatible : Compatible R) (f : Expr → LogicTag) :
    R (Parse.expression >>= fun e => LogicTag.endOfTag (f e))
      (Parse.expression >>= fun e => LogicTag.endOfTag (f e)) :=
  compatible.bind compatible.expression fun e => compatible.endOfTag (f e)

theorem loopVariables (compatible : Compatible R) :
    R LogicTag.loopVariables LogicTag.loopVariables := by
  refine compatible.bind (compatible.expectName _) fun first =>
    compatible.bind (compatible.accept _) fun took => ?_
  cases took with
  | true => exact compatible.bind (compatible.expectName _) fun second => compatible.pure _
  | false => exact compatible.pure _

/-- Where a tag starts is only for the error about its name. -/
theorem body (compatible : Compatible R) (start start' : Nat) (word : String)
    (unknown : R (LogicTag.unknown start word) (LogicTag.unknown start' word)) :
    R (LogicTag.body start word) (LogicTag.body start' word) := by
  unfold LogicTag.body
  split
  · refine compatible.bind (compatible.expectName _) fun name =>
      compatible.bind compatible.isAtEnd fun ended => ?_
    cases ended with
    | true => exact compatible.pure _
    | false =>
      exact compatible.bind (compatible.expect _) fun _ => compatible.lastExpression (.set name)
  · exact compatible.bind compatible.loopVariables fun names =>
      compatible.bind (compatible.expect _) fun _ =>
        compatible.lastExpression (.openLoop names.1 names.2)
  · exact compatible.lastExpression .openBranch
  · exact compatible.lastExpression (.elseIf "elseif")
  · exact compatible.lastExpression (.elseIf "elif")
  · exact compatible.endOfTag .otherwise
  · exact compatible.endOfTag (.close .loop)
  · exact compatible.endOfTag (.close .branch)
  · exact compatible.endOfTag (.close .capture)
  · exact unknown

theorem read (compatible : Compatible R) (start start' : Nat)
    (unknown : ∀ word, R (LogicTag.unknown start word) (LogicTag.unknown start' word)) :
    R (LogicTag.read start) (LogicTag.read start') :=
  compatible.bind (compatible.expectName _) fun word =>
    compatible.body start start' word (unknown word)

end Compatible

end Parse
end Stencil
