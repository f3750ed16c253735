import Stencil.Proofs.Segment.Split
import Stencil.Proofs.Token.Reading

/-! The cut of a template and the lexer agree on string literals and braces. What the cut takes for the
inside of a tag has no string literal without an end, and a closing delimiter in it is in a string literal
or closes a brace. -/
namespace Stencil

namespace Token

variable {n : Nat} {t : Token} {ts : List Token}

/-- The open braces behind `t`, of `braces` before it. A closing brace without an open one is not
counted. -/
def bracesAfter (braces : Nat) : Token → Nat
  | .symbol .openBrace => braces + 1
  | .symbol .closeBrace => braces - 1
  | _ => braces

theorem bracesAfter_of_ne {braces : Nat} (left : t ≠ .symbol .openBrace)
    (right : t ≠ .symbol .closeBrace) : t.bracesAfter braces = braces := by
  unfold bracesAfter
  split <;> first | contradiction | rfl

/-- All braces are closed, and each closing brace closes one. -/
inductive Balanced : List Token → Prop
  | nil : Balanced []
  | plain {ts : List Token} {t : Token} :
      Balanced ts → t ≠ .symbol .openBrace → t ≠ .symbol .closeBrace → Balanced (ts ++ [t])
  | group {ts us : List Token} : Balanced ts → Balanced us →
      Balanced (ts ++ (.symbol .openBrace :: us ++ [.symbol .closeBrace]))

/-- At least `n` braces of the tokens are not closed by the tokens behind them. -/
inductive Opened : Nat → List Token → Prop
  | zero {ts : List Token} : Opened 0 ts
  | succ {n : Nat} {before inner : List Token} : Opened n before → Balanced inner →
      Opened (n + 1) (before ++ .symbol .openBrace :: inner)

theorem Opened.snoc (opened : Opened n ts) (t : Token) : Opened (t.bracesAfter n) (ts ++ [t]) := by
  by_cases left : t = .symbol .openBrace
  · subst left
    exact opened.succ .nil
  by_cases right : t = .symbol .closeBrace
  · subst right
    cases opened with
    | zero => exact .zero
    | succ outer inner =>
      cases outer with
      | zero => exact .zero
      | succ first between =>
        have closed := first.succ (between.group inner)
        simpa [bracesAfter] using closed
  · rw [bracesAfter_of_ne left right]
    cases opened with
    | zero => exact .zero
    | succ outer inner =>
      have longer := outer.succ (inner.plain left right)
      simpa using longer

end Token

namespace Lexer

/-- At byte `position` of its text `l` comes to a character that begins no token, and goes no further. -/
def Unexpected (l : Lexer) (position : Nat) : Prop :=
  ∃ before c behind, l.rest = before ++ c :: behind ∧
    position = l.position + Text.byteLength before ∧
    l.tokens = .error (.lex (.unexpected c) position)

/-- The bytes from `first` to `last` are in a string literal that `l` reads, between its quotes. -/
def InLiteral (l : Lexer) (first last : Nat) : Prop :=
  ∃ ts m content quote start more, l.Reads ts m ∧
    m.next = (.ok (some ⟨.string content quote, start⟩), more) ∧
    start + 1 ≤ first ∧ last + 1 ≤ more.position

/-- At byte `position` `l` reads a brace that closes one before it. -/
def ClosesBrace (l : Lexer) (position : Nat) : Prop :=
  ∃ ts m more before inner, l.Reads ts m ∧
    m.next = (.ok (some ⟨.symbol .closeBrace, position⟩), more) ∧
    ts.map Placed.token = before ++ .symbol .openBrace :: inner ∧ Token.Balanced inner

end Lexer

namespace Segment

variable {tag : Tag} {quote : Quote} {braces : Nat} {c : Char} {cs : List Char}

/-- The scan for the end of `tag` has still to pass `cs`, and finds it behind. It is in the string literal
that `quote` opened, or in none, and `braces` braces are open. Only output tags count braces. -/
def Inside (tag : Tag) (quote : Option Quote) (braces : Nat) (cs : List Char) : Prop :=
  ∃ openAt start opened position tail after, (tag = .output → opened = braces) ∧
    findClose tag openAt (quote.map (·, start)) opened position (cs ++ tail) = .ok (cs, after)

def countBrace (braces : Nat) (c : Char) : Nat :=
  if c = '\x7b' then braces + 1 else if c = '\x7d' then braces - 1 else braces

/-- What the scan does with one character outside string literals. -/
theorem Inside.step (inside : Inside tag none braces (c :: cs)) (no_comment : tag ≠ .comment) :
    Inside tag (Quote.ofChar? c) (countBrace braces c) cs := by
  obtain ⟨openAt, start, opened, position, tail, after, same, found⟩ := inside
  rw [List.cons_append, findClose.eq_def] at found
  simp only [Option.map_none, no_comment, if_false] at found
  split at found
  · next left =>
    simp only [Bool.and_eq_true, decide_eq_true_eq] at left
    obtain ⟨rfl, rfl⟩ := left
    obtain ⟨rest, whole, found⟩ := pass_eq_ok found
    obtain ⟨-, rfl⟩ := List.cons.inj whole
    exact ⟨openAt, 0, opened + 1, _, tail, after, by simp [countBrace, same], found⟩
  · next no_left =>
    split at found
    · next right =>
      simp only [Bool.and_eq_true, decide_eq_true_eq] at right
      obtain ⟨⟨rfl, rfl⟩, -⟩ := right
      obtain ⟨rest, whole, found⟩ := pass_eq_ok found
      obtain ⟨-, rfl⟩ := List.cons.inj whole
      exact ⟨openAt, 0, opened - 1, _, tail, after, by simp [countBrace, same], found⟩
    · next no_right =>
      split at found
      · simp at found
      · obtain ⟨rest, whole, found⟩ := pass_eq_ok found
        obtain ⟨-, rfl⟩ := List.cons.inj whole
        refine ⟨openAt, position, opened, _, tail, after, fun output => ?_, found⟩
        simp only [output, decide_true, Bool.true_and, decide_eq_true_eq, Bool.and_eq_true]
          at no_left no_right
        rw [countBrace, if_neg no_left, same output]
        split
        · next right =>
          have := same output
          simp only [right, true_and] at no_right
          omega
        · rfl

theorem Inside.word {word : List Char} (inside : Inside tag none braces (word ++ cs))
    (no_comment : tag ≠ .comment) (no_quote : ∀ c ∈ word, Quote.ofChar? c = none) :
    Inside tag none (word.foldl countBrace braces) cs := by
  induction word generalizing braces with
  | nil => exact inside
  | cons c word ih =>
    have rest := inside.step no_comment
    rw [no_quote c (by simp)] at rest
    exact ih rest fun c member => no_quote c (by simp [member])

theorem foldl_countBrace_of_notMem_marks {word : List Char} (plain : ∀ c ∈ word, c ∉ marks) :
    word.foldl countBrace braces = braces := by
  induction word with
  | nil => rfl
  | cons c word ih =>
    have no_mark := plain c (by simp)
    simp only [marks, List.mem_cons, List.not_mem_nil, or_false, not_or] at no_mark
    rw [List.foldl_cons, countBrace, if_neg no_mark.1, if_neg no_mark.2.1]
    exact ih fun c member => plain c (by simp [member])

theorem Inside.plain {word : List Char} (inside : Inside tag none braces (word ++ cs))
    (no_comment : tag ≠ .comment) (plain : ∀ c ∈ word, c ∉ marks) : Inside tag none braces cs := by
  have rest := inside.word no_comment fun c member => ofChar?_of_notMem_marks (plain c member)
  rwa [foldl_countBrace_of_notMem_marks plain] at rest

/-- A closing delimiter ends the scan unless it closes a brace. -/
theorem Inside.of_close (inside : Inside tag none braces (tag.closeMark :: '\x7d' :: cs)) :
    tag = .output ∧ 0 < braces := by
  obtain ⟨openAt, start, opened, position, tail, after, same, found⟩ := inside
  by_contra ended
  have unbraced (output : tag = .output) : opened = 0 := by
    have := same output
    have none_open : ¬ 0 < braces := fun positive => ended ⟨output, positive⟩
    omega
  have ends := closes_end tag (cs ++ tail) openAt opened position unbraced
  rw [List.cons_append, List.cons_append, Option.map_none, ends] at found
  cases found

/-- What the scan does in a string literal: a backslash is passed with the character behind it, and the
quote ends the literal. -/
theorem Inside.step_in_literal (inside : Inside tag (some quote) braces cs) :
    (∃ c ds, cs = '\\' :: c :: ds ∧ Inside tag (some quote) braces ds) ∨
      ∃ c ds, cs = c :: ds ∧ c ≠ '\\' ∧
        Inside tag (if c = quote.char then none else some quote) braces ds := by
  obtain ⟨openAt, start, opened, position, tail, after, same, found⟩ := inside
  generalize whole : cs ++ tail = text at found
  rw [findClose.eq_def] at found
  simp only [Option.map_some] at found
  split at found
  · cases found
  · next c text =>
    split at found
    · next escape =>
      subst escape
      split at found
      · cases found
      · next d ds =>
        obtain ⟨rest, rfl, later⟩ := pass_eq_ok found
        obtain rfl : rest ++ tail = ds := by simpa using whole
        exact .inl ⟨d, rest, rfl, openAt, start, opened, _, tail, after, same, later⟩
    · next no_escape =>
      obtain ⟨rest, rfl, later⟩ := pass_eq_ok found
      obtain rfl : rest ++ tail = text := by simpa using whole
      refine .inr ⟨c, rest, rfl, no_escape, openAt, start, opened, position + c.utf8Size, tail, after,
        same, ?_⟩
      rw [apply_ite (Option.map (·, start))]
      exact later

/-- The scan leaves a string literal where the lexer does. -/
theorem Inside.literal (inside : Inside tag (some quote) braces cs) :
    ∃ body rest, readString? quote cs = some (body, rest) ∧ Inside tag none braces rest := by
  induction size : cs.length using Nat.strongRecOn generalizing cs with
  | ind n ih =>
    obtain ⟨c, ds, rfl, later⟩ | ⟨c, ds, rfl, no_escape, later⟩ := inside.step_in_literal
    · obtain ⟨body, rest, read, behind⟩ := ih ds.length (by simp at size; omega) later rfl
      rw [readString?_escape, read]
      exact ⟨_, rest, rfl, behind⟩
    · by_cases closes : c = quote.char
      · subst closes
        rw [if_pos rfl] at later
        exact ⟨_, ds, readString?_quote quote ds, later⟩
      · rw [if_neg closes] at later
        obtain ⟨body, rest, read, behind⟩ := ih ds.length (by simp at size; omega) later rfl
        rw [readString?_plain closes no_escape, read]
        exact ⟨_, rest, rfl, behind⟩

theorem Inside.quoted (inside : Inside tag none braces (quote.char :: cs))
    (no_comment : tag ≠ .comment) :
    ∃ body rest, readString? quote cs = some (body, rest) ∧ Inside tag none braces rest := by
  have opens : Quote.ofChar? quote.char = some quote := by cases quote <;> rfl
  have same : countBrace braces quote.char = braces := by cases quote <;> rfl
  have within := inside.step no_comment
  rw [opens, same] at within
  exact within.literal

variable {afterDot : Bool} {rest : List Char} {lexeme : Lexeme} {fault : LexFault}

theorem Inside.token (inside : Inside tag none braces (c :: cs)) (no_comment : tag ≠ .comment)
    (read : readToken afterDot c cs = .ok (lexeme, rest)) :
    Inside tag none (lexeme.token.bracesAfter braces) rest := by
  have whole := (readToken_append read).1
  rw [← whole] at inside
  rcases readToken_marks read with ⟨s, rfl⟩ | ⟨quote, body, rfl, string, rfl⟩ | ⟨plain, no_symbol⟩
  · have no_quote : s.text.toList.all fun c => (Quote.ofChar? c).isNone := by cases s <;> decide
    have counted : s.text.toList.foldl countBrace braces =
        (Token.symbol s).bracesAfter braces := by
      cases s <;> rfl
    rw [← counted]
    exact inside.word no_comment (by simpa using no_quote)
  · rw [whole] at inside
    obtain ⟨body', rest', read', behind⟩ := inside.quoted no_comment
    rw [string] at read'
    cases read'
    exact behind
  · rw [Token.bracesAfter_of_ne (no_symbol _) (no_symbol _)]
    exact inside.plain no_comment plain

variable {l m : Lexer} {ts : List Placed} {position : Nat} {before behind : List Char}

theorem Inside.reads (inside : Inside tag none 0 l.rest) (no_comment : tag ≠ .comment)
    (reads : l.Reads ts m) :
    ∃ n, Inside tag none n m.rest ∧ Token.Opened n (ts.map Placed.token) := by
  induction reads with
  | start => exact ⟨0, inside, .zero⟩
  | @space _ c cs _ _ _ space ih =>
    obtain ⟨n, within, opened⟩ := ih
    have blank : Inside tag none n ([c] ++ cs) := within
    exact ⟨n, blank.plain no_comment (by simpa using notMem_marks (by decide) space), opened⟩
  | @token _ _ _ _ _ _ lexeme _ _ read ih =>
    obtain ⟨n, within, opened⟩ := ih
    have longer := opened.snoc lexeme.token
    exact ⟨_, within.token no_comment read, by simpa using longer⟩

/-- In the inside of a tag the lexer stops only at a character that begins no token. -/
theorem Inside.unexpected (inside : Inside tag none 0 l.rest) (no_comment : tag ≠ .comment)
    (stops : l.StopsAt c cs position fault) : l.Unexpected position := by
  have tokens := stops.tokens
  obtain ⟨ts, afterDot, reads, -, failed⟩ := stops
  obtain ⟨passed, whole, place⟩ := reads.exists_append
  obtain ⟨n, within, -⟩ := inside.reads no_comment reads
  obtain ⟨quote, rfl, unclosed, -⟩ | rfl := readToken_error failed
  · obtain ⟨body, rest, closed, -⟩ := within.quoted no_comment
    rw [unclosed] at closed
    cases closed
  · exact ⟨passed, c, cs, whole, place, tokens⟩

/-- A string literal ends with its quote. -/
theorem exists_written_quote {body : StringBody} (read : readString? quote cs = some (body, rest)) :
    ∃ front, body.written = front ++ [quote.char] := by
  fun_induction readString? quote cs generalizing body with
  | case1 => cases read
  | case2 =>
    cases read
    exact ⟨[], rfl⟩
  | case3 => cases read
  | case4 d ds _ ih =>
    obtain ⟨⟨found, behind⟩, inner, whole⟩ := Option.map_eq_some_iff.1 read
    cases whole
    obtain ⟨front, written⟩ := ih inner
    exact ⟨'\\' :: d :: front, by simp [written]⟩
  | case5 c cs _ _ ih =>
    obtain ⟨⟨found, behind⟩, inner, whole⟩ := Option.map_eq_some_iff.1 read
    cases whole
    obtain ⟨front, written⟩ := ih inner
    exact ⟨c :: front, by simp [written]⟩

/-- What stands between the quotes of a literal, taken apart at two characters that are no quotes. -/
theorem between_quotes {d e : Char} {body : StringBody} {front inside : List Char}
    (read : readString? quote cs = some (body, rest)) (first : d ≠ quote.char) (second : e ≠ quote.char)
    (written : quote.char :: body.written = front ++ d :: inside)
    (next : e :: behind = inside ++ rest) :
    ∃ before after, front = quote.char :: before ∧ inside = e :: after ∧ after ≠ [] := by
  obtain ⟨content, ends⟩ := exists_written_quote read
  rw [ends] at written
  cases front with
  | nil => exact absurd (List.cons.inj written).1.symm first
  | cons x before =>
    obtain ⟨rfl, same⟩ := List.cons.inj written
    have last := congrArg List.getLast? same
    cases inside with
    | nil => exact absurd (by simpa using last.symm) first
    | cons y after =>
      obtain ⟨rfl, -⟩ := List.cons.inj next
      refine ⟨before, after, rfl, rfl, ?_⟩
      rintro rfl
      exact second (by simpa using last.symm)

/-- The only symbol with the first character of a closing delimiter is that character. -/
theorem symbol_closeMark {s : Symbol} (no_comment : tag ≠ .comment)
    (member : tag.closeMark ∈ s.text.toList) : s.text.toList = [tag.closeMark] := by
  cases tag with
  | comment => contradiction
  | output | logic => cases s <;> simp_all [Tag.closeMark, Symbol.text]

/-- The lexer cannot stop at a closing delimiter. -/
theorem readToken_closeMark (tag : Tag) (no_comment : tag ≠ .comment) (afterDot : Bool) (cs : List Char) :
    ∃ found, readToken afterDot tag.closeMark ('\x7d' :: cs) = .ok found := by
  cases tag with
  | comment => contradiction
  | output | logic => exact ⟨_, rfl⟩

theorem utf8Size_delimiter (tag : Tag) (quote : Quote) :
    tag.closeMark.utf8Size = 1 ∧ '\x7d'.utf8Size = 1 ∧ quote.char.utf8Size = 1 := by
  cases tag <;> cases quote <;> decide

/-- A closing delimiter that begins in a string literal ends in it. -/
theorem inLiteral_of_readString? {content : String} {body : StringBody} {front inside : List Char}
    (reads : l.Reads ts ⟨c :: cs, position, afterDot⟩) (visible : Text.isSpace c = false)
    (read : readToken afterDot c cs =
      .ok (⟨.string content quote, quote.char :: body.written⟩, rest))
    (string : readString? quote cs = some (body, rest))
    (written : quote.char :: body.written = front ++ tag.closeMark :: inside)
    (next : '\x7d' :: behind = inside ++ rest) :
    l.InLiteral (position + Text.byteLength front) (position + Text.byteLength front + 2) := by
  have no_mark : tag.closeMark ≠ quote.char := by cases tag <;> cases quote <;> decide
  have no_brace : '\x7d' ≠ quote.char := by cases quote <;> decide
  obtain ⟨before, after, rfl, rfl, nonempty⟩ := between_quotes string no_mark no_brace written next
  obtain ⟨mark_size, brace_size, quote_size⟩ := utf8Size_delimiter tag quote
  have more := Text.byteLength_pos nonempty
  refine ⟨ts, _, _, quote, position, _, reads, Lexer.next_token visible read, ?_, ?_⟩
  · rw [Text.byteLength_cons, quote_size]
    omega
  · simp only [written, Text.byteLength_append, Text.byteLength_cons, mark_size, brace_size]
    omega

/-- A closing delimiter outside of string literals closes a brace. -/
theorem Inside.closesBrace {n : Nat} (inside : Inside tag none n (c :: cs))
    (opened : Token.Opened n (ts.map Placed.token)) (no_comment : tag ≠ .comment)
    (reads : l.Reads ts ⟨c :: cs, position, afterDot⟩) (visible : Text.isSpace c = false)
    (delimiter : c :: cs = tag.closeMark :: '\x7d' :: behind) :
    tag = .output ∧ l.ClosesBrace position := by
  rw [delimiter] at inside
  obtain ⟨rfl, positive⟩ := inside.of_close
  obtain ⟨rfl, rfl⟩ := List.cons.inj delimiter
  refine ⟨rfl, ?_⟩
  have next := @Lexer.next_token _ _ _ _ _ position visible
    (show readToken afterDot Tag.output.closeMark ('\x7d' :: behind) = .ok (⟨.symbol .closeBrace, _⟩, _)
      from rfl)
  generalize whole : ts.map Placed.token = tokens at opened
  cases opened with
  | zero => omega
  | @succ _ before inner _ balanced => exact ⟨ts, _, _, before, inner, reads, next, whole, balanced⟩

/-- A closing delimiter in the inside of a tag is in a string literal or closes a brace, unless the lexer
stops before it. -/
theorem Inside.delimiter (inside : Inside tag none 0 l.rest) (no_comment : tag ≠ .comment)
    (whole : l.rest = before ++ tag.closeMark :: '\x7d' :: behind) :
    let place := l.position + Text.byteLength before
    (∃ position < place, l.Unexpected position) ∨
      l.InLiteral place (place + 2) ∨ tag = .output ∧ l.ClosesBrace place := by
  intro place
  have visible : Text.isSpace tag.closeMark = false := by cases tag <;> decide
  obtain consumes | stopped := Lexer.consumes_or_stopsAt visible whole
  · obtain ⟨ts, c, cs, start, afterDot, lexeme, rest, front, part, reads, first, read, written, next,
      same⟩ := consumes
    rw [show place = start + Text.byteLength front from same.symm]
    rcases readToken_marks read with ⟨s, rfl⟩ | ⟨quote, body, -, string, rfl⟩ | ⟨plain, -⟩
    · change s.text.toList = front ++ tag.closeMark :: part at written
      have single := symbol_closeMark (s := s) no_comment (by simp [written])
      rw [single] at written
      obtain ⟨rfl, rfl⟩ : front = [] ∧ part = [] := by
        simpa [List.cons_eq_append_iff] using written
      obtain ⟨n, within, opened⟩ := inside.reads no_comment reads
      have append := (readToken_append read).1
      change s.text.toList ++ rest = c :: cs at append
      rw [single, ← List.nil_append rest, ← next] at append
      exact .inr (.inr (within.closesBrace opened no_comment reads first append.symm))
    · exact .inr (.inl (inLiteral_of_readString? reads first read string written next))
    · have member : tag.closeMark ∈ marks := by cases tag <;> decide
      exact absurd member (plain _ (by simp [written]))
  · obtain ⟨c, cs, position, fault, front, stops, same, at_place⟩ := stopped
    refine .inl ⟨position, ?_, inside.unexpected no_comment stops⟩
    have nonempty : front ≠ [] := by
      rintro rfl
      obtain ⟨rfl, rfl⟩ := List.cons.inj same
      obtain ⟨_, afterDot, _, _, failed⟩ := stops
      obtain ⟨found, read⟩ := readToken_closeMark tag no_comment afterDot behind
      rw [read] at failed
      cases failed
    have := Text.byteLength_pos nonempty
    omega

theorem Inside.tokens (inside : Inside tag none 0 l.rest) (no_comment : tag ≠ .comment) :
    (∃ ts, l.tokens = .ok ts) ∨ ∃ position, l.Unexpected position := by
  obtain ⟨ts, -, -, -, read⟩ | ⟨c, cs, position, fault, stops⟩ := l.exists_end_or_stop
  · exact .inl ⟨ts, read⟩
  · exact .inr ⟨position, inside.unexpected no_comment stops⟩

variable {trimBlocks : Bool} {template : String} {segment : Segment} {segments : List Segment}

theorem inside_of_findClose {openAt : Nat} {inside after : List Char}
    (closes : findClose tag openAt none 0 position cs = .ok (inside, after)) :
    Inside tag none 0 inside := by
  rw [eq_append_of_findClose closes] at closes
  exact ⟨openAt, 0, 0, position, _, after, fun _ => rfl, closes⟩

/-- The source of a tag is what the scan for its end has passed. -/
theorem inside_of_mem_splitChars (cut : splitChars trimBlocks position cs = .ok segments)
    (member : segment ∈ segments) (kind : segment.kind = .tag tag) :
    Inside tag none 0 segment.source.toList := by
  have no_text {position : Nat} {cs : List Char} : segment ∉ ofText position cs :=
    fun text => by simp [kind_of_mem_ofText text] at kind
  fun_induction splitChars trimBlocks position cs generalizing segments with
  | case1 =>
    cases cut
    exact absurd member no_text
  | case2 => cases cut
  | case3 position cs before tag' inner opens openAt inside after closes closed rest =>
    rename_i ih
    obtain ⟨others, later, rfl⟩ := map_eq_ok_iff.1 cut
    rcases List.mem_append.1 member with text | member
    · exact absurd text no_text
    rcases List.mem_cons.1 member with rfl | member
    · cases kind
      rw [String.toList_ofList]
      exact inside_of_findClose closes
    · exact ih later member

/-- The cut of a template and the lexer agree on string literals, however the template is formed: the
source of an output or logic segment is read, or the lexer stops at a character that begins no token,
but never at a string literal without an end. Where the source holds the closing delimiter of its own
tag, and the lexer does not stop before, the delimiter is in a string literal, or it is that of an output
tag and begins with a brace that closes one of the same source. -/
theorem split_agrees_with_tokenize (cut : split template trimBlocks = .ok segments)
    (member : segment ∈ segments) (kind : segment.kind = .tag tag) (no_comment : tag ≠ .comment) :
    let lexer := Lexer.ofSource segment.source segment.position
    ((∃ ts, tokenize segment.source segment.position = .ok ts) ∨
      ∃ position, lexer.Unexpected position) ∧
    ∀ before behind, segment.source.toList = before ++ tag.closeMark :: '\x7d' :: behind →
      let place := segment.position + Text.byteLength before
      (∃ position < place, lexer.Unexpected position) ∨
        lexer.InLiteral place (place + 2) ∨ tag = .output ∧ lexer.ClosesBrace place := by
  intro lexer
  have inside : Inside tag none 0 lexer.rest := inside_of_mem_splitChars cut member kind
  exact ⟨inside.tokens no_comment, fun before behind whole => inside.delimiter no_comment whole⟩

/-- Closing delimiters in a string literal and behind mappings, one in the other. -/
theorem split_agrees_with_tokenize_of_mappings :
    let source := " '\x7d\x7d' ~ \x7ba: \x7bb: c\x7d\x7d.a "
    let lexer := Lexer.ofSource source 2
    split ("\x7b\x7b" ++ source ++ "\x7d\x7d") false = .ok [⟨.tag .output, source, 2⟩] ∧
      (tokenize source 2).isOk ∧ (lexer.InLiteral 4 6 ∨ lexer.ClosesBrace 4) ∧
      (lexer.InLiteral 19 21 ∨ lexer.ClosesBrace 19) := by
  intro source lexer
  have cut : split ("\x7b\x7b" ++ source ++ "\x7d\x7d") false =
      .ok [⟨.tag .output, source, 2⟩] := by cbv
  have read : (tokenize source 2).isOk := by cbv
  have agrees := split_agrees_with_tokenize cut (List.mem_singleton.2 rfl) rfl (by decide)
  have delimiter (before behind : List Char)
      (whole : source.toList = before ++ '\x7d' :: '\x7d' :: behind) :
      lexer.InLiteral (2 + Text.byteLength before) (2 + Text.byteLength before + 2) ∨
        lexer.ClosesBrace (2 + Text.byteLength before) := by
    obtain ⟨position, -, stopped⟩ | found := agrees.2 before behind whole
    · obtain ⟨_, _, _, _, _, failed⟩ := stopped
      change lexer.tokens.isOk at read
      rw [failed] at read
      cases read
    · exact found.imp_right And.right
  have quoted := delimiter " '".toList "' ~ \x7ba: \x7bb: c\x7d\x7d.a ".toList (by decide)
  have braced := delimiter " '\x7d\x7d' ~ \x7ba: \x7bb: c".toList ".a ".toList (by decide)
  exact ⟨cut, read, quoted, braced⟩

end Segment
end Stencil
