import Stencil.Proofs.Token.Separated
import Stencil.Segment

/-! The scan for a closing delimiter passes over whole tokens. -/
namespace Stencil.Segment

variable {tag : Tag} {braces : Nat} {c : Char} {cs inside after : List Char}

/-- `Closes tag braces cs inside after`: with `braces` braces open, the closing delimiter of `tag`
is found between `inside` and `after`. Only output tags count braces. -/
def Closes (tag : Tag) (braces : Nat) (cs inside after : List Char) : Prop :=
  ∀ openAt opened position, (tag = .output → opened = braces) →
    findClose tag openAt none opened position cs = .ok (inside, after)

/-- The same in the middle of a string literal. -/
def ClosesInString (quote : Quote) (tag : Tag) (braces : Nat) (cs inside after : List Char) : Prop :=
  ∀ openAt start opened position, (tag = .output → opened = braces) →
    findClose tag openAt (some (quote, start)) opened position cs = .ok (inside, after)

theorem pass_ok (passed inside after : List Char) :
    pass passed (.ok (inside, after)) = .ok (passed ++ inside, after) := rfl

/-- Quotes, and the characters of which delimiters are made. -/
def marks : List Char := ['\x7b', '\x7d', '%', '#', '\'', '"']

theorem notMem_marks {p : Char → Bool} (none : marks.any p = false) (holds : p c) :
    c ∉ marks :=
  fun member => List.any_eq_false.1 none c member holds

theorem ofChar?_of_notMem_marks (plain : c ∉ marks) : Quote.ofChar? c = none := by
  unfold Quote.ofChar?
  split
  · simp [marks] at plain
  · simp [marks] at plain
  · rfl

theorem findClose_step {openAt opened position : Nat} (no_open : tag = .output → c ≠ '\x7b')
    (no_close : tag = .output → c = '\x7d' → opened = 0)
    (no_end : afterClose? tag (c :: cs) = none) (no_quote : Quote.ofChar? c = none) :
    findClose tag openAt none opened position (c :: cs) =
      pass [c] (findClose tag openAt none opened (position + c.utf8Size) cs) := by
  rw [findClose.eq_def]
  simp only
  rw [if_neg (by simpa using no_open), if_neg ?_, no_end]
  · simp [no_quote]
  · simp only [Bool.and_eq_true, decide_eq_true_eq]
    rintro ⟨⟨output, brace⟩, positive⟩
    have := no_close output brace
    omega

theorem afterClose?_eq_none (h : c ≠ tag.closeMark ∨ cs.head? ≠ some '\x7d') :
    afterClose? tag (c :: cs) = none := by
  cases found : afterClose? tag (c :: cs) with
  | none => rfl
  | some rest =>
    obtain ⟨rfl, rfl⟩ := List.cons.inj (eq_of_afterClose? found)
    simp at h

theorem Closes.plain (closes : Closes tag braces cs inside after) (plain : c ∉ marks) :
    Closes tag braces (c :: cs) (c :: inside) after := by
  intro openAt opened position same
  have no_quote := ofChar?_of_notMem_marks plain
  simp only [marks, List.mem_cons, List.not_mem_nil, or_false, not_or] at plain
  obtain ⟨left, right, percent, hash, single, double⟩ := plain
  have no_mark : c ≠ tag.closeMark := by cases tag <;> assumption
  have no_end : afterClose? tag (c :: cs) = none := afterClose?_eq_none (.inl no_mark)
  rw [findClose_step (fun _ => left) (fun _ brace => absurd brace right) no_end no_quote,
    closes openAt opened _ same]
  rfl

theorem Closes.plains {word : List Char} (closes : Closes tag braces cs inside after)
    (plain : ∀ c ∈ word, c ∉ marks) : Closes tag braces (word ++ cs) (word ++ inside) after := by
  induction word with
  | nil => exact closes
  | cons c word ih =>
    have rest := ih fun c h => plain c (by simp [h])
    exact rest.plain (plain c (by simp))

theorem Closes.openBrace (closes : Closes tag (braces + 1) cs inside after)
    (no_comment : tag ≠ .comment) :
    Closes tag braces ('\x7b' :: cs) ('\x7b' :: inside) after := by
  intro openAt opened position same
  cases tag with
  | comment => contradiction
  | output =>
    have more : opened + 1 = braces + 1 := by rw [same rfl]
    rw [findClose.eq_def]
    simp [closes openAt _ _ fun _ => more, pass_ok]
  | logic =>
    have no_end : afterClose? .logic ('\x7b' :: cs) = none :=
      afterClose?_eq_none (.inl (by decide))
    rw [findClose_step (by simp) (by simp) no_end (by decide),
      closes openAt opened _ (by simp)]
    rfl

theorem Closes.closeBrace (closes : Closes tag braces cs inside after)
    (no_comment : tag ≠ .comment) :
    Closes tag (braces + 1) ('\x7d' :: cs) ('\x7d' :: inside) after := by
  intro openAt opened position same
  cases tag with
  | comment => contradiction
  | output =>
    obtain rfl : opened = braces + 1 := same rfl
    rw [findClose.eq_def]
    simp [closes openAt _ _ fun _ => rfl, pass_ok]
  | logic =>
    have no_end : afterClose? .logic ('\x7d' :: cs) = none :=
      afterClose?_eq_none (.inl (by decide))
    rw [findClose_step (by simp) (by simp) no_end (by decide),
      closes openAt opened _ (by simp)]
    rfl

theorem Closes.percent (closes : Closes tag braces cs inside after)
    (no_end : tag = .logic → cs.head? ≠ some '\x7d') :
    Closes tag braces ('%' :: cs) ('%' :: inside) after := by
  intro openAt opened position same
  have no_end : afterClose? tag ('%' :: cs) = none := by
    apply afterClose?_eq_none
    cases tag with
    | output | comment => exact .inl (by decide)
    | logic => exact .inr (no_end rfl)
  rw [findClose_step (by simp) (by simp) no_end (by decide),
    closes openAt opened _ same]
  rfl

theorem closesInString_of_readString? {quote : Quote} {body : StringBody} {rest : List Char}
    (read : readString? quote cs = some (body, rest))
    (closes : Closes tag braces rest inside after) :
    ClosesInString quote tag braces cs (body.written ++ inside) after := by
  have no_escape : quote.char ≠ '\\' := by cases quote <;> decide
  fun_induction readString? quote cs generalizing body with
  | case1 => cases read
  | case2 =>
    cases read
    intro openAt start opened position same
    rw [findClose.eq_def]
    simp [no_escape, closes openAt _ _ same, pass_ok]
  | case3 => cases read
  | case4 d ds _ ih =>
    obtain ⟨⟨found, behind⟩, inner, whole⟩ := Option.map_eq_some_iff.1 read
    cases whole
    intro openAt start opened position same
    rw [findClose.eq_def]
    simp [ih inner openAt _ _ _ same, pass_ok]
  | case5 c cs no_quote not_escape ih =>
    obtain ⟨⟨found, behind⟩, inner, whole⟩ := Option.map_eq_some_iff.1 read
    cases whole
    intro openAt start opened position same
    rw [findClose.eq_def]
    simp [no_quote, not_escape, ih inner openAt _ _ _ same, pass_ok]

theorem Closes.string {quote : Quote} {body : StringBody} {rest : List Char}
    (closes : Closes tag braces rest inside after) (read : readString? quote cs = some (body, rest))
    (no_comment : tag ≠ .comment) :
    Closes tag braces (quote.char :: cs) (quote.char :: body.written ++ inside) after := by
  intro openAt opened position same
  have within := closesInString_of_readString? read closes openAt position opened
    (position + quote.char.utf8Size) same
  have no_mark : quote.char ≠ tag.closeMark := by cases quote <;> cases tag <;> decide
  have no_end : afterClose? tag (quote.char :: cs) = none := afterClose?_eq_none (.inl no_mark)
  have opens : Quote.ofChar? quote.char = some quote := by cases quote <;> rfl
  have left : quote.char ≠ '\x7b' := by cases quote <;> decide
  have right : quote.char ≠ '\x7d' := by cases quote <;> decide
  rw [findClose.eq_def]
  simp [left, right, no_end, no_comment, opens, within, pass_ok]

theorem closes_end (tag : Tag) (after : List Char) :
    Closes tag 0 (tag.closeMark :: '\x7d' :: after) [] after := by
  intro openAt opened position same
  have found : afterClose? tag (tag.closeMark :: '\x7d' :: after) = some after := by
    simp [afterClose?]
  have left : tag.closeMark ≠ '\x7b' := by cases tag <;> decide
  rw [findClose.eq_def]
  cases tag with
  | output => simp [same rfl, found, Tag.closeMark] at *
  | logic | comment => simp [found]

/-- `Delimited braces ts`: after `braces` open braces the tokens close each of them and all of their
own, and no percent sign stands directly before a closing brace. -/
def Delimited : Nat → List Token → Prop
  | braces, [] => braces = 0
  | braces, .symbol .openBrace :: ts => Delimited (braces + 1) ts
  | braces, .symbol .closeBrace :: ts => 0 < braces ∧ Delimited (braces - 1) ts
  | braces, .symbol .percent :: ts =>
    ts.head? ≠ some (.symbol .closeBrace) ∧ Delimited braces ts
  | braces, _ :: ts => Delimited braces ts

variable {afterDot : Bool} {rest tail : List Char} {lexeme : Lexeme} {ts : List Token}

/-- The symbols of which delimiters are made. -/
def markTokens : List Token := [.symbol .openBrace, .symbol .closeBrace, .symbol .percent]

theorem delimited_cons_iff {t : Token} (plain : t ∉ markTokens) :
    Delimited braces (t :: ts) ↔ Delimited braces ts := by
  rw [Delimited.eq_def]
  split <;> simp_all [markTokens]

theorem Closes.symbol {s : Symbol}
    (closes : ∀ opened, Delimited opened ts → Closes tag opened cs inside after)
    (delimited : Delimited braces (.symbol s :: ts)) (no_comment : tag ≠ .comment)
    (no_end : s = .percent → tag = .logic → cs.head? ≠ some '\x7d') :
    Closes tag braces (s.text.toList ++ cs) (s.text.toList ++ inside) after := by
  by_cases left : s = .openBrace
  · subst left
    exact (closes (braces + 1) delimited).openBrace no_comment
  by_cases right : s = .closeBrace
  · subst right
    obtain ⟨positive, rest⟩ := delimited
    obtain ⟨braces, rfl⟩ := Nat.exists_eq_succ_of_ne_zero (Nat.ne_of_gt positive)
    exact (closes braces rest).closeBrace no_comment
  by_cases percent : s = .percent
  · subst percent
    exact (closes braces delimited.2).percent (no_end rfl)
  rw [delimited_cons_iff (by simp [markTokens, left, right, percent])] at delimited
  have no_mark : s.text.toList.all (fun c => !marks.contains c) := by
    cases s <;> first | decide | contradiction
  exact (closes braces delimited).plains (by simpa using no_mark)

/-- A token is a symbol, a string literal, or written without quotes and delimiters. -/
theorem readToken_marks (read : readToken afterDot c cs = .ok (lexeme, rest)) :
    (∃ s, lexeme = ⟨.symbol s, s.text.toList⟩) ∨
    (∃ quote body, c = quote.char ∧ readString? quote cs = some (body, rest) ∧
      lexeme = ⟨.string (String.ofList body.content) quote, quote.char :: body.written⟩) ∨
    (∀ x ∈ lexeme.written, x ∉ marks) ∧ ∀ s, lexeme.token ≠ .symbol s := by
  rcases readToken_cases read with ⟨s, symbol, token⟩ | string | ⟨n, _, number, token⟩ |
    ⟨start, name, _, token⟩
  · refine .inl ⟨s, ?_⟩
    rw [← written_of_readSymbol? symbol, ← token]
  · exact .inr (.inl string)
  · have written : lexeme.written = (numberSpan afterDot (c :: cs)).1 := by rw [number]
    refine .inr (.inr ⟨fun x member => ?_, by simp [token]⟩)
    rw [written] at member
    exact notMem_marks (by decide) (numberSpan_part afterDot _ x member)
  · refine .inr (.inr ⟨fun x member => ?_, by simp [token, Token.ofWord_ne_symbol]⟩)
    rw [name] at member
    rcases List.mem_cons.1 member with rfl | member
    · exact notMem_marks (by decide) start
    · have part : isNamePart x := List.all_eq_true.1 List.all_takeWhile x member
      exact notMem_marks (by decide) part

theorem closes_of_readToken (read : readToken afterDot c cs = .ok (lexeme, rest))
    (closes : ∀ opened, Delimited opened ts → Closes tag opened (rest ++ tail) (rest ++ inside) after)
    (delimited : Delimited braces (lexeme.token :: ts)) (no_comment : tag ≠ .comment)
    (no_end : lexeme.token = .symbol .percent → tag = .logic →
      (rest ++ tail).head? ≠ some '\x7d') :
    Closes tag braces (c :: cs ++ tail) (c :: cs ++ inside) after := by
  rw [← (readToken_append read).1, List.append_assoc, List.append_assoc]
  rcases readToken_marks read with ⟨s, rfl⟩ | ⟨quote, body, _, string, rfl⟩ | ⟨plain, no_symbol⟩
  · exact Closes.symbol closes delimited no_comment fun h => no_end (by rw [h])
  · rw [delimited_cons_iff (by simp [markTokens])] at delimited
    have within := readString?_of_append string tail
    rw [← readString?_append string, List.append_assoc] at within
    exact (closes braces delimited).string within no_comment
  · rw [delimited_cons_iff (by simp [markTokens, no_symbol])] at delimited
    exact (closes braces delimited).plains plain

theorem head?_ne_of_spells (spells : Spells afterDot cs ts)
    (first : ts.head? ≠ some (.symbol .closeBrace)) (ends : tail.head? ≠ some '\x7d') :
    (cs ++ tail).head? ≠ some '\x7d' := by
  cases spells with
  | nil => exact ends
  | @space _ c _ _ space _ =>
    intro brace
    obtain rfl : c = '\x7d' := by simpa using brace
    exact absurd space (by decide)
  | @token _ c cs _ _ _ _ read _ =>
    intro brace
    obtain rfl : c = '\x7d' := by simpa using brace
    have symbol : readSymbol? '\x7d' cs = some (.closeBrace, ['\x7d'], cs) := by cases cs <;> rfl
    simp only [readToken, symbol] at read
    cases read
    exact first rfl

/-- The scan finds the end of a tag behind tokens that close their braces. -/
theorem closes_of_spells (spells : Spells afterDot cs ts) (delimited : Delimited braces ts)
    (no_comment : tag ≠ .comment) (no_end : tag = .logic → tail.head? ≠ some '\x7d')
    (closes : Closes tag 0 tail inside after) :
    Closes tag braces (cs ++ tail) (cs ++ inside) after := by
  induction spells generalizing braces with
  | nil =>
    rw [delimited]
    exact closes
  | space space _ ih =>
    exact (ih delimited).plain (notMem_marks (by decide) space)
  | token _ read spells ih =>
    refine closes_of_readToken read (fun _ => ih) delimited no_comment ?_
    intro percent logic
    rw [percent] at delimited
    exact head?_ne_of_spells spells delimited.1 (no_end logic)

end Stencil.Segment
