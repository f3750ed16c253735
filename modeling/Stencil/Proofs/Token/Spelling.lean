import Stencil.Proofs.Action
import Stencil.Token.Lexer

/-! What the characters of a tag spell, without positions, and how the lexer passes them. -/
namespace Stencil

variable {afterDot : Bool} {c : Char} {cs rest : List Char} {t : Token} {ts us : List Token}
  {lexeme : Lexeme}

def Token.isDot (t : Token) : Bool := t == .symbol .dot

/-- `Spells afterDot cs ts`: the characters `cs` write the tokens `ts`, directly after a dot or
not. -/
inductive Spells : Bool → List Char → List Token → Prop
  | nil {afterDot : Bool} : Spells afterDot [] []
  | space {afterDot : Bool} {c : Char} {cs : List Char} {ts : List Token} :
      Text.isSpace c → Spells afterDot cs ts → Spells afterDot (c :: cs) ts
  | token {afterDot : Bool} {c : Char} {cs rest : List Char} {lexeme : Lexeme}
      {ts : List Token} :
      Text.isSpace c = false → readToken afterDot c cs = .ok (lexeme, rest) →
      Spells lexeme.token.isDot rest ts → Spells afterDot (c :: cs) (lexeme.token :: ts)

theorem length_of_readToken (read : readToken afterDot c cs = .ok (lexeme, rest)) :
    rest.length < cs.length + 1 := by
  obtain ⟨whole, nonempty⟩ := readToken_append read
  have size := congrArg List.length whole
  have positive := List.length_pos_iff.2 nonempty
  rw [List.length_append, List.length_cons] at size
  omega

namespace Lexer

variable {l m more : Lexer} {placed : Placed} {passed : List Placed} {position : Nat}
  {fault : LexFault}

theorem tokens_of_next_none (h : l.next = (.ok none, more)) : l.tokens = .ok [] := by
  rw [Lexer.tokens]
  split <;> simp_all

theorem tokens_of_next_some (h : l.next = (.ok (some placed), more)) :
    l.tokens = more.tokens.map (placed :: ·) := by
  rw [Lexer.tokens]
  split <;> simp_all

theorem tokens_of_next_error {e : Error} (h : l.next = (.error e, more)) :
    l.tokens = .error e := by
  rw [Lexer.tokens]
  split <;> simp_all

theorem tokens_congr (same : l.next = m.next) : l.tokens = m.tokens := by
  rcases h : m.next with ⟨_ | _ | placed, more⟩
  · rw [tokens_of_next_error h, tokens_of_next_error (same.trans h)]
  · rw [tokens_of_next_none h, tokens_of_next_none (same.trans h)]
  · rw [tokens_of_next_some h, tokens_of_next_some (same.trans h)]

theorem next_space (space : Text.isSpace c) :
    next ⟨c :: cs, position, afterDot⟩ = next ⟨cs, position + c.utf8Size, afterDot⟩ := by
  have same : skipSpace ⟨c :: cs, position, afterDot⟩ =
      skipSpace ⟨cs, position + c.utf8Size, afterDot⟩ := by
    simp [skipSpace, space, Nat.add_assoc]
  simp only [next, same]

theorem next_token (visible : Text.isSpace c = false)
    (read : readToken afterDot c cs = .ok (lexeme, rest)) :
    next ⟨c :: cs, position, afterDot⟩ = (.ok (some ⟨lexeme.token, position⟩),
      ⟨rest, position + Text.byteLength lexeme.written, lexeme.token.isDot⟩) := by
  have same : skipSpace ⟨c :: cs, position, afterDot⟩ = ⟨c :: cs, position, afterDot⟩ := by
    simp [skipSpace, visible]
  simp only [next, same, read]
  rfl

theorem next_error (visible : Text.isSpace c = false)
    (read : readToken afterDot c cs = .error fault) :
    (next ⟨c :: cs, position, afterDot⟩).1 = .error (.lex fault position) := by
  have same : skipSpace ⟨c :: cs, position, afterDot⟩ = ⟨c :: cs, position, afterDot⟩ := by
    simp [skipSpace, visible]
  simp only [next, same, read]

theorem tokens_of_spells (spells : Spells afterDot cs ts) (position : Nat) :
    ∃ tokens, Lexer.tokens ⟨cs, position, afterDot⟩ = .ok tokens ∧
      tokens.map Placed.token = ts := by
  induction spells generalizing position with
  | nil => exact ⟨[], tokens_of_next_none rfl, rfl⟩
  | space space _ ih =>
    rw [tokens_congr (next_space space)]
    exact ih _
  | token visible read _ ih =>
    obtain ⟨tokens, rest, spelled⟩ := ih _
    rw [tokens_of_next_some (next_token visible read), rest]
    exact ⟨_, rfl, by simp [spelled]⟩

/-- `l.Reads ts m`: from `l` on the tokens `ts` are read, and `m` is a place behind them, maybe behind
white space too. -/
inductive Reads (l : Lexer) : List Placed → Lexer → Prop
  | start : Reads l [] l
  | space {ts : List Placed} {c : Char} {cs : List Char} {position : Nat} {afterDot : Bool} :
      Reads l ts ⟨c :: cs, position, afterDot⟩ → Text.isSpace c →
      Reads l ts ⟨cs, position + c.utf8Size, afterDot⟩
  | token {ts : List Placed} {c : Char} {cs rest : List Char} {position : Nat} {afterDot : Bool}
      {lexeme : Lexeme} :
      Reads l ts ⟨c :: cs, position, afterDot⟩ → Text.isSpace c = false →
      readToken afterDot c cs = .ok (lexeme, rest) →
      Reads l (ts ++ [⟨lexeme.token, position⟩])
        ⟨rest, position + Text.byteLength lexeme.written, lexeme.token.isDot⟩

theorem Reads.tokens (reads : l.Reads passed m) : l.tokens = m.tokens.map (passed ++ ·) := by
  induction reads with
  | start => cases l.tokens <;> rfl
  | space _ space ih => rw [ih, tokens_congr (next_space space)]
  | token _ visible read ih =>
    rw [ih, tokens_of_next_some (next_token visible read)]
    cases Lexer.tokens _ <;> simp [Except.map]

theorem Reads.spells (reads : l.Reads passed m) (rest : Spells m.afterDot m.rest us) :
    Spells l.afterDot l.rest (passed.map Placed.token ++ us) := by
  induction reads generalizing us with
  | start => exact rest
  | space _ space ih => exact ih (.space space rest)
  | token _ visible read ih => simpa using ih (.token visible read rest)

/-- No token can be read from `c :: cs`, to which `l` comes at byte `position`. -/
def StopsAt (l : Lexer) (c : Char) (cs : List Char) (position : Nat) (fault : LexFault) : Prop :=
  ∃ ts afterDot, l.Reads ts ⟨c :: cs, position, afterDot⟩ ∧ Text.isSpace c = false ∧
    readToken afterDot c cs = .error fault

theorem StopsAt.tokens (stops : l.StopsAt c cs position fault) :
    l.tokens = .error (.lex fault position) := by
  obtain ⟨ts, afterDot, reads, visible, failed⟩ := stops
  have error := @next_error _ _ _ position _ visible failed
  rw [reads.tokens, tokens_of_next_error (Prod.ext error rfl)]
  rfl

/-- The lexer comes to the end of the text, or stops before it. -/
theorem exists_end_or_stop (l : Lexer) :
    (∃ ts m, l.Reads ts m ∧ m.rest = [] ∧ l.tokens = .ok ts) ∨
      ∃ c cs position fault, l.StopsAt c cs position fault := by
  -- The induction is on the text behind a place that is already reached.
  suffices reached : ∀ {ts m}, l.Reads ts m → _ from reached .start
  intro ts m reads
  induction size : m.rest.length using Nat.strongRecOn generalizing ts m with
  | ind n ih =>
    obtain ⟨rest, position, afterDot⟩ := m
    cases rest with
    | nil =>
      have tokens := reads.tokens
      rw [tokens_of_next_none (l := ⟨[], position, afterDot⟩) rfl] at tokens
      exact .inl ⟨ts, _, reads, rfl, by simpa [Except.map] using tokens⟩
    | cons c cs =>
      rw [List.length_cons] at size
      by_cases space : Text.isSpace c
      · exact ih cs.length (by omega) (reads.space space) rfl
      rw [Bool.not_eq_true] at space
      cases read : readToken afterDot c cs with
      | error fault => exact .inr ⟨c, cs, position, fault, ts, afterDot, reads, space, read⟩
      | ok found =>
        have shorter := length_of_readToken read
        exact ih found.2.length (by omega) (reads.token space read) rfl

theorem spells_of_tokens (h : Lexer.tokens ⟨cs, position, afterDot⟩ = .ok passed) :
    Spells afterDot cs (passed.map Placed.token) := by
  obtain ⟨ts, m, reads, ended, all⟩ | ⟨c, cs, position, fault, stops⟩ := exists_end_or_stop _
  · obtain rfl := Except.ok.inj (h.symm.trans all)
    have rest : Spells m.afterDot m.rest [] := ended ▸ .nil
    simpa using reads.spells rest
  · rw [stops.tokens] at h
    cases h

end Lexer

theorem tokenize_of_spells {source : String} (spells : Spells false source.toList ts)
    (offset : Nat) :
    ∃ tokens, tokenize source offset = .ok tokens ∧ tokens.map Placed.token = ts :=
  Lexer.tokens_of_spells spells offset

theorem spells_of_tokenize {source : String} {offset : Nat} {tokens : List Placed}
    (h : tokenize source offset = .ok tokens) :
    Spells false source.toList (tokens.map Placed.token) :=
  Lexer.spells_of_tokens h

theorem spells_of_map_tokenize {source : String}
    (h : (tokenize source 0).map (List.map Placed.token) = .ok ts) :
    Spells false source.toList ts := by
  obtain ⟨tokens, read, rfl⟩ := map_eq_ok_iff.1 h
  exact spells_of_tokenize read

/-- The ways to read a token, in the order in which they are tried. -/
theorem readToken_cases (read : readToken afterDot c cs = .ok (lexeme, rest)) :
    (∃ s, readSymbol? c cs = some (s, lexeme.written, rest) ∧ lexeme.token = .symbol s) ∨
    (∃ quote body, c = quote.char ∧ readString? quote cs = some (body, rest) ∧
      lexeme = ⟨.string (String.ofList body.content) quote, quote.char :: body.written⟩) ∨
    (∃ n, c.isDigit ∧ numberSpan afterDot (c :: cs) = (lexeme.written, rest) ∧
      lexeme.token = .number n) ∨
    (isNameStart c ∧ lexeme.written = c :: cs.takeWhile isNamePart ∧
      rest = cs.dropWhile isNamePart ∧ lexeme.token = .ofWord (String.ofList lexeme.written)) := by
  unfold readToken at read
  split at read
  · next s written behind found =>
    cases read
    exact .inl ⟨s, found, rfl⟩
  split at read
  · next quote quoted =>
    unfold readQuoted at read
    split at read
    · next body behind found =>
      cases read
      exact .inr (.inl ⟨quote, body, Quote.eq_char_of_ofChar? quoted, found, rfl⟩)
    · cases read
  split at read
  · next digit =>
    simp only at read
    split at read
    · cases read
      exact .inr (.inr (.inl ⟨_, digit, rfl, rfl⟩))
    · cases read
  split at read
  · next start =>
    cases read
    exact .inr (.inr (.inr ⟨start, rfl, rfl, rfl⟩))
  · cases read

theorem Token.eq_of_ofWord {word x : String} (h : Token.ofWord word = .name x) : word = x := by
  unfold Token.ofWord at h
  split at h
  · cases h
  · simpa using h

theorem Token.ofWord_ne_symbol {word : String} {s : Symbol} : Token.ofWord word ≠ .symbol s := by
  unfold Token.ofWord
  split <;> simp

/-- A name is written as it is. -/
theorem written_of_readToken {x : String} (read : readToken afterDot c cs = .ok (lexeme, rest))
    (name : lexeme.token = .name x) : lexeme.written = x.toList := by
  rcases readToken_cases read with ⟨s, _, token⟩ | ⟨quote, body, _, _, rfl⟩ | ⟨n, _, _, token⟩ |
    ⟨_, _, _, token⟩
  · simp [name] at token
  · simp at name
  · simp [name] at token
  · rw [name] at token
    rw [← Token.eq_of_ofWord token.symm, String.toList_ofList]

theorem readToken_name {x : String} (read : readToken afterDot c cs = .ok (lexeme, rest))
    (name : lexeme.token = .name x) (afterDot : Bool) :
    readToken afterDot c cs = .ok (lexeme, rest) := by
  unfold readToken at read ⊢
  split at read
  · cases read
    cases name
  split at read
  · unfold readQuoted at read
    split at read <;> cases read
    cases name
  split at read
  · simp only at read
    split at read <;> cases read
    cases name
  · next no_digit =>
    rw [if_neg no_digit]
    exact read

/-- Digits, points, signs and exponent marks. -/
def isNumberPart (c : Char) : Bool := c.isDigit || ['.', '+', '-', 'e', 'E'].contains c

theorem digits_part (cs : List Char) : ∀ c ∈ cs.takeWhile Char.isDigit, isNumberPart c := by
  intro c member
  have digit : c.isDigit := List.all_eq_true.1 List.all_takeWhile c member
  simp [isNumberPart, digit]

theorem fractionSpan_part (cs : List Char) : ∀ c ∈ (fractionSpan cs).1, isNumberPart c := by
  intro c member
  unfold fractionSpan at member
  split at member
  · split at member
    · cases member
    · rcases List.mem_cons.1 member with rfl | member
      · rfl
      · exact digits_part _ c member
  · cases member

theorem signSpan_part (cs : List Char) : ∀ c ∈ (signSpan cs).1, isNumberPart c := by
  intro c member
  unfold signSpan at member
  split at member
  · rw [List.mem_singleton.1 member]
    rfl
  · rw [List.mem_singleton.1 member]
    rfl
  · cases member

theorem exponentSpan_part (cs : List Char) : ∀ c ∈ (exponentSpan cs).1, isNumberPart c := by
  intro c member
  unfold exponentSpan at member
  split at member
  · cases member
  · next mark cs =>
    simp only at member
    split at member
    · next valid =>
      simp only [Bool.and_eq_true, Bool.or_eq_true, decide_eq_true_eq] at valid
      rcases List.mem_append.1 member with before | member
      · rcases List.mem_cons.1 before with rfl | member
        · rcases valid.1 with rfl | rfl <;> rfl
        · exact signSpan_part _ c member
      · exact digits_part _ c member
    · cases member

theorem numberSpan_part (afterDot : Bool) (cs : List Char) :
    ∀ c ∈ (numberSpan afterDot cs).1, isNumberPart c := by
  intro c member
  unfold numberSpan at member
  simp only at member
  split at member
  · exact digits_part _ c member
  · rcases List.mem_append.1 member with member | member
    · rcases List.mem_append.1 member with member | member
      · exact digits_part _ c member
      · exact fractionSpan_part _ c member
    · exact exponentSpan_part _ c member

theorem Symbol.text_of_ofPair? {b c : Char} {s : Symbol} (h : ofPair? b c = some s) :
    s.text.toList = [b, c] := by
  unfold ofPair? at h
  split at h <;> first | (cases h; rfl) | cases h

theorem Symbol.text_of_ofChar? {s : Symbol} (h : ofChar? c = some s) : s.text.toList = [c] := by
  unfold ofChar? at h
  split at h <;> first | (cases h; rfl) | cases h

/-- A symbol is written in one way. -/
theorem written_of_readSymbol? {written : List Char} {s : Symbol}
    (read : readSymbol? c cs = some (s, written, rest)) : written = s.text.toList := by
  cases cs with
  | nil =>
    obtain ⟨s, single, whole⟩ := Option.map_eq_some_iff.1 read
    cases whole
    rw [Symbol.text_of_ofChar? single]
  | cons d cs =>
    simp only [readSymbol?] at read
    split at read
    · next s pair =>
      cases read
      rw [Symbol.text_of_ofPair? pair]
    · obtain ⟨s, single, whole⟩ := Option.map_eq_some_iff.1 read
      cases whole
      rw [Symbol.text_of_ofChar? single]

/-- The text is a name and nothing else. -/
def IsName (x : String) : Prop := tokenize x 0 = .ok [⟨.name x, 0⟩]

theorem Spells.length_of_name {x : String} (spells : Spells afterDot cs [.name x]) :
    x.toList.length ≤ cs.length := by
  generalize single : [Token.name x] = ts at spells
  induction spells with
  | nil => cases single
  | space _ _ ih =>
    have shorter := ih single
    rw [List.length_cons]
    omega
  | token _ read _ _ =>
    obtain ⟨name, -⟩ := List.cons.inj single
    have whole := congrArg List.length (readToken_append read).1
    rw [written_of_readToken read name.symm, List.length_append] at whole
    omega

theorem IsName.spells {x : String} (name : IsName x) (afterDot : Bool) :
    Spells afterDot x.toList [.name x] := by
  have spells : Spells false x.toList [.name x] := spells_of_tokenize name
  generalize whole : x.toList = cs at spells
  generalize single : [Token.name x] = ts at spells
  cases spells with
  | nil => cases single
  | space _ spells =>
    subst single
    have shorter := spells.length_of_name
    rw [whole, List.length_cons] at shorter
    omega
  | @token _ c cs rest lexeme ts visible read spells =>
    obtain ⟨token, rfl⟩ := List.cons.inj single
    have append := (readToken_append read).1
    rw [written_of_readToken read token.symm, whole] at append
    obtain rfl : rest = [] := by simpa using append
    exact .token visible (readToken_name read token.symm afterDot) .nil

end Stencil
