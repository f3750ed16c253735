import Stencil.Error

/-! Reading tokens. One token is read from the front of a text by `readToken`; a `Lexer` keeps the
place in the inside of a tag, and stays where it is when a token cannot be read. -/
namespace Stencil

def isNameStart (c : Char) : Bool := Text.isLetter c || c == '_'

def isNamePart (c : Char) : Bool := Text.isLetterOrDigit c || c == '_'

def Token.ofWord (word : String) : Token :=
  match Keyword.ofText? word with
  | some k => .keyword k
  | none => .name word

/-- A decimal point and the digits behind it, if there are any. -/
def fractionSpan : List Char → List Char × List Char
  | '.' :: cs =>
    if (cs.takeWhile Char.isDigit).isEmpty then ([], '.' :: cs)
    else ('.' :: cs.takeWhile Char.isDigit, cs.dropWhile Char.isDigit)
  | cs => ([], cs)

def signSpan : List Char → List Char × List Char
  | '+' :: cs => (['+'], cs)
  | '-' :: cs => (['-'], cs)
  | cs => ([], cs)

/-- An exponent: `e`, an optional sign and digits; nothing if the digits are missing. -/
def exponentSpan : List Char → List Char × List Char
  | [] => ([], [])
  | mark :: cs =>
    let (sign, ds) := signSpan cs
    if (mark = 'e' || mark = 'E') && !(ds.takeWhile Char.isDigit).isEmpty then
      (mark :: sign ++ ds.takeWhile Char.isDigit, ds.dropWhile Char.isDigit)
    else ([], mark :: cs)

/-- The longest number literal at the front. Directly after a dot it has digits only, since the
number is a key there. -/
def numberSpan (afterDot : Bool) (cs : List Char) : List Char × List Char :=
  let whole := cs.takeWhile Char.isDigit
  let rest := cs.dropWhile Char.isDigit
  if afterDot then (whole, rest)
  else
    let (fraction, rest) := fractionSpan rest
    let (exponent, rest) := exponentSpan rest
    (whole ++ fraction ++ exponent, rest)

/-- What a backslash makes of the character behind it. -/
def unescape : Char → Char
  | 'n' => '\n'
  | 't' => '\t'
  | 'r' => '\r'
  | c => c

/-- What a string literal holds: its decoded content, and its written form with the closing quote. -/
structure StringBody where
  content : List Char
  written : List Char

/-- Puts a character in front: `c` as content, written as `cs`. -/
def StringBody.cons (c : Char) (cs : List Char) (found : StringBody × List Char) :
    StringBody × List Char :=
  (⟨c :: found.1.content, cs ++ found.1.written⟩, found.2)

/-- Reads up to the closing quote. -/
def readString? (quote : Quote) : List Char → Option (StringBody × List Char)
  | [] => none
  | c :: cs =>
    if c = quote.char then some (⟨[], [c]⟩, cs)
    else if c = '\\' then
      match cs with
      | [] => none
      | d :: ds => (readString? quote ds).map (StringBody.cons (unescape d) [c, d])
    else (readString? quote cs).map (StringBody.cons c [c])

def Symbol.ofPair? : Char → Char → Option Symbol
  | '=', '=' => some .equal
  | '!', '=' => some .notEqual
  | '<', '=' => some .atMost
  | '>', '=' => some .atLeast
  | '&', '&' => some .andAnd
  | '|', '|' => some .orOr
  | _, _ => none

def Symbol.ofChar? : Char → Option Symbol
  | '+' => some .plus
  | '-' => some .minus
  | '*' => some .star
  | '/' => some .slash
  | '%' => some .percent
  | '~' => some .tilde
  | '<' => some .less
  | '>' => some .greater
  | '!' => some .bang
  | '=' => some .assign
  | '?' => some .question
  | '.' => some .dot
  | ',' => some .comma
  | ':' => some .colon
  | '|' => some .pipe
  | '[' => some .openBracket
  | ']' => some .closeBracket
  | '(' => some .openParen
  | ')' => some .closeParen
  | '{' => some .openBrace
  | '}' => some .closeBrace
  | _ => none

/-- The symbol at the front, its written form and what follows it. Symbols of two characters come
before those of one. -/
def readSymbol? (c : Char) : List Char → Option (Symbol × List Char × List Char)
  | [] => (Symbol.ofChar? c).map (·, [c], [])
  | d :: ds =>
    match Symbol.ofPair? c d with
    | some s => some (s, [c, d], ds)
    | none => (Symbol.ofChar? c).map (·, [c], d :: ds)

/-- A token and the characters that write it. -/
structure Lexeme where
  token : Token
  written : List Char

/-- The string literal that `quote` opens. -/
def readQuoted (quote : Quote) (cs : List Char) : Except LexFault (Lexeme × List Char) :=
  match readString? quote cs with
  | some (body, rest) =>
    .ok (⟨.string (String.ofList body.content) quote, quote.char :: body.written⟩, rest)
  | none => .error .unterminatedString

/-- The token that begins with `c`, and what follows it. -/
def readToken (afterDot : Bool) (c : Char) (cs : List Char) :
    Except LexFault (Lexeme × List Char) :=
  match readSymbol? c cs with
  | some (s, written, rest) => .ok (⟨.symbol s, written⟩, rest)
  | none =>
    match Quote.ofChar? c with
    | some quote => readQuoted quote cs
    | none =>
      if c.isDigit then
        let (digits, rest) := numberSpan afterDot (c :: cs)
        match Decimal.ofChars? digits with
        | some decimal => .ok (⟨.number (decimal.toNumber false), digits⟩, rest)
        | none => .error (.invalidNumber (String.ofList digits))
      else if isNameStart c then
        let word := c :: cs.takeWhile isNamePart
        .ok (⟨.ofWord (String.ofList word), word⟩, cs.dropWhile isNamePart)
      else .error (.unexpected c)

theorem fractionSpan_append (cs : List Char) : (fractionSpan cs).1 ++ (fractionSpan cs).2 = cs := by
  unfold fractionSpan
  split
  · split <;> simp
  · rfl

theorem signSpan_append (cs : List Char) : (signSpan cs).1 ++ (signSpan cs).2 = cs := by
  unfold signSpan
  split <;> rfl

theorem exponentSpan_append (cs : List Char) : (exponentSpan cs).1 ++ (exponentSpan cs).2 = cs := by
  unfold exponentSpan
  split
  · rfl
  · next mark cs =>
    have := signSpan_append cs
    generalize signSpan cs = s at *
    simp only
    split <;> simp_all

theorem numberSpan_append (afterDot : Bool) (cs : List Char) :
    (numberSpan afterDot cs).1 ++ (numberSpan afterDot cs).2 = cs := by
  unfold numberSpan
  simp only
  split
  · simp
  · simp [exponentSpan_append, fractionSpan_append]

theorem numberSpan_ne_nil {c : Char} (h : c.isDigit) (afterDot : Bool) (cs : List Char) :
    (numberSpan afterDot (c :: cs)).1 ≠ [] := by
  unfold numberSpan
  simp only [List.takeWhile_cons, h, if_true]
  split <;> simp

theorem Quote.eq_char_of_ofChar? {c : Char} {q : Quote} (h : ofChar? c = some q) : c = q.char := by
  unfold ofChar? at h
  split at h <;> simp at h <;> subst h <;> rfl

theorem readString?_append {quote : Quote} {cs rest : List Char} {body : StringBody}
    (h : readString? quote cs = some (body, rest)) : body.written ++ rest = cs := by
  fun_induction readString? quote cs generalizing body with
  | case1 => simp at h
  | case2 =>
    simp only [Option.some.injEq, Prod.mk.injEq] at h
    obtain ⟨rfl, rfl⟩ := h
    simp
  | case3 => simp at h
  | case4 d ds _ ih =>
    obtain ⟨found, hf, heq⟩ := Option.map_eq_some_iff.1 h
    simp only [StringBody.cons, Prod.mk.injEq] at heq
    obtain ⟨rfl, rfl⟩ := heq
    simp [ih hf]
  | case5 c cs _ _ ih =>
    obtain ⟨found, hf, heq⟩ := Option.map_eq_some_iff.1 h
    simp only [StringBody.cons, Prod.mk.injEq] at heq
    obtain ⟨rfl, rfl⟩ := heq
    simp [ih hf]

theorem readSymbol?_append {c : Char} {cs written rest : List Char} {s : Symbol}
    (h : readSymbol? c cs = some (s, written, rest)) : written ++ rest = c :: cs ∧ written ≠ [] := by
  cases cs with
  | nil =>
    obtain ⟨_, _, heq⟩ := Option.map_eq_some_iff.1 h
    simp only [Prod.mk.injEq] at heq
    simp [← heq.2.1, ← heq.2.2]
  | cons d ds =>
    simp only [readSymbol?] at h
    split at h
    · simp only [Option.some.injEq, Prod.mk.injEq] at h
      simp [← h.2.1, ← h.2.2]
    · obtain ⟨_, _, heq⟩ := Option.map_eq_some_iff.1 h
      simp only [Prod.mk.injEq] at heq
      simp [← heq.2.1, ← heq.2.2]

/-- A token takes at least one character, and nothing is lost. -/
theorem readToken_append {afterDot : Bool} {c : Char} {cs rest : List Char} {lexeme : Lexeme}
    (h : readToken afterDot c cs = .ok (lexeme, rest)) :
    lexeme.written ++ rest = c :: cs ∧ lexeme.written ≠ [] := by
  unfold readToken at h
  split at h
  · next hs =>
    simp only [Except.ok.injEq, Prod.mk.injEq] at h
    obtain ⟨rfl, rfl⟩ := h
    exact readSymbol?_append hs
  split at h
  · next hq =>
    unfold readQuoted at h
    split at h
    · next hs =>
      simp only [Except.ok.injEq, Prod.mk.injEq] at h
      obtain ⟨rfl, rfl⟩ := h
      simp [readString?_append hs, Quote.eq_char_of_ofChar? hq]
    · contradiction
  split at h
  · next hd =>
    simp only at h
    split at h
    · simp only [Except.ok.injEq, Prod.mk.injEq] at h
      obtain ⟨rfl, rfl⟩ := h
      exact ⟨numberSpan_append afterDot (c :: cs), numberSpan_ne_nil hd afterDot cs⟩
    · contradiction
  split at h
  · simp only [Except.ok.injEq, Prod.mk.injEq] at h
    obtain ⟨rfl, rfl⟩ := h
    simp
  · contradiction

structure Lexer where
  rest : List Char
  /-- Byte offset of `rest`. -/
  position : Nat
  /-- Was the last token a dot? -/
  afterDot : Bool
deriving DecidableEq, Repr

namespace Lexer

def ofSource (source : String) (offset : Nat) : Lexer := ⟨source.toList, offset, false⟩

/-- Passes over white space. -/
def skipSpace (l : Lexer) : Lexer :=
  { l with
    rest := l.rest.dropWhile Text.isSpace
    position := l.position + Text.byteLength (l.rest.takeWhile Text.isSpace) }

/-- The next token, or none at the end. A token that cannot be read is not passed. -/
def next (l : Lexer) : Except Error (Option Placed) × Lexer :=
  let start := l.skipSpace
  match start.rest with
  | [] => (.ok none, { start with afterDot := false })
  | c :: cs =>
    match readToken l.afterDot c cs with
    | .ok (lexeme, rest) =>
      (.ok (some ⟨lexeme.token, start.position⟩),
        { rest
          position := start.position + Text.byteLength lexeme.written
          afterDot := lexeme.token == .symbol .dot })
    | .error fault => (.error (.lex fault start.position), { start with afterDot := false })

theorem length_skipSpace (l : Lexer) : l.skipSpace.rest.length ≤ l.rest.length :=
  (List.dropWhile_suffix _).length_le

theorem length_next {l more : Lexer} {placed : Placed} (h : l.next = (.ok (some placed), more)) :
    more.rest.length < l.rest.length := by
  have skip := length_skipSpace l
  unfold next at h
  simp only at h
  split at h
  · simp at h
  · next c cs hrest =>
    rw [hrest] at skip
    split at h
    · next hread =>
      obtain ⟨whole, nonempty⟩ := readToken_append hread
      simp only [Prod.mk.injEq] at h
      rw [← h.2]
      have := congrArg List.length whole
      have := List.length_pos_iff.2 nonempty
      simp only [List.length_append, List.length_cons] at *
      omega
    · simp at h

/-- All tokens to the end. -/
def tokens (l : Lexer) : Except Error (List Placed) :=
  match _hnext : l.next with
  | (.error e, _) => .error e
  | (.ok none, _) => .ok []
  | (.ok (some placed), more) => more.tokens.map (placed :: ·)
termination_by l.rest.length
decreasing_by exact length_next _hnext

end Lexer

/-- The tokens of the inside of a tag that starts at byte `offset`. -/
def tokenize (source : String) (offset : Nat) : Except Error (List Placed) :=
  (Lexer.ofSource source offset).tokens

end Stencil
