import Stencil.Proofs.Token.Spelling

/-! Texts that spell tokens, put together: what a separator stands in front of is read as if nothing
followed it. -/
namespace Stencil

variable {afterDot : Bool} {c : Char} {cs ds rest : List Char} {t : Token} {ts us : List Token}
  {lexeme : Lexeme}

/-- Characters that end a name, a number and a symbol in front of them. -/
def separators : List Char := [' ', '(', ')', '[', ']', '\x7b', '\x7d', ',', ':']

/-- A text that begins with a separator, if it is not empty. -/
def Separated (cs : List Char) : Prop := ∀ c ∈ cs.head?, c ∈ separators

theorem separated_cons (h : c ∈ separators) : Separated (c :: cs) := by simpa [Separated] using h

variable {tail : List Char}

theorem Separated.not {p : Char → Bool} (separated : Separated tail)
    (none : separators.any p = false) : ∀ c ∈ tail.head?, p c = false := by
  intro c first
  simpa using List.any_eq_false.1 none c (separated c first)

/-- A separator is no part of a longer symbol. -/
theorem ofPair?_separator (member : c ∈ separators) (d : Char) :
    Symbol.ofPair? c d = none ∧ Symbol.ofPair? d c = none := by
  simp only [separators, List.mem_cons, List.not_mem_nil, or_false] at member
  rcases member with rfl | rfl | rfl | rfl | rfl | rfl | rfl | rfl | rfl <;> simp [Symbol.ofPair?]

/-- A text that goes on with no token in front of it: it begins with no part of a name or a number, and
not with the second character of a symbol. -/
structure Apart (cs : List Char) : Prop where
  name : ∀ c ∈ cs.head?, isNamePart c = false
  number : ∀ c ∈ cs.head?, isNumberPart c = false
  symbol : ∀ c ∈ cs.head?, ∀ d, Symbol.ofPair? d c = none

theorem Separated.apart (separated : Separated tail) : Apart tail where
  name := separated.not (by decide)
  number := separated.not (by decide)
  symbol := fun c first d => (ofPair?_separator (separated c first) d).2

theorem Apart.not_digit (apart : Apart tail) : ∀ c ∈ tail.head?, c.isDigit = false := by
  intro c first
  have no_part := apart.number c first
  simp only [isNumberPart, Bool.or_eq_false_iff] at no_part
  exact no_part.1

theorem Apart.ne {d : Char} (apart : Apart (c :: tail)) (part : isNumberPart d) : c ≠ d := by
  rintro rfl
  rw [apart.number c rfl] at part
  cases part

theorem takeWhile_append {p : Char → Bool} (cs : List Char)
    (ends : ∀ c ∈ tail.head?, p c = false) :
    (cs ++ tail).takeWhile p = cs.takeWhile p ∧
      (cs ++ tail).dropWhile p = cs.dropWhile p ++ tail := by
  induction cs with
  | nil =>
    cases tail with
    | nil => simp
    | cons c tail =>
      have stops : p c = false := ends c rfl
      simp [stops]
  | cons c cs ih => by_cases h : p c <;> simp [h, ih]

theorem fractionSpan_apart (apart : Apart tail) :
    fractionSpan (cs ++ tail) = ((fractionSpan cs).1, (fractionSpan cs).2 ++ tail) := by
  cases cs with
  | nil =>
    cases tail with
    | nil => rfl
    | cons c tail => simp [fractionSpan, apart.ne (d := '.') (by decide)]
  | cons c cs =>
    by_cases dot : c = '.'
    · subst dot
      have ⟨taken, dropped⟩ := takeWhile_append cs apart.not_digit
      simp only [List.cons_append, fractionSpan, taken, dropped]
      split <;> rfl
    · simp [fractionSpan, dot]

theorem signSpan_apart (apart : Apart tail) :
    signSpan (cs ++ tail) = ((signSpan cs).1, (signSpan cs).2 ++ tail) := by
  cases cs with
  | nil =>
    cases tail with
    | nil => rfl
    | cons c tail =>
      simp [signSpan, apart.ne (d := '+') (by decide), apart.ne (d := '-') (by decide)]
  | cons c cs =>
    by_cases plus : c = '+'
    · subst plus
      rfl
    by_cases minus : c = '-'
    · subst minus
      rfl
    simp [signSpan, plus, minus]

theorem exponentSpan_apart (apart : Apart tail) :
    exponentSpan (cs ++ tail) = ((exponentSpan cs).1, (exponentSpan cs).2 ++ tail) := by
  cases cs with
  | nil =>
    cases tail with
    | nil => rfl
    | cons c tail =>
      simp [exponentSpan, apart.ne (d := 'e') (by decide), apart.ne (d := 'E') (by decide)]
  | cons c cs =>
    have ⟨taken, dropped⟩ := takeWhile_append (signSpan cs).2 apart.not_digit
    simp only [List.cons_append, exponentSpan, signSpan_apart apart, taken, dropped]
    split <;> rfl

theorem numberSpan_apart (apart : Apart tail) :
    numberSpan afterDot (cs ++ tail) =
      ((numberSpan afterDot cs).1, (numberSpan afterDot cs).2 ++ tail) := by
  have ⟨taken, dropped⟩ := takeWhile_append cs apart.not_digit
  simp only [numberSpan, taken, dropped, fractionSpan_apart apart, exponentSpan_apart apart]
  split <;> rfl

theorem readString?_quote (quote : Quote) (cs : List Char) :
    readString? quote (quote.char :: cs) = some (⟨[], [quote.char]⟩, cs) := by
  rw [readString?.eq_def]
  simp

theorem readString?_escape (quote : Quote) (d : Char) (cs : List Char) :
    readString? quote ('\\' :: d :: cs) =
      (readString? quote cs).map (StringBody.cons (unescape d) ['\\', d]) := by
  have no_quote : '\\' ≠ quote.char := by cases quote <;> decide
  rw [readString?.eq_def]
  simp [no_quote]

theorem readString?_plain {quote : Quote} (no_quote : c ≠ quote.char) (no_escape : c ≠ '\\')
    (cs : List Char) :
    readString? quote (c :: cs) = (readString? quote cs).map (StringBody.cons c [c]) := by
  rw [readString?.eq_def]
  simp [no_quote, no_escape]

theorem readString?_of_append {quote : Quote} {body : StringBody}
    (h : readString? quote cs = some (body, rest)) (tail : List Char) :
    readString? quote (cs ++ tail) = some (body, rest ++ tail) := by
  fun_induction readString? quote cs generalizing body with
  | case1 => simp at h
  | case2 =>
    cases h
    exact readString?_quote quote (rest ++ tail)
  | case3 => simp at h
  | case4 d ds _ ih =>
    obtain ⟨⟨found, behind⟩, inner, whole⟩ := Option.map_eq_some_iff.1 h
    cases whole
    rw [List.cons_append, List.cons_append, readString?_escape, ih inner]
    rfl
  | case5 c cs no_quote no_escape ih =>
    obtain ⟨⟨found, behind⟩, inner, whole⟩ := Option.map_eq_some_iff.1 h
    cases whole
    rw [List.cons_append, readString?_plain no_quote no_escape, ih inner]
    rfl

theorem readQuoted_of_append {quote : Quote} (h : readQuoted quote cs = .ok (lexeme, rest))
    (tail : List Char) : readQuoted quote (cs ++ tail) = .ok (lexeme, rest ++ tail) := by
  unfold readQuoted at h ⊢
  split at h
  · next body behind found =>
    cases h
    rw [readString?_of_append found tail]
  · cases h

theorem readSymbol?_apart (apart : Apart tail) :
    readSymbol? c (cs ++ tail) =
      (readSymbol? c cs).map fun (s, written, rest) => (s, written, rest ++ tail) := by
  cases cs with
  | nil =>
    cases tail with
    | nil => simp [readSymbol?, Function.comp_def]
    | cons d tail =>
      simp [readSymbol?, apart.symbol d rfl c, Function.comp_def]
  | cons d cs =>
    simp only [List.cons_append, readSymbol?]
    split <;> simp [Function.comp_def]

/-- A token is read alike when a text that does not go on with it is put behind it. -/
theorem readToken_apart (read : readToken afterDot c cs = .ok (lexeme, rest)) (apart : Apart tail) :
    readToken afterDot c (cs ++ tail) = .ok (lexeme, rest ++ tail) := by
  have ⟨taken, dropped⟩ := takeWhile_append cs apart.name
  unfold readToken at read ⊢
  rw [readSymbol?_apart apart]
  cases symbol : readSymbol? c cs with
  | some found =>
    simp only [symbol] at read
    cases read
    rfl
  | none =>
    simp only [symbol] at read
    simp only [Option.map_none]
    cases quoted : Quote.ofChar? c with
    | some quote =>
      simp only [quoted] at read
      exact readQuoted_of_append read tail
    | none =>
      simp only [quoted] at read
      by_cases digit : c.isDigit
      · simp only [digit, if_true] at read ⊢
        rw [← List.cons_append, numberSpan_apart apart]
        split at read
        · next decimal valid =>
          cases read
          simp only [valid]
        · cases read
      · simp only [digit] at read ⊢
        by_cases name : isNameStart c
        · simp only [name, if_true] at read ⊢
          cases read
          simp [taken, dropped]
        · simp [name] at read

/-- Is what follows `ts` directly after a dot? -/
def endsInDot (afterDot : Bool) (ts : List Token) : Bool :=
  ts.foldl (fun _ t => t.isDot) afterDot

theorem Spells.append (spells : Spells afterDot cs ts)
    (more : Spells (endsInDot afterDot ts) tail us) (separated : Separated tail) :
    Spells afterDot (cs ++ tail) (ts ++ us) := by
  induction spells with
  | nil => exact more
  | space space _ ih => exact .space space (ih more)
  | token visible read _ ih =>
    exact .token visible (readToken_apart read separated.apart) (ih more)

/-- A symbol that begins no longer one. -/
theorem Spells.symbol {s : Symbol} (single : ∀ d, Symbol.ofPair? c d = none)
    (writes : Symbol.ofChar? c = some s)
    (spells : Spells (Token.symbol s).isDot cs ts) :
    Spells afterDot (c :: cs) (.symbol s :: ts) := by
  have read : readSymbol? c cs = some (s, [c], cs) := by
    cases cs with
    | nil => simp [readSymbol?, writes]
    | cons d cs => simp [readSymbol?, writes, single]
  have visible : Text.isSpace c = false := by
    unfold Symbol.ofChar? at writes
    split at writes <;> first | decide | cases writes
  have token : readToken afterDot c cs = .ok (⟨.symbol s, [c]⟩, cs) := by simp [readToken, read]
  exact .token visible token spells

theorem Spells.blank (spells : Spells afterDot cs ts) : Spells afterDot (' ' :: cs) ts :=
  .space (by decide) spells

theorem Spells.space_append (first : Spells afterDot cs ts) (no_dot : endsInDot afterDot ts = false)
    (second : Spells false ds us) : Spells afterDot (cs ++ ' ' :: ds) (ts ++ us) := by
  have spaced : Spells (endsInDot afterDot ts) (' ' :: ds) us := no_dot ▸ second.blank
  exact first.append spaced (separated_cons (by decide))

theorem Spells.space_end (spells : Spells afterDot cs ts) : Spells afterDot (cs ++ [' ']) ts := by
  have spaced : Spells (endsInDot afterDot ts) [' '] [] := Spells.nil.blank
  simpa using spells.append spaced (separated_cons (by decide))

theorem not_isDot_of_separator {s : Symbol} (member : c ∈ separators)
    (writes : Symbol.ofChar? c = some s) : (Token.symbol s).isDot = false := by
  have no_dot : c ≠ '.' := by
    rintro rfl
    simp [separators] at member
  unfold Symbol.ofChar? at writes
  split at writes <;> first | contradiction | (cases writes; rfl)

/-- A separator ends what stands before it, and nothing that stands behind it belongs to it. -/
theorem Spells.separator {s : Symbol} (spells : Spells afterDot cs ts)
    (member : c ∈ separators) (writes : Symbol.ofChar? c = some s) (rest : Spells false ds us) :
    Spells afterDot (cs ++ c :: ds) (ts ++ .symbol s :: us) := by
  have no_dot := not_isDot_of_separator member writes
  have more : Spells (endsInDot afterDot ts) (c :: ds) (.symbol s :: us) :=
    .symbol (fun d => (ofPair?_separator member d).1) writes (no_dot ▸ rest)
  exact spells.append more (separated_cons member)

theorem Spells.comma (first : Spells afterDot cs ts) (second : Spells false ds us) :
    Spells afterDot (cs ++ ',' :: ' ' :: ds) (ts ++ .symbol .comma :: us) :=
  first.separator (by decide) rfl second.blank

theorem Spells.bracketed {d : Char} {first last : Symbol} (spells : Spells false cs ts)
    (opens : c ∈ separators) (opener : Symbol.ofChar? c = some first)
    (closes : d ∈ separators) (closer : Symbol.ofChar? d = some last) (rest : Spells false ds us) :
    Spells afterDot (c :: cs ++ d :: ds) (.symbol first :: ts ++ .symbol last :: us) := by
  have inner := spells.separator closes closer rest
  exact Spells.nil.separator opens opener inner

end Stencil
