import Stencil.Proofs.Number.Text

/-! How far the lexer comes in a text: to the end, to a character that begins no token, or to a string
literal that is never closed. -/
namespace Stencil

variable {afterDot : Bool} {c d : Char} {cs rest before behind : List Char} {lexeme : Lexeme}
  {fault : LexFault}

namespace Numeral

variable {tail : List Char}

theorem digits_takeWhile (cs : List Char) : Digits (cs.takeWhile Char.isDigit) :=
  fun c member => List.all_eq_true.1 List.all_takeWhile c member

/-- Begins with the mark of an exponent, if it is not empty. -/
def BeginsExponent (cs : List Char) : Prop := ∀ c ∈ cs.head?, c = 'e' ∨ c = 'E'

theorem BeginsExponent.not_digit (marked : BeginsExponent tail) :
    ∀ c ∈ tail.head?, c.isDigit = false := by
  intro c first
  rcases marked c first with rfl | rfl <;> rfl

theorem beginsExponent_exponentSpan (cs : List Char) : BeginsExponent (exponentSpan cs).1 := by
  intro c first
  unfold exponentSpan at first
  split at first
  · cases first
  · simp only at first
    split at first
    · next valid =>
      cases first
      simp only [Bool.and_eq_true, Bool.or_eq_true, decide_eq_true_eq] at valid
      exact valid.1
    · cases first

theorem fractionOfChars_fractionSpan (cs : List Char) (marked : BeginsExponent tail) :
    (Decimal.fractionOfChars ((fractionSpan cs).1 ++ tail)).2 = tail := by
  have no_fraction : (Decimal.fractionOfChars tail).2 = tail := by
    unfold Decimal.fractionOfChars
    split
    · rcases marked '.' rfl with mark | mark <;> cases mark
    · rfl
  unfold fractionSpan
  split
  · split
    · exact no_fraction
    · exact ((digits_takeWhile _).span marked.not_digit).2
  · exact no_fraction

theorem signed_signSpan {ds : List Char} (digits : Digits ds) (cs : List Char) :
    (Decimal.signed ((signSpan cs).1 ++ ds)).2 = ds := by
  unfold signSpan
  split
  · rfl
  · rfl
  · rw [List.nil_append]
    unfold Decimal.signed
    split
    · cases digits '-' (by simp)
    · cases digits '+' (by simp)
    · rfl

theorem exists_exponentOfChars? (cs : List Char) :
    ∃ exponent, Decimal.exponentOfChars? (exponentSpan cs).1 = some exponent := by
  unfold exponentSpan
  split
  · exact ⟨0, rfl⟩
  · next mark cs =>
    simp only
    split
    · next valid =>
      have digits := digits_takeWhile (signSpan cs).2
      have all : ((signSpan cs).2.takeWhile Char.isDigit).all Char.isDigit := List.all_eq_true.2 digits
      simp only [List.cons_append, Decimal.exponentOfChars?, signed_signSpan digits, all, Bool.and_true,
        valid, if_true]
      exact ⟨_, rfl⟩
    · exact ⟨0, rfl⟩

theorem not_digit_fractionSpan (cs : List Char) (marked : BeginsExponent tail) :
    ∀ c ∈ ((fractionSpan cs).1 ++ tail).head?, c.isDigit = false := by
  unfold fractionSpan
  split
  · split
    · exact marked.not_digit
    · intro c first
      cases first
      rfl
  · exact marked.not_digit

/-- What the lexer takes for a number can be read as one. -/
theorem exists_ofChars?_numberSpan (digit : c.isDigit) (afterDot : Bool) (cs : List Char) :
    ∃ decimal, Decimal.ofChars? (numberSpan afterDot (c :: cs)).1 = some decimal := by
  have nonempty : (c :: cs).takeWhile Char.isDigit ≠ [] := by simp [digit]
  have digits := digits_takeWhile (c :: cs)
  unfold numberSpan
  generalize (c :: cs).takeWhile Char.isDigit = whole at nonempty digits ⊢
  generalize (c :: cs).dropWhile Char.isDigit = behind
  cases afterDot with
  | true =>
    have ends : ∀ c ∈ ([] : List Char).head?, c.isDigit = false := by simp
    obtain ⟨taken, dropped⟩ := digits.span ends
    rw [List.append_nil] at taken dropped
    simp [Decimal.ofChars?, taken, dropped, nonempty, Decimal.fractionOfChars, Decimal.exponentOfChars?]
  | false =>
    have marked := beginsExponent_exponentSpan (fractionSpan behind).2
    obtain ⟨taken, dropped⟩ := digits.span (not_digit_fractionSpan behind marked)
    obtain ⟨exponent, read⟩ := exists_exponentOfChars? (fractionSpan behind).2
    have fraction := fractionOfChars_fractionSpan behind marked
    simp [Decimal.ofChars?, taken, dropped, nonempty, fraction, read]

end Numeral

/-- Only a string literal without an end and a character that begins no token cannot be read. -/
theorem readToken_error (failed : readToken afterDot c cs = .error fault) :
    (∃ quote, c = quote.char ∧ readString? quote cs = none ∧ fault = .unterminatedString) ∨
      fault = .unexpected c := by
  unfold readToken at failed
  split at failed
  · cases failed
  split at failed
  · next quote quoted =>
    unfold readQuoted at failed
    split at failed
    · cases failed
    · next unclosed =>
      cases failed
      exact .inl ⟨quote, Quote.eq_char_of_ofChar? quoted, unclosed, rfl⟩
  split at failed
  · next digit =>
    obtain ⟨decimal, valid⟩ := Numeral.exists_ofChars?_numberSpan digit afterDot cs
    simp [valid] at failed
  split at failed
  · cases failed
  · cases failed
    exact .inr rfl

namespace Lexer

variable {l m more : Lexer} {ts : List Placed} {placed : Placed} {position : Nat}

/-- What is passed stands in front of what is left. -/
theorem Reads.exists_append (reads : l.Reads ts m) :
    ∃ passed, l.rest = passed ++ m.rest ∧ m.position = l.position + Text.byteLength passed := by
  induction reads with
  | start => exact ⟨[], rfl, rfl⟩
  | @space _ c _ _ _ _ _ ih =>
    obtain ⟨passed, whole, place⟩ := ih
    exact ⟨passed ++ [c], by simp [whole], by simp [← Nat.add_assoc, ← place]⟩
  | @token _ _ _ _ _ _ lexeme _ _ read ih =>
    obtain ⟨passed, whole, place⟩ := ih
    refine ⟨passed ++ lexeme.written, ?_, by simp [← Nat.add_assoc, ← place]⟩
    rw [List.append_assoc, (readToken_append read).1, whole]

/-- The character `d` at byte `place`, with `behind` behind it, is one of those that write a token of
`l`. -/
def Consumes (l : Lexer) (d : Char) (behind : List Char) (place : Nat) : Prop :=
  ∃ ts c cs start afterDot lexeme rest front inside, l.Reads ts ⟨c :: cs, start, afterDot⟩ ∧
    Text.isSpace c = false ∧ readToken afterDot c cs = .ok (lexeme, rest) ∧
    lexeme.written = front ++ d :: inside ∧ behind = inside ++ rest ∧
    start + Text.byteLength front = place

theorem Reads.passes (reads : l.Reads ts m) (visible : Text.isSpace d = false)
    (whole : l.rest = before ++ d :: behind) :
    (∃ front, m.rest = front ++ d :: behind ∧
      m.position + Text.byteLength front = l.position + Text.byteLength before) ∨
    l.Consumes d behind (l.position + Text.byteLength before) := by
  induction reads with
  | start => exact .inl ⟨before, whole, rfl⟩
  | space _ space ih =>
    obtain ⟨front, same, place⟩ | consumes := ih
    · cases front with
      | nil =>
        obtain ⟨rfl, -⟩ := List.cons.inj same
        simp [space] at visible
      | cons x front =>
        obtain ⟨rfl, rfl⟩ := List.cons.inj same
        exact .inl ⟨front, rfl, by simpa [Nat.add_assoc] using place⟩
    · exact .inr consumes
  | @token ts c cs rest start afterDot lexeme reads first read ih =>
    obtain ⟨front, same, place⟩ | consumes := ih
    · have append := (readToken_append read).1.trans same
      obtain ⟨later, rfl, rfl⟩ | ⟨later, written, split⟩ := List.append_eq_append_iff.1 append
      · exact .inl ⟨later, rfl, by simpa [Nat.add_assoc] using place⟩
      cases later with
      | nil =>
        rw [List.append_nil] at written
        exact .inl ⟨[], split.symm, by simpa [written] using place⟩
      | cons x inside =>
        obtain ⟨rfl, rest⟩ := List.cons.inj split
        exact .inr ⟨ts, c, cs, start, afterDot, lexeme, _, front, inside, reads, first, read, written,
          rest, place⟩
    · exact .inr consumes

/-- A character that is no white space is one of those that write a token, or the lexer stops in front
of it or of a text before it. -/
theorem consumes_or_stopsAt (visible : Text.isSpace d = false)
    (whole : l.rest = before ++ d :: behind) :
    l.Consumes d behind (l.position + Text.byteLength before) ∨
    ∃ c cs position fault front, l.StopsAt c cs position fault ∧ c :: cs = front ++ d :: behind ∧
      position + Text.byteLength front = l.position + Text.byteLength before := by
  obtain ⟨ts, m, reads, ends, -⟩ | ⟨c, cs, position, fault, stops⟩ := exists_end_or_stop l
  · obtain ⟨front, same, -⟩ | consumes := reads.passes visible whole
    · simp [ends] at same
    · exact .inl consumes
  · obtain ⟨ts, afterDot, reads, first, failed⟩ := stops
    obtain ⟨front, same, place⟩ | consumes := reads.passes visible whole
    · exact .inr ⟨c, cs, position, fault, front, ⟨ts, afterDot, reads, first, failed⟩, same, place⟩
    · exact .inl consumes

end Lexer

end Stencil
