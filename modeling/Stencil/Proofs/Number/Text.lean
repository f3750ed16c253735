import Stencil.Number.Layout
import Stencil.Proofs.Number.Decimal
import Stencil.Proofs.Token.Separated

/-! The canonical text of a finite number is a number literal that is read as that number. -/
namespace Stencil

open Number

/-- A number literal, taken apart. It has a point if it has digits behind it; `true` is the sign of
a negative exponent. -/
structure Numeral where
  whole : List Char
  fraction : List Char
  exponent : Option (Bool × List Char)

namespace Numeral

variable {l : Numeral} {cs tail : List Char}

def fractionPart (l : Numeral) : List Char := if l.fraction = [] then [] else '.' :: l.fraction

def exponentPart (l : Numeral) : List Char :=
  match l.exponent with
  | none => []
  | some (negative, ds) => 'e' :: (if negative then '-' else '+') :: ds

def chars (l : Numeral) : List Char := l.whole ++ (l.fractionPart ++ l.exponentPart)

def exponentValue (l : Numeral) : Int :=
  match l.exponent with
  | none => 0
  | some (negative, ds) => if negative then -Text.ofDigits ds else Text.ofDigits ds

def decimal (l : Numeral) : Decimal :=
  ⟨Text.ofDigits (l.whole ++ l.fraction), l.exponentValue - l.fraction.length⟩

def Digits (cs : List Char) : Prop := ∀ c ∈ cs, c.isDigit

structure Valid (l : Numeral) : Prop where
  nonempty : l.whole ≠ []
  whole : Digits l.whole
  fraction : Digits l.fraction
  exponent : ∀ negative ds, l.exponent = some (negative, ds) → ds ≠ [] ∧ Digits ds

theorem Digits.span (digits : Digits cs) (ends : ∀ c ∈ tail.head?, c.isDigit = false) :
    (cs ++ tail).takeWhile Char.isDigit = cs ∧ (cs ++ tail).dropWhile Char.isDigit = tail := by
  obtain ⟨taken, dropped⟩ := takeWhile_append cs ends
  rw [taken, dropped, List.takeWhile_eq_self_iff.2 digits, List.dropWhile_eq_nil_iff.2 digits]
  exact ⟨rfl, rfl⟩

theorem exponentPart_head? : ∀ c ∈ l.exponentPart.head?, c = 'e' := by
  unfold exponentPart
  split <;> simp

theorem not_digit_of_exponentPart : ∀ c ∈ l.exponentPart.head?, c.isDigit = false := by
  intro c first
  rw [exponentPart_head? c first]
  rfl

theorem not_digit_of_fractionPart :
    ∀ c ∈ (l.fractionPart ++ l.exponentPart).head?, c.isDigit = false := by
  unfold fractionPart
  split
  · exact not_digit_of_exponentPart
  · intro c first
    obtain rfl : '.' = c := by simpa using first
    rfl

theorem fractionSpan_numeral (valid : l.Valid) :
    fractionSpan (l.fractionPart ++ l.exponentPart) = (l.fractionPart, l.exponentPart) := by
  obtain ⟨taken, dropped⟩ := valid.fraction.span (not_digit_of_exponentPart (l := l))
  by_cases none : l.fraction = []
  · have no_point : l.fractionPart = [] := by simp [fractionPart, none]
    rw [no_point, List.nil_append]
    unfold fractionSpan
    split
    · next rest whole =>
      have first := exponentPart_head? (l := l) '.' (by simp [whole])
      cases first
    · rfl
  · simp [fractionPart, none, fractionSpan, taken, dropped]

theorem exponentSpan_numeral (valid : l.Valid) :
    exponentSpan l.exponentPart = (l.exponentPart, []) := by
  cases exponent : l.exponent with
  | none =>
    simp [exponentPart, exponent, exponentSpan]
  | some power =>
    obtain ⟨negative, ds⟩ := power
    obtain ⟨nonempty, digits⟩ := valid.exponent negative ds exponent
    have ends : ∀ c ∈ ([] : List Char).head?, c.isDigit = false := by simp
    obtain ⟨taken, dropped⟩ := digits.span ends
    rw [List.append_nil] at taken dropped
    cases negative <;> simp [exponentPart, exponent, exponentSpan, signSpan, taken, dropped, nonempty]

theorem numberSpan_numeral (valid : l.Valid) : numberSpan false l.chars = (l.chars, []) := by
  obtain ⟨taken, dropped⟩ := valid.whole.span (not_digit_of_fractionPart (l := l))
  simp [numberSpan, chars, taken, dropped, fractionSpan_numeral valid, exponentSpan_numeral valid]

theorem fractionOfChars_numeral (valid : l.Valid) :
    Decimal.fractionOfChars (l.fractionPart ++ l.exponentPart) = (l.fraction, l.exponentPart) := by
  obtain ⟨taken, dropped⟩ := valid.fraction.span (not_digit_of_exponentPart (l := l))
  by_cases none : l.fraction = []
  · have no_point : l.fractionPart = [] := by simp [fractionPart, none]
    rw [no_point, List.nil_append, none]
    unfold Decimal.fractionOfChars
    split
    · next rest whole =>
      have first := exponentPart_head? (l := l) '.' (by simp [whole])
      cases first
    · rfl
  · simp [fractionPart, none, Decimal.fractionOfChars, taken, dropped]

theorem exponentOfChars?_numeral (valid : l.Valid) :
    Decimal.exponentOfChars? l.exponentPart = some l.exponentValue := by
  cases exponent : l.exponent with
  | none => simp [exponentPart, exponentValue, exponent, Decimal.exponentOfChars?]
  | some power =>
    obtain ⟨negative, ds⟩ := power
    obtain ⟨nonempty, digits⟩ := valid.exponent negative ds exponent
    have all : ds.all Char.isDigit = true := List.all_eq_true.2 digits
    cases negative <;>
      simp [exponentPart, exponentValue, exponent, Decimal.exponentOfChars?, Decimal.signed,
        nonempty, all]

theorem ofChars?_numeral (valid : l.Valid) : Decimal.ofChars? l.chars = some l.decimal := by
  obtain ⟨taken, dropped⟩ := valid.whole.span (not_digit_of_fractionPart (l := l))
  simp [Decimal.ofChars?, chars, taken, dropped, fractionOfChars_numeral valid,
    exponentOfChars?_numeral valid, valid.nonempty, decimal]

theorem ofDigits_append_zeros (cs : List Char) (k : Nat) :
    Text.ofDigits (cs ++ List.replicate k '0') = 10 ^ k * Text.ofDigits cs := by
  change Nat.ofDigitChars 10 (cs ++ List.replicate k '0') 0 = _
  rw [Nat.ofDigitChars_append, Nat.ofDigitChars_replicate_zero]
  rfl

theorem ofDigits_zeros_append (cs : List Char) (k : Nat) :
    Text.ofDigits (List.replicate k '0' ++ cs) = Text.ofDigits cs := by
  change Nat.ofDigitChars 10 (List.replicate k '0' ++ cs) 0 = _
  rw [Nat.ofDigitChars_append, Nat.ofDigitChars_replicate_zero]
  rfl

variable (d : Decimal)

theorem digits_digits : Digits d.digits :=
  fun _ member => Nat.isDigit_of_mem_toDigits (by decide) (by decide) member

theorem digits_zeros (k : Nat) : Digits (List.replicate k '0') := by
  intro c member
  rw [List.eq_of_mem_replicate member]
  rfl

theorem ofDigits_digits : Text.ofDigits d.digits = d.coefficient :=
  Nat.ofDigitChars_ten_toDigits

/-- How the canonical layout sets a decimal. -/
def ofDecimal (d : Decimal) : Numeral :=
  if Layout.canonical.isPlain d.point then
    if d.digits.length ≤ d.point then
      ⟨d.digits ++ List.replicate (d.point - d.digits.length).toNat '0', [], none⟩
    else if 0 < d.point then ⟨d.digits.take d.point.toNat, d.digits.drop d.point.toNat, none⟩
    else ⟨['0'], List.replicate (-d.point).toNat '0' ++ d.digits, none⟩
  else
    ⟨d.digits.take 1, d.digits.drop 1,
      some (decide (d.point - 1 < 0), Nat.toDigits 10 (d.point - 1).natAbs)⟩

theorem toList_sign (exponent : Int) :
    (if 0 ≤ exponent then Layout.canonical.plus else "-").toList =
      [if exponent < 0 then '-' else '+'] := by
  by_cases negative : exponent < 0
  · rw [if_neg (by omega), if_pos negative]
    rfl
  · rw [if_pos (by omega), if_neg negative]
    rfl

theorem toList_decimal : (Layout.canonical.decimal d).toList = (ofDecimal d).chars := by
  unfold Layout.decimal ofDecimal
  by_cases plain : Layout.canonical.isPlain d.point
  · simp only [plain, if_true]
    by_cases short : d.digits.length ≤ d.point
    · simp only [short, if_true]
      simp [chars, fractionPart, exponentPart, Layout.zeros, Layout.canonical]
    · simp only [short, if_false]
      by_cases positive : 0 < d.point
      · have rest : ¬ d.digits.drop d.point.toNat = [] := by
          rw [List.drop_eq_nil_iff]
          omega
        simp only [positive, if_true]
        simp [chars, fractionPart, exponentPart, rest]
      · have digits : d.digits ≠ [] := Nat.toDigits_ne_nil
        simp only [positive, if_false]
        simp [chars, fractionPart, exponentPart, Layout.zeros, digits]
  · simp only [plain, Bool.false_eq_true, if_false]
    generalize d.point - 1 = k
    by_cases single : d.digits.drop 1 = []
    · simp only [single, List.isEmpty_nil, if_true, String.toList_append, toList_sign]
      simp [chars, fractionPart, exponentPart]
    · have more : (d.digits.drop 1).isEmpty = false := by simpa using single
      have rest : ¬ d.digits.tail = [] := by simpa using single
      simp only [more, Bool.false_eq_true, if_false, String.toList_append, toList_sign]
      simp [chars, fractionPart, exponentPart, rest]

theorem Digits.take {cs : List Char} (digits : Digits cs) (k : Nat) : Digits (cs.take k) :=
  fun c member => digits c (List.mem_of_mem_take member)

theorem Digits.drop {cs : List Char} (digits : Digits cs) (k : Nat) : Digits (cs.drop k) :=
  fun c member => digits c (List.mem_of_mem_drop member)

theorem Digits.append {cs ds : List Char} (first : Digits cs) (second : Digits ds) :
    Digits (cs ++ ds) := by
  intro c member
  rcases List.mem_append.1 member with left | right
  · exact first c left
  · exact second c right

theorem valid_ofDecimal : (ofDecimal d).Valid := by
  have digits := digits_digits d
  have nonempty : d.digits ≠ [] := Nat.toDigits_ne_nil
  have none : Digits [] := by simp [Digits]
  unfold ofDecimal
  split
  · split
    · exact ⟨by simp [nonempty], digits.append (digits_zeros _), none, by simp⟩
    · split
      · exact ⟨by simp [nonempty]; omega, digits.take _, digits.drop _, by simp⟩
      · exact ⟨by simp, by simp [Digits], (digits_zeros _).append digits, by simp⟩
  · refine ⟨by simp [nonempty], digits.take _, digits.drop _, ?_⟩
    intro negative ds same
    simp only [Option.some.injEq, Prod.mk.injEq] at same
    obtain ⟨-, rfl⟩ := same
    exact ⟨Nat.toDigits_ne_nil,
      fun _ member => Nat.isDigit_of_mem_toDigits (by decide) (by decide) member⟩

/-- When no digits are added, the literal is the decimal itself. -/
theorem decimal_eq (digits : l.whole ++ l.fraction = d.digits)
    (exponent : l.exponentValue - l.fraction.length = d.exponent) : l.decimal = d := by
  rw [decimal, digits, exponent, ofDigits_digits]

theorem ofDigits_padded (zeros : Nat) :
    Text.ofDigits ('0' :: (List.replicate zeros '0' ++ d.digits)) = d.coefficient := by
  have more := ofDigits_zeros_append d.digits (zeros + 1)
  rwa [List.replicate_succ, ofDigits_digits] at more

theorem ofDigits_natAbs (k : Int) :
    (if decide (k < 0) = true then -(Text.ofDigits (Nat.toDigits 10 k.natAbs) : Int)
      else Text.ofDigits (Nat.toDigits 10 k.natAbs)) = k := by
  have value : Text.ofDigits (Nat.toDigits 10 k.natAbs) = k.natAbs := Nat.ofDigitChars_ten_toDigits
  rw [value]
  simp only [decide_eq_true_eq]
  split <;> omega

theorem value_ofDecimal : (ofDecimal d).decimal.value = d.value := by
  have count : (d.digits.length : Int) + d.exponent = d.point := rfl
  have length : 0 < d.digits.length := Nat.length_toDigits_pos
  unfold ofDecimal
  split
  · split
    · next short =>
      obtain ⟨k, exponent⟩ : ∃ k : Nat, d.exponent = k := ⟨d.exponent.toNat, by omega⟩
      have added : (d.point - d.digits.length).toNat = k := by omega
      simp only [decimal, exponentValue, added, List.append_nil, ofDigits_append_zeros,
        ofDigits_digits, Decimal.value, exponent]
      simp [mul_comm]
    · next long =>
      split
      · next positive =>
        refine congrArg Decimal.value (decimal_eq d (List.take_append_drop _ d.digits) ?_)
        simp only [exponentValue, List.length_drop]
        omega
      · have exponent : (0 : Int) - (List.replicate (-d.point).toNat '0' ++ d.digits).length =
            d.exponent := by
          rw [List.length_append, List.length_replicate]
          omega
        simp only [decimal, exponentValue, List.singleton_append, ofDigits_padded, exponent]
  · refine congrArg Decimal.value (decimal_eq d (List.take_append_drop 1 d.digits) ?_)
    simp only [exponentValue, ofDigits_natAbs, List.length_drop]
    omega

end Numeral

namespace Number

variable {n : Number}

/-- A number that a literal can write: finite, and neither negative nor a negative zero. -/
def IsWritable (n : Number) : Prop :=
  n.isNegative = false ∧ ∃ m q, n.absolute = .finite m q

theorem exists_numeral (writable : n.IsWritable) :
    ∃ l : Numeral, l.Valid ∧ n.text.toList = l.chars ∧ l.decimal.toNumber false = n := by
  obtain ⟨nonneg, m, q, finite⟩ := writable
  by_cases zero : m = 0
  · subst zero
    have magnitude : n.magnitude = 0 := by
      have fields := magnitude_of_absolute finite
      omega
    have valid : Numeral.Valid ⟨['0'], [], none⟩ :=
      ⟨by simp, by simp [Numeral.Digits], by simp [Numeral.Digits], by simp⟩
    refine ⟨⟨['0'], [], none⟩, valid, ?_, ?_⟩
    · simp [text, Layout.write, finite, Numeral.chars, Numeral.fractionPart, Numeral.exponentPart]
    · rw [← ofMagnitude_magnitude finite nonneg, magnitude]
      rfl
  · have positive : 0 < m := Nat.pos_of_ne_zero zero
    have text : n.text = Layout.canonical.decimal (shortest .up m q) := by
      simp [text, Layout.write, Layout.canonical, finite, zero, nonneg]
    refine ⟨.ofDecimal (shortest .up m q), Numeral.valid_ofDecimal _, ?_, ?_⟩
    · rw [text, Numeral.toList_decimal]
    · apply Decimal.toNumber_of_near finite nonneg positive
      rw [Numeral.value_ofDecimal]
      exact near_shortest positive

theorem isSpace_of_isDigit {c : Char} (digit : c.isDigit) : Text.isSpace c = false := by
  have low : 48 ≤ c.toNat := by
    simp only [Char.isDigit, Bool.and_eq_true, decide_eq_true_eq] at digit
    exact digit.1
  have high : c.toNat ≤ 57 := by
    simp only [Char.isDigit, Bool.and_eq_true, decide_eq_true_eq] at digit
    exact digit.2
  simp [Text.isSpace, Text.inRanges, Text.whiteSpaceRanges]
  omega

theorem readSymbol?_of_isDigit {c : Char} (digit : c.isDigit) (cs : List Char) :
    readSymbol? c cs = none := by
  have single : Symbol.ofChar? c = none := by
    unfold Symbol.ofChar?
    split <;> first | rfl | (revert digit; decide)
  have pair (d : Char) : Symbol.ofPair? c d = none := by
    unfold Symbol.ofPair?
    split <;> first | rfl | (revert digit; decide)
  cases cs with
  | nil => simp [readSymbol?, single]
  | cons d cs => simp [readSymbol?, single, pair]

theorem readToken_of_isDigit {afterDot : Bool} {c : Char} {cs written rest : List Char} {d : Decimal}
    (digit : c.isDigit) (span : numberSpan afterDot (c :: cs) = (written, rest))
    (decimal : Decimal.ofChars? written = some d) :
    readToken afterDot c cs = .ok (⟨.number (d.toNumber false), written⟩, rest) := by
  have no_quote : Quote.ofChar? c = none := by
    unfold Quote.ofChar?
    split <;> first | rfl | (revert digit; decide)
  simp only [readToken, readSymbol?_of_isDigit digit, no_quote, digit, if_true, span, decimal]

/-- The text of a number is the token of that number. -/
theorem spells_text (writable : n.IsWritable) : Spells false n.text.toList [.number n] := by
  obtain ⟨l, valid, text, value⟩ := exists_numeral writable
  obtain ⟨c, cs, whole⟩ := List.exists_cons_of_ne_nil valid.nonempty
  have digit : c.isDigit := valid.whole c (by simp [whole])
  have chars : l.chars = c :: (cs ++ (l.fractionPart ++ l.exponentPart)) := by
    rw [Numeral.chars, whole, List.cons_append]
  have span := Numeral.numberSpan_numeral valid
  have decimal := Numeral.ofChars?_numeral valid
  rw [text]
  rw [chars] at span decimal ⊢
  have read := readToken_of_isDigit digit span decimal
  rw [value] at read
  exact .token (isSpace_of_isDigit digit) read .nil

end Number
end Stencil
