import Stencil.Proofs.Number.Minimal
import Stencil.Proofs.Number.Text
import Stencil.Proofs.Value.Equality

/-! The canonical text of a finite number: a minus sign where it is due, and a literal of its shortest
digits without a zero too many, with an exponent only beyond the plain range. -/
namespace Stencil

open Number

theorem head?_toDigits {k : Nat} (positive : 0 < k) : (Nat.toDigits 10 k).head? ≠ some '0' := by
  induction k using Nat.strongRecOn with
  | ind k ih =>
    rcases Nat.lt_or_ge k 10 with single | more
    · rw [Nat.toDigits_of_lt_base single, List.head?_cons, ne_eq, Option.some.injEq,
        Nat.digitChar_eq_zero]
      omega
    · have first := ih (k / 10) (by omega) (by omega)
      rw [Nat.toDigits_of_base_le (by norm_num) more, List.head?_append_of_ne_nil _ Nat.toDigits_ne_nil]
      exact first

theorem getLast?_toDigits {k : Nat} (reduced : k % 10 ≠ 0) : (Nat.toDigits 10 k).getLast? ≠ some '0' := by
  rcases Nat.lt_or_ge k 10 with single | more
  · rw [Nat.toDigits_of_lt_base single, List.getLast?_singleton, ne_eq, Option.some.injEq,
      Nat.digitChar_eq_zero]
    omega
  · rw [Nat.toDigits_of_base_le (by norm_num) more, List.getLast?_concat, ne_eq, Option.some.injEq,
      Nat.digitChar_eq_zero]
    exact reduced

namespace Numeral

variable {d : Decimal}

/-- No zero could be left out: a whole number other than zero does not begin with one, a fraction does
not end with one, and an exponent, which stands behind one digit, does not begin with one. -/
structure Tidy (l : Numeral) : Prop where
  whole : l.whole = ['0'] ∨ l.whole.head? ≠ some '0'
  fraction : l.fraction.getLast? ≠ some '0'
  exponent : ∀ negative ds, l.exponent = some (negative, ds) →
    l.whole.length = 1 ∧ l.whole ≠ ['0'] ∧ ds.head? ≠ some '0'

theorem tidy_ofDecimal (reduced : d.coefficient % 10 ≠ 0) : (ofDecimal d).Tidy := by
  have first : d.digits.head? ≠ some '0' := head?_toDigits (by omega)
  have last : d.digits.getLast? ≠ some '0' := getLast?_toDigits reduced
  have nonempty : d.digits ≠ [] := Nat.toDigits_ne_nil
  have front {k : Nat} (some_digits : k ≠ 0) : (d.digits.take k).head? ≠ some '0' := by
    rwa [List.head?_take, if_neg some_digits]
  have back (k : Nat) : (d.digits.drop k).getLast? ≠ some '0' := by
    rw [List.getLast?_drop]
    split
    · simp
    · exact last
  unfold ofDecimal
  split
  · split
    · refine ⟨.inr ?_, by simp, by simp⟩
      rwa [List.head?_append_of_ne_nil _ nonempty]
    · split
      · exact ⟨.inr (front (by omega)), back _, by simp⟩
      · refine ⟨.inl rfl, ?_, by simp⟩
        rwa [List.getLast?_append_of_ne_nil _ nonempty]
  · next exponential =>
    refine ⟨.inr (front one_ne_zero), back 1, ?_⟩
    intro negative ds same
    simp only [Option.some.injEq, Prod.mk.injEq] at same
    obtain ⟨-, rfl⟩ := same
    have range : ¬ (-6 < d.point ∧ d.point ≤ 21) := by simpa [Layout.canonical] using exponential
    refine ⟨?_, ?_, head?_toDigits (by omega)⟩
    · have length : 0 < d.digits.length := List.length_pos_iff.2 nonempty
      rw [List.length_take]
      omega
    · intro zero
      exact front one_ne_zero (congrArg List.head? zero)

theorem tidy_zero : (ofDecimal ⟨0, 0⟩).Tidy := by
  have zero : ofDecimal ⟨0, 0⟩ = ⟨['0'], [], none⟩ := by rfl
  rw [zero]
  exact ⟨.inl rfl, by simp, by simp⟩

theorem exponent_ofDecimal (d : Decimal) :
    (ofDecimal d).exponent = none ↔ -6 < d.point ∧ d.point ≤ 21 := by
  have plain : Layout.canonical.isPlain d.point = true ↔ -6 < d.point ∧ d.point ≤ 21 := by
    simp [Layout.canonical]
  rw [← plain]
  unfold ofDecimal
  split
  · next yes =>
    split
    · exact iff_of_true rfl yes
    · split <;> exact iff_of_true rfl yes
  · next no => exact iff_of_false (by simp) no

end Numeral

namespace Number

variable {a b n n' : Number} {m : Nat} {q : Int}

theorem less_iff (ordered_a : a.isUnordered = false) (ordered_b : b.isUnordered = false)
    (nonneg_a : a.isNegative = false) (nonneg_b : b.isNegative = false) :
    a.less b = true ↔ a.magnitude < b.magnitude := by
  simp [less, compare?, ordered_a, ordered_b, key, nonneg_a, nonneg_b, compare_lt_iff_lt]

theorem atMost_iff (ordered_a : a.isUnordered = false) (ordered_b : b.isUnordered = false)
    (nonneg_a : a.isNegative = false) (nonneg_b : b.isNegative = false) :
    a.atMost b = true ↔ a.magnitude ≤ b.magnitude := by
  simp [atMost, equal, less_iff ordered_a ordered_b nonneg_a nonneg_b, compare?, ordered_a, ordered_b,
    key, nonneg_a, nonneg_b, Nat.le_iff_lt_or_eq]

/-- `1e-6` -/
def plainStart : Number := (Decimal.mk 1 (-6)).toNumber false

/-- `1e21` -/
def plainEnd : Number := (Decimal.mk 1 21).toNumber false

/-- Is the number written without an exponent? -/
def IsPlain (n : Number) : Prop :=
  n.isZero = true ∨ plainStart.atMost n.abs = true ∧ n.abs.less plainEnd = true

theorem absolute_plainStart : plainStart.absolute = .finite 0x10C6F7A0B5ED8D (-72) := by decide +kernel

theorem absolute_plainEnd : plainEnd.absolute = .finite 0x1B1AE4D6E2EF50 17 := by decide +kernel

theorem isNegative_toNumber (negative : Bool) (d : Decimal) :
    (d.toNumber negative).isNegative = negative := by
  rw [Decimal.toNumber_eq, isNegative_ofMagnitude]

theorem point_shortest_iff (finite : n.absolute = .finite m q) (positive : 0 < m) :
    (-6 < (shortest .up m q).point ∧ (shortest .up m q).point ≤ 21) ↔ n.IsPlain := by
  have start : -6 < (shortest .up m q).point ↔ plainStart.magnitude ≤ n.magnitude := by
    apply lt_point_shortest_iff finite positive absolute_plainStart
    · norm_num [lowQuarters, exponentBit]
    · norm_num
    · decide +kernel
  have stop : 21 < (shortest .up m q).point ↔ plainEnd.magnitude ≤ n.magnitude := by
    apply lt_point_shortest_iff finite positive absolute_plainEnd
    · norm_num [lowQuarters, exponentBit]
    · norm_num
    · decide +kernel
  have ordered := ordered_of_absolute finite
  have unsigned := magnitude_abs ordered
  have ordered_abs := (isUnordered_congr unsigned).trans ordered
  have nonneg_abs := isNegative_abs n
  have nonzero : n.isZero = false := by
    have fields := magnitude_of_absolute finite
    rw [isZero, beq_eq_false_iff_ne]
    omega
  rw [IsPlain, nonzero, atMost_iff (ordered_of_absolute absolute_plainStart) ordered_abs
    (isNegative_toNumber _ _) nonneg_abs, less_iff ordered_abs (ordered_of_absolute absolute_plainEnd)
    nonneg_abs (isNegative_toNumber _ _), unsigned, ← start, ← Nat.not_le, ← stop, not_lt]
  simp

theorem exponent_shortestDecimal (finite : n.IsFinite) :
    (Numeral.ofDecimal n.shortestDecimal).exponent = none ↔ n.IsPlain := by
  rw [Numeral.exponent_ofDecimal]
  rcases finite.cases with ⟨zero, digits⟩ | ⟨m, q, fields, positive, -, digits⟩ <;> rw [digits]
  · exact iff_of_true (by decide) (.inl (by simp [isZero, zero]))
  · exact point_shortest_iff fields positive

theorem tidy_shortestDecimal (finite : n.IsFinite) : (Numeral.ofDecimal n.shortestDecimal).Tidy := by
  rcases finite.cases with ⟨-, digits⟩ | ⟨m, q, -, positive, -, digits⟩ <;> rw [digits]
  · exact Numeral.tidy_zero
  · exact Numeral.tidy_ofDecimal (shortest_reduced positive)

/-- Is there a minus sign? Zero has none. -/
def isMinus (n : Number) : Bool := n.isNegative && !n.isZero

/-- The number, but zero without its sign. -/
def canonical (n : Number) : Number := ofMagnitude n.isMinus n.magnitude

def signChars (n : Number) : List Char := if n.isMinus then ['-'] else []

theorem toList_text (finite : n.IsFinite) :
    n.text.toList = n.signChars ++ (Numeral.ofDecimal n.shortestDecimal).chars := by
  rcases finite.cases with ⟨zero, digits⟩ | ⟨m, q, fields, positive, nonzero, digits⟩ <;> rw [digits]
  · obtain ⟨m, q, fields⟩ := finite
    have significand : m = 0 := by
      have := magnitude_of_absolute fields
      omega
    have text : n.text = "0" := by simp [Number.text, Layout.write, fields, significand]
    have sign : n.signChars = [] := by simp [signChars, isMinus, isZero, zero]
    rw [text, sign]
    rfl
  · have text : n.text =
        (if n.isNegative then "-" else "") ++ Layout.canonical.decimal (shortest .up m q) := by
      simp [Number.text, Layout.write, fields, Nat.ne_of_gt positive, Layout.canonical]
    have sign : n.signChars = if n.isNegative then ['-'] else [] := by
      simp [signChars, isMinus, isZero, nonzero]
    rw [text, sign, String.toList_append, Numeral.toList_decimal]
    cases n.isNegative <;> rfl

theorem IsFinite.abs (finite : n.IsFinite) : n.abs.IsFinite := by
  obtain ⟨m, q, fields⟩ := finite
  exact ⟨m, q, (absolute_abs (ordered_of_absolute fields)).trans fields⟩

theorem shortestDecimal_abs (ordered : n.isUnordered = false) :
    n.abs.shortestDecimal = n.shortestDecimal := by
  rw [shortestDecimal, shortestDecimal, absolute_abs ordered]

/-- A minus sign stands in front of the text of the absolute value. -/
theorem text_eq (finite : n.IsFinite) : n.text = (if n.isMinus then "-" else "") ++ n.abs.text := by
  have unsigned : n.abs.signChars = [] := by simp [signChars, isMinus]
  rw [← String.toList_inj, String.toList_append, toList_text finite, toList_text finite.abs, unsigned,
    shortestDecimal_abs finite.ordered, signChars]
  cases n.isMinus <;> rfl

theorem toNumber_numeral (finite : n.IsFinite) (negative : Bool) :
    (Numeral.ofDecimal n.shortestDecimal).decimal.toNumber negative =
      ofMagnitude negative n.magnitude := by
  rcases finite.cases with ⟨zero, digits⟩ | ⟨m, q, fields, positive, -, digits⟩ <;> rw [digits]
  · rw [zero]
    rfl
  · have near : Near m q (Numeral.ofDecimal (shortest .up m q)).decimal.value := by
      rw [Numeral.value_ofDecimal]
      exact near_shortest positive
    have reads := Decimal.toNumber_of_near_abs fields positive near
    rw [Decimal.toNumber_eq] at reads
    rw [Decimal.toNumber_eq, magnitude_eq_of_ofMagnitude fields reads]

theorem visible_chars {l : Numeral} (valid : l.Valid) : ∀ c ∈ l.chars, Text.isSpace c = false := by
  intro c member
  have part := numberSpan_part false l.chars c (by rw [Numeral.numberSpan_numeral valid]; exact member)
  simp only [isNumberPart, Bool.or_eq_true] at part
  rcases part with digit | other
  · exact isSpace_of_isDigit digit
  · simp only [List.contains_eq_mem, decide_eq_true_eq, List.mem_cons, List.not_mem_nil,
      or_false] at other
    rcases other with rfl | rfl | rfl | rfl | rfl <;> rfl

theorem trimLeft_of_head {cs : List Char} (head : ∀ c ∈ cs.head?, Text.isSpace c = false) :
    Text.trimLeft cs = cs := by
  cases cs with
  | nil => rfl
  | cons c cs => exact List.dropWhile_cons_of_neg (by simp [head c rfl])

theorem trim_of_ends {cs : List Char} (head : ∀ c ∈ cs.head?, Text.isSpace c = false)
    (last : ∀ c ∈ cs.getLast?, Text.isSpace c = false) : Text.trim cs = cs := by
  rw [← List.head?_reverse] at last
  rw [Text.trim, trimLeft_of_head head, trimLeft_of_head last, List.reverse_reverse]

theorem trim_of_visible {cs : List Char} (visible : ∀ c ∈ cs, Text.isSpace c = false) :
    Text.trim cs = cs :=
  trim_of_ends (fun c first => visible c (List.mem_of_head? first))
    fun c last => visible c (List.mem_of_getLast? last)

theorem visible_text (finite : n.IsFinite) : ∀ c ∈ n.text.toList, Text.isSpace c = false := by
  intro c member
  rw [toList_text finite, List.mem_append] at member
  rcases member with sign | digits
  · unfold signChars at sign
    split at sign
    · rw [List.mem_singleton.1 sign]
      rfl
    · cases sign
  · exact visible_chars (Numeral.valid_ofDecimal _) c digits

theorem signed_of_isDigit {c : Char} (digit : c.isDigit) (cs : List Char) :
    Decimal.signed (c :: cs) = (false, c :: cs) := by
  unfold Decimal.signed
  split
  · next same =>
    cases same
    cases digit
  · next same =>
    cases same
    cases digit
  · rfl

theorem signed_chars {l : Numeral} (valid : l.Valid) : Decimal.signed l.chars = (false, l.chars) := by
  obtain ⟨c, cs, whole⟩ := List.exists_cons_of_ne_nil valid.nonempty
  rw [Numeral.chars, whole, List.cons_append]
  exact signed_of_isDigit (valid.whole c (by simp [whole])) _

theorem ofText?_text (finite : n.IsFinite) :
    ofText? n.text.toList = some n.canonical := by
  have valid := Numeral.valid_ofDecimal n.shortestDecimal
  have signed : Decimal.signed n.text.toList =
      (n.isMinus, (Numeral.ofDecimal n.shortestDecimal).chars) := by
    rw [toList_text finite, signChars]
    cases n.isMinus
    · exact signed_chars valid
    · rfl
  rw [ofText?, trim_of_visible (visible_text finite), signed]
  simp only [Numeral.ofChars?_numeral valid, Option.map_some, toNumber_numeral finite, canonical]

theorem numberOfText_text (finite : n.IsFinite) :
    Value.numberOfText n.text = n.canonical := by
  have nonempty : (Text.trim n.text.toList).isEmpty = false := by
    have valid := Numeral.valid_ofDecimal n.shortestDecimal
    rw [trim_of_visible (visible_text finite), toList_text finite]
    simp [Numeral.chars, valid.nonempty]
  rw [Value.numberOfText, nonempty, ofText?_text finite]
  rfl

theorem magnitude_ne_zero_of_isMinus (minus : n.isMinus = true) :
    n.isNegative = true ∧ n.magnitude ≠ 0 := by
  simpa [isMinus, isZero] using minus

theorem key_eq (n : Number) : n.key = if n.isMinus then -(n.magnitude : Int) else n.magnitude := by
  by_cases zero : n.magnitude = 0
  · simp [key, zero]
  · simp [key, isMinus, isZero, zero]

theorem equal_canonical (ordered : n.isUnordered = false) : n.canonical.equal n = true := by
  have bound : n.magnitude ≤ infinityMagnitude := by simpa [isUnordered] using ordered
  have magnitude : n.canonical.magnitude = n.magnitude := by
    rw [canonical, magnitude_ofMagnitude, Nat.min_eq_left bound]
  refine equal_iff.2 ⟨(isUnordered_congr magnitude).trans ordered, ordered, ?_⟩
  rw [key, magnitude, canonical, isNegative_ofMagnitude, key_eq]

theorem equal_of_text (finite : n.IsFinite) : (Value.string n.text).toNumber.equal n = true := by
  change (Value.numberOfText n.text).equal n = true
  rw [numberOfText_text finite]
  exact equal_canonical finite.ordered

theorem eq_of_key (keys : n.key = n'.key) : n.isMinus = n'.isMinus ∧ n.magnitude = n'.magnitude := by
  have nonzero {x : Number} (minus : x.isMinus = true) : x.magnitude ≠ 0 :=
    (magnitude_ne_zero_of_isMinus minus).2
  rw [key_eq, key_eq] at keys
  cases left : n.isMinus <;> cases right : n'.isMinus <;> simp [left, right] at keys
  · exact ⟨rfl, keys⟩
  · have := nonzero right
    omega
  · have := nonzero left
    omega
  · exact ⟨rfl, keys⟩

/-- Finite numbers print alike exactly if they are equal. -/
theorem text_eq_iff (finite : n.IsFinite) (finite' : n'.IsFinite) :
    n.text = n'.text ↔ n.equal n' = true := by
  constructor
  · intro same
    have first := equal_of_text finite
    have second := equal_of_text finite'
    rw [same, equal_iff] at first
    rw [equal_iff] at second
    exact equal_iff.2 ⟨finite.ordered, finite'.ordered, first.2.2.symm.trans second.2.2⟩
  · intro equal
    obtain ⟨-, -, keys⟩ := equal_iff.1 equal
    obtain ⟨signs, magnitudes⟩ := eq_of_key keys
    rw [text_eq finite, text_eq finite', signs, abs, abs, magnitudes]

end Number

end Stencil
