import Stencil.Proofs.Number.Integer

/-! Whole numbers below `2 ^ 53` are numbers, and they are written in full. -/
namespace Stencil.Number

variable {n : Number} {k m : Nat} {q : Int}

/-- A number is the natural number that its exact value is. -/
theorem natural?_eq_some_iff : n.natural? = some k ↔
    ∃ m q, n.absolute = .finite m q ∧ (k : ℚ) = m * 2 ^ q ∧ n.isMinus = false := by
  have whole : n.natural? = some k ↔ n.integer? = some (k : Int) := by
    unfold natural?
    rcases n.integer? with _ | j | j <;> simp
  have sign : (n.isMinus = true ↔ (k : Int) < 0) ↔ n.isMinus = false := by
    have nonneg : ¬ (k : Int) < 0 := by omega
    rw [iff_false_right nonneg, Bool.not_eq_true]
  simp only [whole, integer?_eq_some_iff, sign, Int.natAbs_natCast]

theorem natural?_congr {a b : Number} (equal : a.equal b = true) : a.natural? = b.natural? := by
  rw [natural?, natural?, integer?_congr equal]

theorem toDigits_mul_ten_pow (positive : 0 < k) (zeros : Nat) :
    Nat.toDigits 10 (k * 10 ^ zeros) = Nat.toDigits 10 k ++ List.replicate zeros '0' := by
  induction zeros with
  | zero => simp
  | succ zeros ih =>
    have more : k * 10 ^ (zeros + 1) = 10 * (k * 10 ^ zeros) + 0 := by
      rw [pow_succ]
      ring
    rw [more, ← Nat.toDigits_append_toDigits (by norm_num) (by positivity) (by norm_num), ih,
      List.replicate_succ', List.append_assoc]
    rfl

/-- A decimal that stands for a natural number of at most 21 digits is written as that number. -/
theorem chars_ofDecimal_of_natural {d : Decimal} (reduced : d.coefficient % 10 ≠ 0)
    (value : d.value = k) (small : k < 10 ^ 21) : (Numeral.ofDecimal d).chars = Nat.toDigits 10 k := by
  have same : d.value = (Decimal.mk k 0).value := by
    rw [value, Decimal.value]
    simp
  obtain ⟨zeros, grid⟩ : ∃ zeros : Nat, d.exponent = zeros :=
    Int.eq_ofNat_of_zero_le (Decimal.exponent_le_of_value (f := ⟨k, 0⟩) reduced same)
  have whole : d.coefficient * 10 ^ zeros = k := by
    rw [Decimal.value, grid, zpow_natCast] at value
    exact_mod_cast value
  have digits : Nat.toDigits 10 k = d.digits ++ List.replicate zeros '0' := by
    rw [← whole, toDigits_mul_ten_pow (by omega)]
    rfl
  have length : (Nat.toDigits 10 k).length ≤ 21 :=
    (Nat.length_toDigits_le_iff (b := 10) (by norm_num) (by norm_num)).2 small
  rw [digits, List.length_append, List.length_replicate] at length
  have point : d.point = d.digits.length + zeros := by rw [Decimal.point, grid]
  have plain : Layout.canonical.isPlain d.point = true := by
    simp [Layout.canonical, point]
    omega
  have added : (d.point - d.digits.length).toNat = zeros := by omega
  rw [Numeral.ofDecimal, if_pos plain, if_pos (by omega), added, digits]
  simp [Numeral.chars, Numeral.fractionPart, Numeral.exponentPart]

theorem nonpos_of_natural (fields : n.absolute = .finite m q) (exact : (k : ℚ) = m * 2 ^ q)
    (small : k < 2 ^ 53) : q ≤ 0 := by
  obtain ⟨-, -, -, normal⟩ := magnitude_of_absolute fields
  by_contra coarse
  have large : (2 : ℚ) ^ 53 ≤ k := by
    have half : (2 : ℚ) ^ 52 ≤ m := by
      exact_mod_cast (show 2 ^ 52 ≤ m by omega)
    have two : (2 : ℚ) ≤ 2 ^ q := by
      calc (2 : ℚ) = 2 ^ (1 : Int) := by norm_num
        _ ≤ 2 ^ q := zpow_le_zpow_right₀ (by norm_num) (by omega)
    rw [exact]
    nlinarith
  have whole : 2 ^ 53 ≤ k := by exact_mod_cast large
  omega

/-- The interval of a natural number below `2 ^ 53` has no other one in it. -/
theorem eq_of_near_natural (fields : n.absolute = .finite m q) (exact : (k : ℚ) = m * 2 ^ q)
    (small : k < 2 ^ 53) {j : Nat} (near : Near m q j) : j = k := by
  have fine := nonpos_of_natural fields exact small
  have unit : (2 : ℚ) ^ (q - 2) ≤ 1 / 4 := by
    calc (2 : ℚ) ^ (q - 2) ≤ 2 ^ (-2 : Int) := zpow_le_zpow_right₀ (by norm_num) (by omega)
      _ = 1 / 4 := by norm_num
  have quarter : (0 : ℚ) < 2 ^ (q - 2) := by positivity
  rw [zpow_eq_quarters q] at exact
  obtain ⟨low, high, -⟩ := near
  have above : (k : ℚ) < j + 1 := by
    have wide := le_lowQuarters m q
    nlinarith
  have below : (j : ℚ) < k + 1 := by nlinarith
  have least : k < j + 1 := by exact_mod_cast above
  have most : j < k + 1 := by exact_mod_cast below
  omega

/-- The shortest digits of a natural number below `2 ^ 53` are its own. -/
theorem value_shortest_of_natural {tie : Tie} (fields : n.absolute = .finite m q) (positive : 0 < m)
    (exact : (k : ℚ) = m * 2 ^ q) (small : k < 2 ^ 53) : (shortest tie m q).value = k := by
  obtain ⟨-, low_q, high_q, normal⟩ := magnitude_of_absolute fields
  have exact_pos : (0 : ℚ) < m * 2 ^ q := by positivity
  have one_le : (1 : ℚ) ≤ k := by
    have nonzero : 0 < k := by
      rw [← exact] at exact_pos
      exact_mod_cast exact_pos
    exact_mod_cast nonzero
  obtain ⟨p, low, high⟩ := exists_mem_Ico_zpow exact_pos (show (1 : ℚ) < 10 by norm_num)
  obtain ⟨c, g, same, -, grid, near, coarser⟩ :=
    exists_first_hit tie positive low_q high_q (by omega) low high
  have leading : 0 ≤ p := by
    have reaches : (10 : ℚ) ^ (0 : Int) < 10 ^ (p + 1) := by
      rw [zpow_zero]
      exact (one_le.trans_eq exact).trans_lt high
    have := (zpow_lt_zpow_iff_right₀ (by norm_num)).1 reaches
    omega
  -- The number itself is on the grid of ones, so the search stops there or before.
  obtain ⟨zeros, rfl⟩ : ∃ zeros : Nat, g = zeros := by
    refine Int.eq_ofNat_of_zero_le (not_lt.1 fun fine => coarser 0 fine leading k ?_)
    rw [zpow_zero, mul_one, exact]
    exact near_exact positive
  have whole : (c * 10 ^ (zeros : Int) : ℚ) = (c * 10 ^ zeros : Nat) := by
    push_cast
    rfl
  rw [whole] at near
  rw [same, stripZeros_value, Decimal.value, whole, eq_of_near_natural fields exact small near]

theorem text_of_natural (natural : n.natural? = some k) (small : k < 2 ^ 53) : n.text = Nat.repr k := by
  obtain ⟨m, q, fields, exact, sign⟩ := natural?_eq_some_iff.1 natural
  have finite : n.IsFinite := ⟨m, q, fields⟩
  have unsigned : n.signChars = [] := by simp [signChars, sign]
  rw [← String.toList_inj, toList_text finite, Nat.toList_repr, unsigned, List.nil_append]
  rcases finite.cases with ⟨zero, digits⟩ | ⟨m', q', fields', positive, -, digits⟩ <;> rw [digits]
  · have significand : m = 0 := by
      have := magnitude_of_absolute fields
      omega
    obtain rfl : k = 0 := by
      rw [significand, Nat.cast_zero, zero_mul] at exact
      exact_mod_cast exact
    rfl
  · rw [fields, Absolute.finite.injEq] at fields'
    obtain ⟨rfl, rfl⟩ := fields'
    exact chars_ofDecimal_of_natural (shortest_reduced positive)
      (value_shortest_of_natural fields positive exact small) (small.trans (by norm_num))

theorem absolute_ofMagnitude {negative : Bool} (low : 2 ^ 52 ≤ m) (high : m < 2 ^ 53)
    (low_q : -1074 ≤ q) (high_q : q ≤ 971) :
    (ofMagnitude negative ((q + 1074).toNat * 2 ^ 52 + m)).absolute = .finite m q := by
  obtain ⟨k, rfl⟩ : ∃ k : Nat, q = (k : Int) - 1074 := ⟨(q + 1074).toNat, by omega⟩
  have grid : ((k : Int) - 1074 + 1074).toNat = k := by omega
  have bound : k * 2 ^ 52 + m ≤ infinityMagnitude := by
    rw [infinityMagnitude_eq]
    omega
  have exponent : (k * 2 ^ 52 + m) / 2 ^ 52 = k + 1 := by omega
  have fraction : (k * 2 ^ 52 + m) % 2 ^ 52 = m - 2 ^ 52 := by omega
  simp only [absolute, grid, magnitude_ofMagnitude, Nat.min_eq_left bound, exponentBit_eq, exponent,
    fraction]
  rw [if_neg (by omega), if_neg (by omega), Absolute.finite.injEq]
  omega

/-- Below `2 ^ 53` every natural number is a number. -/
theorem exists_natural (small : k < 2 ^ 53) : ∃ n : Number, n.natural? = some k := by
  rcases Nat.eq_zero_or_pos k with rfl | positive
  · exact ⟨ofMagnitude false 0, by decide +kernel⟩
  · have log : k.log2 < 53 := (Nat.log2_lt (by omega)).2 small
    have low := Nat.log2_self_le (Nat.ne_of_gt positive)
    have high := Nat.lt_log2_self (n := k)
    obtain ⟨shift, whole⟩ : ∃ shift, k.log2 + shift = 52 := ⟨52 - k.log2, by omega⟩
    have grid : 2 ^ 52 = 2 ^ k.log2 * 2 ^ shift := by rw [← whole, pow_add]
    have next : 2 ^ 53 = 2 ^ (k.log2 + 1) * 2 ^ shift := by rw [← pow_add]; congr 1; omega
    have unit : (2 : ℚ) ^ shift ≠ 0 := by positivity
    refine ⟨ofMagnitude false ((-(shift : Int) + 1074).toNat * 2 ^ 52 + k * 2 ^ shift), ?_⟩
    rw [natural?_eq_some_iff]
    refine ⟨k * 2 ^ shift, -shift, absolute_ofMagnitude ?_ ?_ (by omega) (by omega), ?_, ?_⟩
    · rw [grid]
      exact Nat.mul_le_mul_right _ low
    · rw [next]
      exact Nat.mul_lt_mul_of_pos_right high (Nat.two_pow_pos shift)
    · rw [zpow_neg, zpow_natCast]
      push_cast
      field_simp
    · simp [isMinus]

theorem isFinite_of_text (text : n.text = Nat.repr k) : n.IsFinite := by
  have digits : ∀ c ∈ n.text.toList, c.isDigit := by
    intro c member
    rw [text, Nat.toList_repr] at member
    exact Nat.isDigit_of_mem_toDigits (by decide) (by decide) member
  cases fields : n.absolute with
  | finite m q => exact ⟨m, q, fields⟩
  | nan =>
    have same : n.text = "NaN" := by simp [Number.text, Layout.write, fields, Layout.canonical]
    rw [same] at digits
    exact absurd (digits 'N' (by decide)) (by decide)
  | infinite =>
    have same : n.text = (if n.isNegative then "-" else "") ++ "Infinity" := by
      simp [Number.text, Layout.write, fields, Layout.canonical]
    rw [same, String.toList_append] at digits
    exact absurd (digits 'I' (List.mem_append_right _ (by decide))) (by decide)

theorem natural?_of_text (text : n.text = Nat.repr k) (small : k < 2 ^ 53) : n.natural? = some k := by
  obtain ⟨n', natural⟩ := exists_natural small
  obtain ⟨m, q, fields, -⟩ := natural?_eq_some_iff.1 natural
  have same : n.text = n'.text := text.trans (text_of_natural natural small).symm
  rw [natural?_congr ((text_eq_iff (isFinite_of_text text) ⟨m, q, fields⟩).1 same), natural]

end Stencil.Number
