import Stencil.Proofs.Number.Nearest

/-! The shortest digits are the fewest: the search passes over a coarse grid only if none of its
points is rounded to the number, and it is over before the grids are too fine to matter. -/
namespace Stencil

namespace Number

variable {m c : Nat} {q grid p : Int} {tie : Tie}

theorem holds_iff_near : (interval m q).holds grid c = true ↔ Near m q (c * 10 ^ grid) := by
  refine ⟨near_of_holds, fun ⟨low, high, tie⟩ => holds_iff.2 ?_⟩
  split
  · exact ⟨low, high⟩
  · next odd => exact tie.resolve_left odd

/-- How often `10 ^ grid` goes into the number. -/
def lower (m : Nat) (q grid : Int) : Nat :=
  (interval m q).value * power 10 (-grid) / ((interval m q).unit * power 10 grid)

/-- The number lies between two neighbours on the grid. -/
theorem lower_bounds (m : Nat) (q grid : Int) :
    (lower m q grid * 10 ^ grid : ℚ) ≤ m * 2 ^ q ∧
      (m * 2 ^ q : ℚ) < (lower m q grid + 1) * 10 ^ grid := by
  have unit : (0 : ℚ) < 10 ^ grid := by positivity
  have fine : 0 < (interval m q).unit * power 10 grid :=
    Nat.mul_pos (power_pos (by norm_num) _) (power_pos (by norm_num) _)
  have quotient : (((interval m q).value * power 10 (-grid) : Nat) : ℚ) /
      ((interval m q).unit * power 10 grid : Nat) = m * 2 ^ q / 10 ^ grid := by
    have two := power_div_power 2 (by norm_num) (q - 2)
    have ten := power_div_power 10 (by norm_num) (-grid)
    rw [neg_sub] at two
    rw [neg_neg] at ten
    have quarters : (m * 2 ^ q / 10 ^ grid : ℚ) = 4 * m * 2 ^ (q - 2) * 10 ^ (-grid) := by
      rw [zpow_eq_quarters q, zpow_neg]
      ring
    rw [quarters]
    push_cast [interval] at two ten ⊢
    rw [← two, ← ten]
    field_simp
  have floor : (lower m q grid : ℚ) = (⌊(m * 2 ^ q / 10 ^ grid : ℚ)⌋₊ : ℚ) := by
    rw [← quotient, Nat.floor_div_eq_div]
    rfl
  rw [floor]
  constructor
  · rw [← le_div_iff₀ unit]
    exact Nat.floor_le (by positivity)
  · rw [← div_lt_iff₀ unit]
    exact Nat.lt_floor_add_one _

theorem lower_pos_iff : 0 < lower m q grid ↔ (10 : ℚ) ^ grid ≤ m * 2 ^ q := by
  obtain ⟨low, high⟩ := lower_bounds m q grid
  have unit : (0 : ℚ) < 10 ^ grid := by positivity
  constructor
  · intro positive
    have cast : (1 : ℚ) ≤ lower m q grid := by exact_mod_cast positive
    nlinarith
  · intro reaches
    rw [Nat.pos_iff_ne_zero]
    intro zero
    rw [zero] at high
    norm_num at high
    linarith

/-- Both neighbours are tried, in one order or the other. -/
theorem hit?_eq (tie : Tie) (m : Nat) (q grid : Int) :
    ∃ a b, (a = lower m q grid ∧ b = lower m q grid + 1 ∨ a = lower m q grid + 1 ∧ b = lower m q grid) ∧
      (interval m q).hit? tie grid = if lower m q grid = 0 then none
        else if (interval m q).holds grid a then some a
        else if (interval m q).holds grid b then some b else none := by
  unfold Interval.hit? lower
  generalize (interval m q).value * power 10 (-grid) = num
  generalize (interval m q).unit * power 10 grid = den
  refine ⟨_, _, ?_, rfl⟩
  split
  · exact .inl ⟨rfl, if_pos rfl⟩
  · exact .inr ⟨rfl, if_neg (by omega)⟩

theorem hit?_eq_some (hit : (interval m q).hit? tie grid = some c) :
    c ≤ lower m q grid + 1 ∧ 0 < lower m q grid := by
  obtain ⟨a, b, order, same⟩ := hit?_eq tie m q grid
  rw [same] at hit
  split at hit
  · cases hit
  · split at hit
    · cases hit
      omega
    · split at hit
      · cases hit
        omega
      · cases hit

theorem hit?_eq_none (miss : (interval m q).hit? tie grid = none) (reaches : 0 < lower m q grid) :
    ¬ Near m q (lower m q grid * 10 ^ grid) ∧ ¬ Near m q ((lower m q grid + 1 : Nat) * 10 ^ grid) := by
  obtain ⟨a, b, order, same⟩ := hit?_eq tie m q grid
  rw [same, if_neg (by omega)] at miss
  rw [← holds_iff_near, ← holds_iff_near]
  split at miss
  · cases miss
  · next first =>
    split at miss
    · cases miss
    · next second =>
      rcases order with ⟨rfl, rfl⟩ | ⟨rfl, rfl⟩
      · exact ⟨first, second⟩
      · exact ⟨second, first⟩

/-- If neither neighbour is rounded to the number, no point of the grid is. -/
theorem not_near_of_miss (positive : 0 < m) (miss : (interval m q).hit? tie grid = none)
    (reaches : (10 : ℚ) ^ grid ≤ m * 2 ^ q) (c : Nat) : ¬ Near m q (c * 10 ^ grid) := by
  intro near
  have unit : (0 : ℚ) < 10 ^ grid := by positivity
  have exact := near_exact (q := q) positive
  obtain ⟨low, high⟩ := lower_bounds m q grid
  obtain ⟨not_below, not_above⟩ := hit?_eq_none miss (lower_pos_iff.2 reaches)
  rcases Nat.lt_or_ge (lower m q grid) c with above | below
  · have next : ((lower m q grid + 1 : Nat) : ℚ) ≤ c := by exact_mod_cast above
    refine not_above (exact.between near ?_ (mul_le_mul_of_nonneg_right next unit.le))
    push_cast
    exact high.le
  · have before : (c : ℚ) ≤ lower m q grid := by exact_mod_cast below
    exact not_below (near.between exact (mul_le_mul_of_nonneg_right before unit.le) low)

/-- `93 / 28` is a little less than the binary logarithm of ten, and `196 / 59` a little more. -/
theorem zpow_two_le_zpow_ten {t b : Int} (bound : 0 ≤ b ∧ 28 * t ≤ 93 * b ∨ b ≤ 0 ∧ 59 * t ≤ 196 * b) :
    (2 : ℚ) ^ t ≤ 10 ^ b := by
  rcases bound with ⟨sign, bound⟩ | ⟨sign, bound⟩
  · refine le_of_pow_le_pow_left₀ (n := 28) (by norm_num) (by positivity) ?_
    calc ((2 : ℚ) ^ t) ^ 28 = 2 ^ (28 * t) := by rw [← zpow_natCast, ← zpow_mul, mul_comm]; rfl
      _ ≤ 2 ^ (93 * b) := zpow_le_zpow_right₀ (by norm_num) bound
      _ = ((2 ^ 93 : ℚ)) ^ b := by rw [zpow_mul]; rfl
      _ ≤ (10 ^ 28 : ℚ) ^ b := zpow_le_zpow_left₀ sign (by positivity) (by norm_num)
      _ = ((10 : ℚ) ^ b) ^ 28 := by rw [← zpow_natCast, ← zpow_natCast, ← zpow_mul, ← zpow_mul, mul_comm]
  · refine le_of_pow_le_pow_left₀ (n := 59) (by norm_num) (by positivity) ?_
    calc ((2 : ℚ) ^ t) ^ 59 = 2 ^ (59 * t) := by rw [← zpow_natCast, ← zpow_mul, mul_comm]; rfl
      _ ≤ 2 ^ (196 * b) := zpow_le_zpow_right₀ (by norm_num) bound
      _ = ((2 ^ 196 : ℚ)) ^ b := by rw [zpow_mul]; rfl
      _ ≤ (10 ^ 59 : ℚ) ^ b := by
        rw [← inv_le_inv₀ (by positivity) (by positivity), ← zpow_neg, ← zpow_neg]
        exact zpow_le_zpow_left₀ (by omega) (by positivity) (by norm_num)
      _ = ((10 : ℚ) ^ b) ^ 59 := by rw [← zpow_natCast, ← zpow_natCast, ← zpow_mul, ← zpow_mul, mul_comm]

theorem zpow_ten_le_zpow_two {t b : Int} (bound : 0 ≤ b ∧ 196 * b ≤ 59 * t ∨ b ≤ 0 ∧ 93 * b ≤ 28 * t) :
    (10 : ℚ) ^ b ≤ 2 ^ t := by
  have opposite : (2 : ℚ) ^ (-t) ≤ 10 ^ (-b) := zpow_two_le_zpow_ten (by omega)
  rwa [zpow_neg, zpow_neg, inv_le_inv₀ (by positivity) (by positivity)] at opposite

/-- The search begins at the leading digit or a little before it. -/
theorem topGrid_bounds (positive : 0 < m) (low_q : -1074 ≤ q) (high_q : q ≤ 971) (small : m < 2 ^ 53)
    (low : (10 : ℚ) ^ p ≤ m * 2 ^ q) (high : (m * 2 ^ q : ℚ) < 10 ^ (p + 1)) :
    p ≤ topGrid m q ∧ topGrid m q ≤ p + 3 := by
  obtain ⟨log_low, log_high⟩ := log2_bounds positive
  have size : m.log2 < 53 := (Nat.log2_lt (by omega)).2 small
  have unit : (0 : ℚ) < 2 ^ q := by positivity
  have from_two : (2 : ℚ) ^ ((m.log2 : Int) + q) < 10 ^ (p + 1) := by
    rw [zpow_add₀ (by norm_num)]
    exact (mul_le_mul_of_nonneg_right log_low unit.le).trans_lt high
  have to_two : (10 : ℚ) ^ p < 2 ^ ((m.log2 : Int) + q + 1) := by
    have split : (m.log2 : Int) + q + 1 = m.log2 + 1 + q := by ring
    rw [split, zpow_add₀ (by norm_num) _ q]
    exact low.trans_lt (mul_lt_mul_of_pos_right log_high unit)
  have above : ¬ (0 ≤ p ∧ 28 * ((m.log2 : Int) + q + 1) ≤ 93 * p ∨
      p ≤ 0 ∧ 59 * ((m.log2 : Int) + q + 1) ≤ 196 * p) :=
    fun bound => absurd (zpow_two_le_zpow_ten bound) (not_le.2 to_two)
  have below : ¬ (0 ≤ p + 1 ∧ 196 * (p + 1) ≤ 59 * ((m.log2 : Int) + q) ∨
      p + 1 ≤ 0 ∧ 93 * (p + 1) ≤ 28 * ((m.log2 : Int) + q)) :=
    fun bound => absurd (zpow_ten_le_zpow_two bound) (not_le.2 from_two)
  unfold topGrid
  rw [Int.fdiv_eq_ediv_of_nonneg _ (by norm_num)]
  omega

/-- The interval reaches from the number to both sides by more than the number's `2 ^ 54`-th part. -/
theorem near_of_close {x : ℚ} (positive : 0 < m) (small : m < 2 ^ 53)
    (above : (m * 2 ^ q : ℚ) - x < m * 2 ^ q / 2 ^ 54) (below : x - m * 2 ^ q < m * 2 ^ q / 2 ^ 54) :
    Near m q x := by
  have quarter : (0 : ℚ) < 2 ^ (q - 2) := by positivity
  rw [zpow_eq_quarters q] at above below
  have size : (m : ℚ) < 2 ^ 53 := by exact_mod_cast small
  have low : lowQuarters m q * 2 ^ (q - 2) < x := by
    rcases lowQuarters_cases m q with ⟨same, -⟩ | ⟨same, rfl, -⟩
    · rw [cast_lowQuarters positive same]
      nlinarith
    · rw [same]
      push_cast at above ⊢
      linarith
  have high : x < (4 * m + 2) * 2 ^ (q - 2) := by nlinarith
  exact ⟨low.le, high.le, .inr ⟨low, high⟩⟩

/-- Seventeen digits are enough. -/
theorem seventeen_digits (positive : 0 < m) (small : m < 2 ^ 53) (low : (10 : ℚ) ^ p ≤ m * 2 ^ q) :
    (interval m q).hit? tie (p - 16) ≠ none := by
  intro miss
  have unit : (0 : ℚ) < 10 ^ (p - 16) := by positivity
  have leading : (10 : ℚ) ^ p = 10 ^ 16 * 10 ^ (p - 16) := by
    rw [← zpow_natCast, ← zpow_add₀ (by norm_num)]
    congr 1
    push_cast
    ring
  have spacing : (10 : ℚ) ^ (p - 16) / 2 < m * 2 ^ q / 2 ^ 54 := by
    rw [leading] at low
    linarith
  have reaches : (10 : ℚ) ^ (p - 16) ≤ m * 2 ^ q := by linarith
  obtain ⟨start, stop⟩ := lower_bounds m q (p - 16)
  obtain ⟨not_below, not_above⟩ := hit?_eq_none miss (lower_pos_iff.2 reaches)
  generalize lower m q (p - 16) = l at *
  -- The nearer of the two neighbours is at most half a step away.
  rcases le_total (m * 2 ^ q - l * 10 ^ (p - 16) : ℚ) (10 ^ (p - 16) / 2) with close | far
  · exact not_below (near_of_close positive small (by linarith) (by linarith))
  · refine not_above (near_of_close positive small ?_ ?_) <;> push_cast <;> linarith

theorem mem_before_of_lt {n j k : Nat} {before after : List Nat}
    (whole : List.range n = before ++ k :: after) (less : j < k) : j ∈ before := by
  have sorted := List.pairwise_lt_range (n := n)
  have last : k ∈ List.range n := by simp [whole]
  have member : j ∈ List.range n := List.mem_range.2 (less.trans (List.mem_range.1 last))
  rw [whole, List.pairwise_append, List.pairwise_cons] at sorted
  rw [whole, List.mem_append, List.mem_cons] at member
  rcases member with early | rfl | late
  · exact early
  · omega
  · have := sorted.2.1.1 j late
    omega

/-- The grid that gives the digits: nothing on a coarser one is rounded to the number, up to the grid
of its leading digit. -/
theorem exists_first_hit (tie : Tie) (positive : 0 < m) (low_q : -1074 ≤ q) (high_q : q ≤ 971)
    (small : m < 2 ^ 53) (low : (10 : ℚ) ^ p ≤ m * 2 ^ q) (high : (m * 2 ^ q : ℚ) < 10 ^ (p + 1)) :
    ∃ c g, shortest tie m q = stripZeros (Decimal.mk c g).digits.length ⟨c, g⟩ ∧
      c ≤ lower m q g + 1 ∧ g ≤ p ∧ Near m q (c * 10 ^ g) ∧
      ∀ coarser, g < coarser → coarser ≤ p → ∀ k : Nat, ¬ Near m q (k * 10 ^ coarser) := by
  obtain ⟨top_low, top_high⟩ := topGrid_bounds positive low_q high_q small low high
  unfold shortest
  generalize topGrid m q = top at *
  dsimp only
  generalize search : List.findSome? _ _ = found
  cases found with
  | none =>
    have misses := List.findSome?_eq_none_iff.1 search (top - (p - 16)).toNat (by simp; omega)
    have back : top - ((top - (p - 16)).toNat : Nat) = p - 16 := by omega
    rw [Option.map_eq_none_iff, back] at misses
    exact absurd misses (seventeen_digits positive small low)
  | some d =>
    obtain ⟨before, k, after, whole, mapped, misses⟩ := List.findSome?_eq_some_iff.1 search
    obtain ⟨c, hit, rfl⟩ := Option.map_eq_some_iff.1 mapped
    obtain ⟨bound, reaches⟩ := hit?_eq_some hit
    refine ⟨c, top - k, rfl, bound, ?_, holds_iff_near.1 (holds_of_hit? hit), ?_⟩
    · have leading := (lower_pos_iff.1 reaches).trans_lt high
      have := (zpow_lt_zpow_iff_right₀ (by norm_num)).1 leading
      omega
    · intro coarser above below
      have miss := misses _ (mem_before_of_lt whole (j := (top - coarser).toNat) (by omega))
      have back : top - ((top - coarser).toNat : Nat) = coarser := by omega
      rw [Option.map_eq_none_iff, back] at miss
      exact not_near_of_miss positive miss ((zpow_le_zpow_right₀ (by norm_num) below).trans low)

end Number

namespace Decimal

variable {d f : Decimal}

/-- The decimal point stands where the value says. -/
theorem point_eq_of_value (positive : 0 < d.value) (same : d.value = f.value) : d.point = f.point := by
  obtain ⟨low, high⟩ := value_bounds (coefficient_pos_of_value positive)
  obtain ⟨low', high'⟩ := value_bounds (coefficient_pos_of_value (same ▸ positive : 0 < f.value))
  rw [same] at low high
  have one_lt : (1 : ℚ) < 10 := by norm_num
  have above := (zpow_lt_zpow_iff_right₀ one_lt).1 (low.trans_lt high')
  have below := (zpow_lt_zpow_iff_right₀ one_lt).1 (low'.trans_lt high)
  omega

/-- A decimal without a zero at its end has the coarsest grid of its value. -/
theorem exponent_le_of_value (reduced : d.coefficient % 10 ≠ 0) (same : d.value = f.value) :
    f.exponent ≤ d.exponent := by
  by_contra finer
  obtain ⟨k, more⟩ : ∃ k : Nat, f.exponent = d.exponent + (k + 1 : Nat) :=
    ⟨(f.exponent - d.exponent - 1).toNat, by omega⟩
  have unit : (0 : ℚ) < 10 ^ d.exponent := by positivity
  rw [value, value, more, zpow_add₀ (by norm_num), zpow_natCast, mul_left_comm, mul_comm] at same
  have cast : (d.coefficient : ℚ) = f.coefficient * 10 ^ (k + 1) := mul_left_cancel₀ unit.ne' same
  have whole : d.coefficient = f.coefficient * 10 ^ (k + 1) := by exact_mod_cast cast
  rw [pow_succ, ← mul_assoc] at whole
  omega

/-- Without a zero at its end, no decimal of the same value has fewer digits. -/
theorem length_digits_le_of_value (reduced : d.coefficient % 10 ≠ 0) (same : d.value = f.value) :
    d.digits.length ≤ f.digits.length := by
  have positive : 0 < d.value := by
    have nonzero : 0 < d.coefficient := by omega
    unfold value
    positivity
  have points := point_eq_of_value positive same
  have grids := exponent_le_of_value reduced same
  unfold point at points
  omega

end Decimal

namespace Number

variable {n : Number} {m : Nat} {q : Int} {tie : Tie}

theorem stripZeros_reduced {fuel : Nat} {d : Decimal} (positive : 0 < d.coefficient)
    (small : d.coefficient < 10 ^ fuel) : (stripZeros fuel d).coefficient % 10 ≠ 0 := by
  induction fuel generalizing d with
  | zero => omega
  | succ fuel ih =>
    rw [stripZeros]
    split
    · next zero =>
      rw [pow_succ] at small
      exact ih (by dsimp only; omega) (by dsimp only; omega)
    · next nonzero => exact nonzero

/-- What the search finds has one digit for every grid from the leading digit down. -/
theorem length_found_le {c : Nat} {g p : Int} {d : Decimal} (reduced : d.coefficient % 10 ≠ 0)
    (stands : d.value = c * 10 ^ g) (bound : c ≤ lower m q g + 1) (grid : g ≤ p)
    (high : (m * 2 ^ q : ℚ) < 10 ^ (p + 1)) : (d.digits.length : Int) ≤ p + 1 - g := by
  have unit : (0 : ℚ) < 10 ^ g := by positivity
  obtain ⟨k, size⟩ : ∃ k : Nat, p + 1 - g = k := ⟨(p + 1 - g).toNat, by omega⟩
  have below : lower m q g < 10 ^ k := by
    have scaled : (lower m q g * 10 ^ g : ℚ) < 10 ^ k * 10 ^ g := by
      rw [← zpow_natCast, ← zpow_add₀ (by norm_num), ← size, sub_add_cancel]
      exact (lower_bounds m q g).1.trans_lt high
    have cast : (lower m q g : ℚ) < 10 ^ k := lt_of_mul_lt_mul_right scaled unit.le
    exact_mod_cast cast
  rw [size, Int.ofNat_le]
  rcases eq_or_lt_of_le (bound.trans below) with carry | inside
  · have one : d.value = (Decimal.mk 1 (k + g)).value := by
      rw [stands, carry, Decimal.value, zpow_add₀ (by norm_num), zpow_natCast]
      push_cast
      ring
    have single := Decimal.length_digits_le_of_value reduced one
    have length : (Nat.toDigits 10 1).length = 1 := by decide
    change d.digits.length ≤ (Nat.toDigits 10 1).length at single
    omega
  · have digits : (Decimal.mk c g).digits.length ≤ k :=
      (Nat.length_toDigits_le_iff (b := 10) (by norm_num) (by omega)).2 inside
    exact (Decimal.length_digits_le_of_value (f := ⟨c, g⟩) reduced stands).trans digits

/-- No decimal in the interval of a number has fewer digits than the shortest one. -/
theorem length_shortest_le (finite : n.absolute = .finite m q) (positive : 0 < m) {f : Decimal}
    (near : Near m q f.value) : (shortest tie m q).digits.length ≤ f.digits.length := by
  obtain ⟨-, low_q, high_q, fields⟩ := magnitude_of_absolute finite
  have exact_pos : (0 : ℚ) < m * 2 ^ q := by positivity
  obtain ⟨p, low, high⟩ := exists_mem_Ico_zpow exact_pos (show (1 : ℚ) < 10 by norm_num)
  obtain ⟨c, g, same, bound, grid, near_c, coarser⟩ :=
    exists_first_hit tie positive low_q high_q (by omega) low high
  have c_pos : 0 < c := Decimal.coefficient_pos_of_value (d := ⟨c, g⟩) (near_c.pos positive)
  have found : ((shortest tie m q).digits.length : Int) ≤ p + 1 - g := by
    rw [same]
    refine length_found_le (stripZeros_reduced c_pos ?_) (stripZeros_value _ _) bound grid high
    exact (Decimal.coefficient_bounds (d := ⟨c, g⟩) c_pos).2
  have exact := near_exact (q := q) positive
  have f_pos := Decimal.coefficient_pos_of_value (near.pos positive)
  obtain ⟨point_low, point_high⟩ := Decimal.value_bounds f_pos
  have length : 0 < f.digits.length := Nat.length_toDigits_pos
  have count : (f.digits.length : Int) + f.exponent = f.point := rfl
  -- A competitor of another order of magnitude leaves room for a power of ten.
  have leading (k : Nat) (close : Near m q (k * 10 ^ p)) : g = p := by
    by_contra other
    exact coarser p (by omega) le_rfl k close
  rcases lt_trichotomy f.point (p + 1) with less | equal | greater
  · have before : f.value ≤ (1 : Nat) * 10 ^ p := by
      rw [Nat.cast_one, one_mul]
      exact point_high.le.trans (zpow_le_zpow_right₀ (by norm_num) (by omega))
    have := leading 1 (near.between exact before (by simpa using low))
    omega
  · by_contra fewer
    exact coarser f.exponent (by omega) (by omega) f.coefficient near
  · have next : ((10 : Nat) * 10 ^ p : ℚ) = 10 ^ (p + 1) := by
      rw [zpow_add₀ (by norm_num), zpow_one, mul_comm]
      rfl
    have behind : (10 : ℚ) ^ (p + 1) ≤ f.value :=
      (zpow_le_zpow_right₀ (by norm_num) (by omega)).trans point_low
    have := leading 10 (exact.between near (high.le.trans_eq next.symm) (next.trans_le behind))
    omega

theorem shortest_reduced (positive : 0 < m) : (shortest tie m q).coefficient % 10 ≠ 0 := by
  have near : Near m q (shortest tie m q).value := near_shortest positive
  unfold shortest at near ⊢
  simp only [stripZeros_value] at near ⊢
  have nonzero := Decimal.coefficient_pos_of_value (near.pos positive)
  exact stripZeros_reduced nonzero (Decimal.coefficient_bounds nonzero).2

/-- The digits that a finite number is written with, and their scale; zero has the digit zero. -/
def shortestDecimal (n : Number) : Decimal :=
  match n.absolute with
  | .finite m q => if m = 0 then ⟨0, 0⟩ else shortest .up m q
  | _ => ⟨0, 0⟩

def IsFinite (n : Number) : Prop := ∃ m q, n.absolute = .finite m q

end Number

/-- `d` is read as `n`, has as few digits as anything that is, and no zero at its end. -/
structure Decimal.IsShortest (d : Decimal) (n : Number) : Prop where
  reads : d.toNumber n.isNegative = n
  fewest (f : Decimal) : f.toNumber n.isNegative = n → d.digits.length ≤ f.digits.length
  reduced : d.coefficient = 0 ∨ d.coefficient % 10 ≠ 0

namespace Number

variable {n : Number}

/-- Zero, or a number with shortest digits. -/
theorem IsFinite.cases (finite : n.IsFinite) :
    n.magnitude = 0 ∧ n.shortestDecimal = ⟨0, 0⟩ ∨
      ∃ m q, n.absolute = .finite m q ∧ 0 < m ∧ n.magnitude ≠ 0 ∧
        n.shortestDecimal = shortest .up m q := by
  obtain ⟨m, q, finite⟩ := finite
  have fields := magnitude_of_absolute finite
  rcases Nat.eq_zero_or_pos m with rfl | positive
  · left
    exact ⟨by omega, by simp [shortestDecimal, finite]⟩
  · right
    refine ⟨m, q, finite, positive, by omega, ?_⟩
    simp [shortestDecimal, finite, Nat.ne_of_gt positive]

theorem IsFinite.ordered (finite : n.IsFinite) : n.isUnordered = false := by
  obtain ⟨m, q, finite⟩ := finite
  exact ordered_of_absolute finite

theorem isShortest_shortestDecimal (finite : n.IsFinite) : n.shortestDecimal.IsShortest n := by
  rcases finite.cases with ⟨zero, digits⟩ | ⟨m, q, fields, positive, -, digits⟩ <;> rw [digits]
  · refine ⟨?_, fun f _ => ?_, .inl rfl⟩
    · have self := ofMagnitude_self finite.ordered
      rwa [zero] at self
    · have length : (Nat.toDigits 10 0).length = 1 := by decide
      exact length.trans_le Nat.length_toDigits_pos
  · refine ⟨(Decimal.toNumber_eq_iff fields positive).2 (near_shortest positive), fun f reads => ?_,
      .inr (shortest_reduced positive)⟩
    exact length_shortest_le fields positive ((Decimal.toNumber_eq_iff fields positive).1 reads)

end Number
end Stencil
