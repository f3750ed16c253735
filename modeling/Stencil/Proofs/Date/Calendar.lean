import Mathlib.Algebra.BigOperators.Group.List.Basic
import Mathlib.Logic.Function.Iterate
import Mathlib.Tactic.IntervalCases
import Stencil.Date.Calendar

/-! The days of the calendar, counted: every day has one date, and the day after has the next one. -/
namespace Stencil

section

variable {α : Type} {step : α → α} {count : α → Int} {Known : α → Prop} {a b : α} {n : Int}

/-- From `a` it takes `n` steps to `b`, or, where `n` is negative, from `b` to `a`. -/
def Steps (step : α → α) (n : Int) (a b : α) : Prop := step^[n.toNat] a = step^[(-n).toNat] b

/-- Every step raises the count by one, and nothing else has the same count. -/
structure Counts (step : α → α) (count : α → Int) (Known : α → Prop) : Prop where
  known : ∀ {a}, Known a → Known (step a)
  count_step : ∀ {a}, Known a → count (step a) = count a + 1
  unique : ∀ {a b}, Known a → Known b → count a = count b → a = b

theorem Counts.iterate (counts : Counts step count Known) (k : Nat) (known : Known a) :
    Known (step^[k] a) ∧ count (step^[k] a) = count a + k := by
  induction k with
  | zero => exact ⟨known, (Int.add_zero _).symm⟩
  | succ k ih =>
    rw [Function.iterate_succ_apply', counts.count_step ih.1, ih.2]
    exact ⟨counts.known ih.1, by omega⟩

theorem Counts.steps_iff (counts : Counts step count Known) (first : Known a) (second : Known b) :
    Steps step n a b ↔ count b = count a + n := by
  obtain ⟨known, ahead⟩ := counts.iterate n.toNat first
  obtain ⟨known', ahead'⟩ := counts.iterate (-n).toNat second
  rw [Steps]
  constructor
  · intro same
    rw [same] at ahead
    omega
  · intro same
    exact counts.unique known known' (by omega)

end

namespace Date

variable {d e : Date} {year days : Int} {lengths : List Nat}

/-- A day that the calendar has. -/
structure IsCivil (d : Date) : Prop where
  month_pos : 1 ≤ d.month
  month_le : d.month ≤ 12
  day_pos : 1 ≤ d.day
  day_le : d.day ≤ monthLength d.year d.month

def yearLength (year : Int) : Nat := (monthLengths year).sum

theorem yearLength_eq (year : Int) : yearLength year = if isLeap year then 366 else 365 := by
  unfold yearLength monthLengths
  cases isLeap year <;> rfl

theorem isLeap_iff : isLeap year = true ↔ year % 4 = 0 ∧ (year % 100 ≠ 0 ∨ year % 400 = 0) := by
  simp [isLeap]

theorem daysBeforeYear_succ (year : Int) :
    daysBeforeYear (year + 1) = daysBeforeYear year + yearLength year := by
  rw [yearLength_eq]
  split
  · next leap =>
    have := isLeap_iff.1 leap
    simp only [daysBeforeYear]
    omega
  · next common =>
    have := mt isLeap_iff.2 common
    simp only [daysBeforeYear]
    omega

/-- The years before a year, in cycles of 400, 100, 4 and 1, have their days in the same cycles. -/
theorem daysBeforeYear_of_cycles (cycle : Int) {centuries leaps years : Nat} (c : centuries ≤ 3)
    (l : leaps ≤ 24) (y : years ≤ 3) :
    daysBeforeYear (400 * cycle + 100 * centuries + 4 * leaps + years + 1) =
      146097 * cycle + 36524 * centuries + 1461 * leaps + 365 * years := by
  have before : 400 * cycle + 100 * centuries + 4 * leaps + years + 1 - 1 =
      400 * cycle + 100 * centuries + 4 * leaps + years := by omega
  have fours : (400 * cycle + 100 * centuries + 4 * leaps + years) / 4 =
      100 * cycle + 25 * centuries + leaps := by omega
  have hundreds : (400 * cycle + 100 * centuries + 4 * leaps + years) / 100 =
      4 * cycle + centuries := by omega
  have cycles : (400 * cycle + 100 * centuries + 4 * leaps + years) / 400 = cycle := by omega
  rw [daysBeforeYear, before, fours, hundreds, cycles]
  omega

theorem yearOfDay_bounds (day : Int) :
    daysBeforeYear (yearOfDay day) ≤ day ∧ day < daysBeforeYear (yearOfDay day + 1) := by
  obtain ⟨cycle, rest, small, rfl⟩ : ∃ (cycle : Int) (rest : Nat), rest < 146097 ∧
      day = 146097 * cycle + rest := ⟨day / 146097, (day % 146097).toNat, by omega, by omega⟩
  have whole : (146097 * cycle + rest) / 146097 = cycle ∧
      ((146097 * cycle + rest) % 146097).toNat = rest := by omega
  simp only [yearOfDay, whole.1, whole.2]
  -- The fourth century and the fourth year may have a day more than the others, hence `min 3`.
  generalize cent : min 3 (rest / 36524) = centuries
  obtain ⟨c, left, c_last⟩ : centuries ≤ 3 ∧ 36524 * centuries ≤ rest ∧
      (rest < 36524 * centuries + 36524 ∨ centuries = 3) := by omega
  generalize leap : (rest - 36524 * centuries) / 1461 = leaps
  obtain ⟨l, left', l_last⟩ : leaps ≤ 24 ∧ 36524 * centuries + 1461 * leaps ≤ rest ∧
      rest < 36524 * centuries + 1461 * leaps + 1461 := by omega
  generalize single : min 3 ((rest - 36524 * centuries - 1461 * leaps) / 365) = years
  obtain ⟨y, left'', y_last⟩ : years ≤ 3 ∧ 36524 * centuries + 1461 * leaps + 365 * years ≤ rest ∧
      (rest < 36524 * centuries + 1461 * leaps + 365 * years + 365 ∨ years = 3) := by omega
  clear cent leap single whole
  have before := daysBeforeYear_of_cycles cycle c l y
  rw [before, daysBeforeYear_succ (_ + 1), yearLength_eq, before]
  refine ⟨by omega, ?_⟩
  split
  · omega
  · next common =>
    rw [isLeap_iff] at common
    -- Only at the end of a century is the fourth year no leap year.
    have last : years = 3 → leaps = 24 ∧ centuries ≠ 3 := by omega
    omega

theorem daysBeforeYear_mono {year year' : Int} (le : year ≤ year') :
    daysBeforeYear year ≤ daysBeforeYear year' := by
  simp only [daysBeforeYear]
  omega

theorem yearOfDay_eq {day : Int} (low : daysBeforeYear year ≤ day)
    (high : day < daysBeforeYear (year + 1)) : yearOfDay day = year := by
  obtain ⟨low', high'⟩ := yearOfDay_bounds day
  rcases Int.lt_trichotomy (yearOfDay day) year with less | same | greater
  · have := daysBeforeYear_mono (Int.add_one_le_of_lt less)
    omega
  · exact same
  · have := daysBeforeYear_mono (Int.add_one_le_of_lt greater)
    omega

/-- The days of the months before one, which is counted from zero. -/
def daysBeforeMonth (year : Int) (month : Nat) : Nat := ((monthLengths year).take month).sum

theorem ordinal_eq (d : Date) : d.ordinal = daysBeforeMonth d.year (d.month - 1) + (d.day - 1) := rfl

theorem daysBeforeMonth_succ {month : Nat} (year : Int) (small : month < 12) :
    daysBeforeMonth year (month + 1) = daysBeforeMonth year month + monthLength year (month + 1) := by
  have length : (monthLengths year).length = 12 := rfl
  rw [daysBeforeMonth, List.sum_take_succ _ _ (length ▸ small), monthLength, Nat.add_sub_cancel,
    List.getElem?_eq_getElem (length ▸ small)]
  rfl

theorem daysBeforeMonth_le (year : Int) (month : Nat) : daysBeforeMonth year month ≤ yearLength year := by
  rw [daysBeforeMonth, yearLength, ← List.sum_take_add_sum_drop (monthLengths year) month]
  exact Nat.le_add_right _ _

theorem monthOf_add (start : Nat) {k j : Nat} (inside : j < lengths[k]?.getD 0) :
    monthOf start lengths ((lengths.take k).sum + j) = (start + k, j + 1) := by
  induction lengths generalizing start k with
  | nil => cases inside
  | cons length lengths ih =>
    cases k with
    | zero =>
      have small : j < length := inside
      simp [monthOf, small]
    | succ k =>
      have large : ¬ length + (lengths.take k).sum + j < length := by omega
      have left : length + (lengths.take k).sum + j - length = (lengths.take k).sum + j := by omega
      rw [List.take_succ_cons, List.sum_cons, monthOf, if_neg large, left,
        ih (start + 1) (by simpa using inside)]
      congr 1
      omega

/-- Every day of a run of months is in one of them. -/
theorem exists_month (rest : Nat) (small : rest < lengths.sum) :
    ∃ k j, j < lengths[k]?.getD 0 ∧ rest = (lengths.take k).sum + j := by
  induction lengths generalizing rest with
  | nil => cases small
  | cons length lengths ih =>
    by_cases first : rest < length
    · exact ⟨0, rest, first, by simp⟩
    · rw [List.sum_cons] at small
      obtain ⟨k, j, inside, same⟩ := ih (rest - length) (by omega)
      refine ⟨k + 1, j, by simpa using inside, ?_⟩
      rw [List.take_succ_cons, List.sum_cons]
      omega

theorem monthLength_pos {month : Nat} (year : Int) (low : 1 ≤ month) (high : month ≤ 12) :
    0 < monthLength year month := by
  interval_cases month <;> cases leap : isLeap year <;> simp [monthLength, monthLengths, leap]

theorem monthLength_le (year : Int) (month : Nat) : monthLength year month ≤ 31 := by
  have each : ∀ length ∈ monthLengths year, length ≤ 31 := by
    cases leap : isLeap year <;> simp [monthLengths, leap]
  rw [monthLength]
  cases found : (monthLengths year)[month - 1]? with
  | none => exact Nat.zero_le _
  | some length => exact each length (List.mem_of_getElem? found)

theorem IsCivil.ordinal_lt (civil : d.IsCivil) : d.ordinal < yearLength d.year := by
  obtain ⟨low, high, day_pos, day_le⟩ := civil
  have here := daysBeforeMonth_succ d.year (show d.month - 1 < 12 by omega)
  have all := daysBeforeMonth_le d.year (d.month - 1 + 1)
  rw [Nat.sub_add_cancel low] at here all
  rw [ordinal_eq]
  omega

theorem toDays_eq (d : Date) : d.toDays + epochDay = daysBeforeYear d.year + d.ordinal := by
  unfold toDays
  omega

theorem ofDays_toDays (civil : d.IsCivil) : ofDays d.toDays = d := by
  have inside := civil.ordinal_lt
  have year : yearOfDay (d.toDays + epochDay) = d.year := by
    rw [toDays_eq]
    refine yearOfDay_eq (by omega) ?_
    rw [daysBeforeYear_succ]
    omega
  have left : (d.toDays + epochDay - daysBeforeYear d.year).toNat = d.ordinal := by
    rw [toDays_eq]
    omega
  have month : monthOf 1 (monthLengths d.year) d.ordinal = (d.month, d.day) := by
    have day := civil.day_le
    have day' := civil.day_pos
    have month := civil.month_pos
    rw [ordinal_eq, daysBeforeMonth, monthOf_add 1 (by unfold monthLength at day; omega)]
    congr 1 <;> omega
  rw [ofDays]
  simp only [year, left, month]

theorem ofDays_spec (days : Int) : (ofDays days).IsCivil ∧ (ofDays days).toDays = days := by
  obtain ⟨low, high⟩ := yearOfDay_bounds (days + epochDay)
  generalize year : yearOfDay (days + epochDay) = y at low high
  rw [daysBeforeYear_succ] at high
  obtain ⟨k, j, inside, split⟩ : ∃ k j, j < (monthLengths y)[k]?.getD 0 ∧
      (days + epochDay - daysBeforeYear y).toNat = daysBeforeMonth y k + j :=
    exists_month _ (show _ < yearLength y by omega)
  have small : k < 12 := by
    by_contra large
    have none : (monthLengths y)[k]? = Option.none := List.getElem?_eq_none (not_lt.1 large)
    rw [none] at inside
    cases inside
  have same : ofDays days = ⟨y, 1 + k, j + 1⟩ := by
    rw [ofDays]
    simp only [year, split]
    rw [daysBeforeMonth, monthOf_add 1 inside]
  have length : monthLength y (1 + k) = (monthLengths y)[k]?.getD 0 := by
    rw [monthLength, Nat.add_sub_cancel_left]
  have ordinal : (Date.mk y (1 + k) (j + 1)).ordinal = daysBeforeMonth y k + j := by
    rw [ordinal_eq, Nat.add_sub_cancel_left, Nat.add_sub_cancel]
  rw [same]
  refine ⟨⟨by simp, by simp only; omega, by simp, by simp only; omega⟩, ?_⟩
  have counted := toDays_eq ⟨y, 1 + k, j + 1⟩
  rw [ordinal] at counted
  simp only at counted
  omega

theorem eq_of_toDays (civil : d.IsCivil) (civil' : e.IsCivil) (same : d.toDays = e.toDays) : d = e := by
  rw [← ofDays_toDays civil, same, ofDays_toDays civil']

/-- The day after. -/
def next (d : Date) : Date :=
  if d.day < monthLength d.year d.month then { d with day := d.day + 1 }
  else if d.month < 12 then ⟨d.year, d.month + 1, 1⟩
  else ⟨d.year + 1, 1, 1⟩

theorem IsCivil.next (civil : d.IsCivil) : d.next.IsCivil := by
  obtain ⟨low, high, day_pos, day_le⟩ := civil
  unfold Date.next
  split
  · exact ⟨low, high, by simp, by simp only; omega⟩
  · split
    · have later : 0 < monthLength d.year (d.month + 1) :=
        monthLength_pos d.year (by omega) (by omega)
      exact ⟨by simp, by simp only; omega, le_refl 1, later⟩
    · exact ⟨le_refl 1, by simp, le_refl 1, monthLength_pos _ (le_refl 1) (by norm_num)⟩

theorem toDays_next (civil : d.IsCivil) : d.next.toDays = d.toDays + 1 := by
  obtain ⟨low, high, day_pos, day_le⟩ := civil
  have counted := toDays_eq d
  have counted' := toDays_eq d.next
  have here := daysBeforeMonth_succ d.year (show d.month - 1 < 12 by omega)
  rw [Nat.sub_add_cancel low] at here
  rw [ordinal_eq] at counted counted'
  -- The day after lies in the same month, in the next one, or in the next year.
  unfold Date.next at counted' ⊢
  split
  · next within =>
    simp only [if_pos within] at counted' ⊢
    omega
  · next last =>
    simp only [if_neg last] at counted' ⊢
    split
    · next more =>
      simp only [if_pos more, Nat.add_sub_cancel] at counted' ⊢
      omega
    · next december =>
      have whole : daysBeforeMonth d.year d.month = yearLength d.year := by
        rw [show d.month = 12 by omega]
        rfl
      simp only [if_neg december, daysBeforeYear_succ] at counted' ⊢
      have january : daysBeforeMonth (d.year + 1) (1 - 1) = 0 := rfl
      omega

/-- Days are counted one by one. -/
theorem next_counts : Counts next toDays IsCivil :=
  ⟨IsCivil.next, toDays_next, eq_of_toDays⟩

/-- The first of January 1970. -/
def epoch : Date := ⟨1970, 1, 1⟩

theorem isCivil_epoch : epoch.IsCivil := ⟨by decide, by decide, by decide, by decide⟩

theorem toDays_epoch : epoch.toDays = 0 := by decide

end Date
end Stencil
