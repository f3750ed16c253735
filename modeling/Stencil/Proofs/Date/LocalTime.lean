import Stencil.Date.Format
import Stencil.Filter.Apply
import Stencil.Proofs.Date.Calendar
import Stencil.Proofs.Date.Reading

/-! Local times that are read and written again. A text without an offset is read in the zone of the
settings and written in the zone that is asked for; the clock is set forward by the distance of the two,
across days, months and years. -/
namespace Stencil

namespace LocalTime

variable {t u : LocalTime} {zone : Zone}

/-- A time of a day that the calendar has, in whole seconds. -/
structure IsCivil (t : LocalTime) : Prop where
  date : t.date.IsCivil
  second_lt : t.second < 86400
  nanos_eq : t.nanos = 0

/-- The seconds that a clock went on since the first of January 1970. -/
def count (t : LocalTime) : Int := t.date.toDays * 86400 + t.second

/-- A second later. -/
def tick (t : LocalTime) : LocalTime :=
  if t.second + 1 < 86400 then { t with second := t.second + 1 }
  else { t with date := t.date.next, second := 0 }

theorem IsCivil.tick (civil : t.IsCivil) : t.tick.IsCivil := by
  obtain ⟨date, second_lt, whole⟩ := civil
  unfold LocalTime.tick
  split
  · next within => exact ⟨date, within, whole⟩
  · exact ⟨date.next, by norm_num, whole⟩

theorem count_tick (civil : t.IsCivil) : t.tick.count = t.count + 1 := by
  have second_lt := civil.second_lt
  unfold LocalTime.tick
  split
  · simp only [count]
    omega
  · simp only [count, Date.toDays_next civil.date]
    omega

theorem eq_of_count (civil : t.IsCivil) (civil' : u.IsCivil) (same : t.count = u.count) : t = u := by
  obtain ⟨date, second_lt, whole⟩ := civil
  obtain ⟨date', second_lt', whole'⟩ := civil'
  simp only [count] at same
  have days : t.date.toDays = u.date.toDays := by omega
  obtain ⟨d, second, nanos⟩ := t
  obtain ⟨d', second', nanos'⟩ := u
  obtain rfl : d = d' := Date.eq_of_toDays date date' days
  simp only at same whole whole' second_lt second_lt'
  obtain rfl : second = second' := by omega
  rw [whole, whole']

theorem tick_counts : Counts tick count IsCivil :=
  ⟨IsCivil.tick, count_tick, eq_of_count⟩

end LocalTime

theorem Instant.toLocal_spec {i : Instant} (zone : Zone) (whole : i.nanos = 0) :
    (i.toLocal zone).IsCivil ∧ (i.toLocal zone).count = i.seconds + zone.east := by
  obtain ⟨civil, days⟩ := Date.ofDays_spec ((i.seconds + zone.east) / 86400)
  refine ⟨⟨civil, ?_, whole⟩, ?_⟩
  · simp only [toLocal]
    omega
  · simp only [LocalTime.count, toLocal, days]
    omega

/-- The years that have dates reach far beyond those of four digits. -/
theorem Instant.isInRange_of_bounds {i : Instant} (low : -10 ^ 11 - 86400 < i.seconds)
    (high : i.seconds < 10 ^ 12 + 86400) : i.isInRange = true := by
  have bounds : Instant.firstSecond < -10 ^ 12 ∧ 10 ^ 12 + 86400 < Instant.lastSecond := by
    decide +kernel
  rw [Instant.isInRange, Bool.and_eq_true]
  exact ⟨decide_eq_true (by omega), decide_eq_true (by omega)⟩

namespace LocalTime

variable {t : LocalTime} {zone : Zone}

/-- `2007-08-14 13:05:00`; the year has as many digits as it needs. -/
def written (t : LocalTime) : String :=
  Moment.integerText t.date.year ++ "-" ++ Text.padded 2 t.date.month ++ "-" ++
    Text.padded 2 t.date.day ++ " " ++ Text.padded 2 t.hour ++ ":" ++ Text.padded 2 t.minute ++ ":" ++
    Text.padded 2 t.secondOfMinute

def fields (t : LocalTime) : DateFields where
  year := t.date.year
  month := t.date.month
  day := t.date.day
  hour := t.hour
  minute := t.minute
  second := t.secondOfMinute

/-- The year has four digits from 1000 on. -/
theorem exists_padded_year {year : Int} (low : 0 ≤ year) (high : year ≤ 9999) :
    ∃ width, IsPadded (Moment.integerText year).toList (width + 1) year.toNat ∧ width + 1 ≤ 4 ∧
      (width = 3 ↔ 1000 ≤ year) := by
  have sign : ¬ year < 0 := by omega
  have same : year.natAbs = year.toNat := by omega
  rw [Moment.integerText, if_neg sign, same]
  have most : (Nat.repr year.toNat).length ≤ 4 := by
    rw [← String.length_toList, Nat.toList_repr]
    exact (Nat.length_toDigits_le_iff (b := 10) (by norm_num) (by norm_num)).2 (by omega)
  have less : (Nat.repr year.toNat).length ≤ 3 ↔ year < 1000 := by
    rw [← String.length_toList, Nat.toList_repr,
      Nat.length_toDigits_le_iff (b := 10) (by norm_num) (by norm_num)]
    omega
  have digits : Numeral.Digits (Nat.repr year.toNat).toList := by
    rw [Nat.toList_repr]
    exact Numeral.digits_digits (d := ⟨year.toNat, 0⟩)
  have positive : 0 < (Nat.repr year.toNat).length := by
    rw [← String.length_toList, Nat.toList_repr]
    exact List.length_pos_of_ne_nil Nat.toDigits_ne_nil
  refine ⟨(Nat.repr year.toNat).length - 1, ⟨digits, ?_, Value.ofDigits_repr _⟩, by omega, by omega⟩
  rw [String.length_toList]
  omega

theorem IsCivil.isPadded (civil : t.IsCivil) :
    IsPadded (Text.padded 2 t.date.month).toList 2 t.date.month ∧
      IsPadded (Text.padded 2 t.date.day).toList 2 t.date.day ∧
      IsPadded (Text.padded 2 t.hour).toList 2 t.hour ∧
      IsPadded (Text.padded 2 t.minute).toList 2 t.minute ∧
      IsPadded (Text.padded 2 t.secondOfMinute).toList 2 t.secondOfMinute := by
  obtain ⟨⟨-, month_le, -, day_le⟩, second_lt, -⟩ := civil
  have day_lt : t.date.day < 10 ^ 2 := by
    have := Date.monthLength_le t.date.year t.date.month
    omega
  have two {n : Nat} (small : n < 10 ^ 2) := isPadded_padded small (by norm_num)
  refine ⟨two (by omega), two day_lt, two ?_, two ?_, two ?_⟩
  · unfold hour
    omega
  · unfold minute
    omega
  · unfold secondOfMinute
    omega

theorem stamp_written (civil : t.IsCivil) (low : 1000 ≤ t.date.year) (high : t.date.year ≤ 9999) :
    DateFields.Stamp t.fields t.written.toList := by
  obtain ⟨width, years, le, full⟩ := exists_padded_year (le_trans (by norm_num) low) high
  obtain rfl := full.2 low
  obtain ⟨months, days, hours, minutes, seconds⟩ := civil.isPadded
  have stamp := DateFields.Stamp.mk _ _ _ _ _ _ years months days hours minutes seconds
  rw [Int.toNat_of_nonneg (le_trans (by norm_num) low)] at stamp
  simpa [written, fields] using stamp

/-- The fields of a time name that time, whatever their offset is. -/
theorem toLocal?_fields (civil : t.IsCivil) (low : 0 ≤ t.date.year) (high : t.date.year ≤ 9999)
    (offset : Option Int) : DateFields.toLocal? { t.fields with offset } = some t := by
  obtain ⟨⟨month_pos, month_le, day_pos, day_le⟩, second_lt, whole⟩ := civil
  have date : t.date.isValid = true := by
    have first : Date.firstYear ≤ t.date.year := le_trans (by decide) low
    have last : t.date.year ≤ Date.lastYear := le_trans high (by decide)
    simp [Date.isValid, first, last, month_pos, month_le, day_pos, day_le]
  have hour : t.hour < 24 := by unfold hour; omega
  have minute : t.minute < 60 := by unfold minute; omega
  have second : t.secondOfMinute < 60 := by unfold secondOfMinute; omega
  have split : t.hour * 3600 + t.minute * 60 + t.secondOfMinute = t.second := by
    unfold LocalTime.hour LocalTime.minute secondOfMinute
    omega
  -- A text may have the second 60; it would be read as a leap second.
  have no_leap : t.secondOfMinute ≠ 60 := Nat.ne_of_lt second
  have date' : Date.isValid ⟨t.fields.year, t.fields.month, t.fields.day⟩ = true := date
  simp only [DateFields.toLocal?, date']
  simp [fields, hour, minute, second.le, no_leap, split]
  exact congrArg (LocalTime.mk t.date t.second) whole.symm

/-- The seconds of the years 0 to 9999. -/
theorem IsCivil.count_bounds (civil : t.IsCivil) (low : 0 ≤ t.date.year) (high : t.date.year ≤ 9999) :
    -10 ^ 11 < t.count ∧ t.count < 10 ^ 12 := by
  have after := Date.daysBeforeYear_mono low
  have before := Date.daysBeforeYear_mono (Int.add_le_add_right high 1)
  rw [Date.daysBeforeYear_succ] at before
  have inside := civil.date.ordinal_lt
  have first : Date.daysBeforeYear 0 = -366 := by decide
  have last : Date.daysBeforeYear (9999 + 1) = 3652059 := by decide
  have days := Date.toDays_eq t.date
  have second_lt := civil.second_lt
  simp only [Date.epochDay] at days
  simp only [count]
  omega

theorem toInstant?_eq (civil : t.IsCivil) (low : 0 ≤ t.date.year) (high : t.date.year ≤ 9999)
    (zone : Zone) : t.toInstant? zone = some (t.toInstant zone) := by
  have bounds := civil.count_bounds low high
  have east := zone.east_lt
  have seconds : (t.toInstant zone).seconds = t.count - zone.east := rfl
  rw [toInstant?, Instant.isInRange_of_bounds (by omega) (by omega)]
  rfl

theorem toInstant?_fields (civil : t.IsCivil) (low : 0 ≤ t.date.year) (high : t.date.year ≤ 9999)
    (zone : Zone) : t.fields.toInstant? zone = some (t.toInstant zone) := by
  have known : t.fields.toLocal? = some t := toLocal?_fields civil low high none
  rw [DateFields.toInstant?, known]
  exact toInstant?_eq civil low high zone

end LocalTime

namespace Moment

theorem format_written (m : Moment) : m.format "Y-m-d H:i:s" = m.localTime.written := by
  rw [← String.toList_inj]
  simp [format, fill, fieldOrFormat?, field?, LocalTime.written]

theorem format_epoch (m : Moment) : m.format "U" = integerText m.instant.seconds := by
  rw [← String.toList_inj]
  simp [format, fill, fieldOrFormat?, field?]

end Moment

namespace Value

open LocalTime (IsCivil tick)

variable {t : LocalTime} {shown : Zone} {config : Config} {now : Instant}

theorem toInstant_written (civil : t.IsCivil) (low : 1000 ≤ t.date.year) (high : t.date.year ≤ 9999)
    (zone : Zone) (now : Instant) : (string t.written).toInstant zone now = .ok (t.toInstant zone) := by
  have stamp := t.stamp_written civil low high
  have fields := t.toInstant?_fields civil (le_trans (by norm_num) low) high zone
  have read := Instant.ofText?_stamp stamp fields now
  simp only [toInstant, stamp.ofText?_eq_none, read]

/-- The zone that is asked for, or else that of the settings. -/
def shownZone? (config : Config) : Option String → Option Zone
  | none => some config.timezone
  | some text => Zone.ofText? text

theorem formatDate_of_toInstant {v : Value} {i : Instant} (format : String) (zone : Option String)
    (accepted : shownZone? config zone = some shown)
    (instant : v.toInstant config.timezone now = .ok i) :
    v.formatDate (some format) zone config now = .ok ((Moment.mk i shown).format format) := by
  cases zone with
  | none =>
    cases accepted
    simp only [formatDate, instant]
    rfl
  | some text =>
    rw [shownZone?] at accepted
    simp only [formatDate, accepted, instant]
    rfl

/-- The text of a date and a time, with a year of four digits. Formatted as it is written it comes back;
its timestamp is that of the zone of the settings, whatever zone is asked for; and in the zone that is
asked for, clocks show the time that is as many seconds later as that zone runs ahead of the other. -/
theorem formatDate_written (t : LocalTime) (config : Config) (now : Instant) (zone : Option String)
    (shown : Zone) (civil : t.IsCivil) (low : 1000 ≤ t.date.year) (high : t.date.year ≤ 9999)
    (accepted : shownZone? config zone = some shown) :
    (string t.written).formatDate (some "Y-m-d H:i:s") none config now = .ok t.written ∧
      (∃ days, Steps Date.next days .epoch t.date ∧
        (string t.written).formatDate (some "U") zone config now =
          .ok (Moment.integerText (days * 86400 + t.second - config.timezone.east))) ∧
      ∃ u, u.IsCivil ∧ Steps tick (shown.east - config.timezone.east) t u ∧
        (string t.written).formatDate (some "Y-m-d H:i:s") zone config now = .ok u.written := by
  have instant := toInstant_written civil low high config.timezone now
  have clock (zone : Zone) := (t.toInstant config.timezone).toLocal_spec zone civil.nanos_eq
  have seconds : (t.toInstant config.timezone).seconds = t.count - config.timezone.east := rfl
  refine ⟨?_, ⟨t.date.toDays, ?_, ?_⟩, (t.toInstant config.timezone).toLocal shown, (clock shown).1, ?_, ?_⟩
  · have back : (t.toInstant config.timezone).toLocal config.timezone = t := by
      refine LocalTime.eq_of_count (clock _).1 civil ?_
      rw [(clock _).2, seconds, Int.sub_add_cancel]
    rw [formatDate_of_toInstant _ none rfl instant, Moment.format_written, Moment.localTime, back]
  · rw [Date.next_counts.steps_iff Date.isCivil_epoch civil.date, Date.toDays_epoch, Int.zero_add]
  · rw [formatDate_of_toInstant _ zone accepted instant, Moment.format_epoch, seconds, LocalTime.count]
  · rw [LocalTime.tick_counts.steps_iff civil (clock shown).1, (clock shown).2, seconds]
    omega
  · rw [formatDate_of_toInstant _ zone accepted instant, Moment.format_written, Moment.localTime]

/-- Back over midnight, from the first of March to the leap day. -/
theorem formatDate_written_of_leap_day :
    let t : LocalTime := ⟨⟨2000, 3, 1⟩, 1800, 0⟩
    let config : Config := { timezone := { east := 19800 } }
    t.written = "2000-03-01 00:30:00" ∧
      (string t.written).formatDate (some "Y-m-d H:i:s") none config ⟨0, 0⟩ = .ok t.written ∧
      ∃ u, Steps tick (-30600) t u ∧
        (string t.written).formatDate (some "Y-m-d H:i:s") (some "-03:00") config ⟨0, 0⟩ =
          .ok u.written ∧ u.written = "2000-02-29 16:00:00" := by
  intro t config
  have civil : t.IsCivil := ⟨⟨by decide, by decide, by decide, by decide⟩, by decide, rfl⟩
  have accepted : shownZone? config (some "-03:00") = some { east := -10800 } := by decide +kernel
  obtain ⟨same, -, u, -, later, written⟩ := formatDate_written t config ⟨0, 0⟩ (some "-03:00")
    { east := -10800 } civil (by decide) (by decide) accepted
  have result : (string t.written).formatDate (some "Y-m-d H:i:s") (some "-03:00") config ⟨0, 0⟩ =
      .ok "2000-02-29 16:00:00" := by decide +kernel
  refine ⟨by decide +kernel, same, u, later, written, ?_⟩
  exact Except.ok.inj (written.symm.trans result)

end Value
end Stencil
