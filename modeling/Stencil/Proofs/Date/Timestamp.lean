import Stencil.Proofs.Date.LocalTime

/-! Timestamps: dates and times with the offset of their zone. They are read back as the instant that was
written, to the second, unless the year is too short. -/
namespace Stencil

variable {c : Char} {cs ds rest : List Char} {width n : Nat} {f : DateFields}

theorem IsPadded.visible (padded : IsPadded ds width n) : ∀ c ∈ ds, Text.isSpace c = false :=
  fun c member => Number.isSpace_of_isDigit (padded.digits c member)

namespace Reader

/-- Without white space nothing is read for it, whatever was read before. -/
theorem number_space_eq_none {α : Type} {least most : Nat} {next : Nat → Reader α}
    (visible : ∀ c ∈ cs, Text.isSpace c = false) :
    (number least most >>= fun n => space >>= fun _ => next n) cs = none := by
  have unspaced {rest : List Char} (behind : rest <:+ cs) : space rest = none := by
    cases rest with
    | nil => rfl
    | cons c rest => simp [space, visible c (behind.subset List.mem_cons_self)]
  have behind : digits least most cs = none ∨
      ∃ found rest, digits least most cs = some (found, rest) ∧ rest <:+ cs := by
    dsimp only [digits]
    split
    · exact .inl rfl
    · exact .inr ⟨_, _, rfl, List.drop_suffix _ _⟩
  rcases behind with unread | ⟨found, rest, read, behind⟩
  · exact bind_of_none (bind_of_none unread)
  · have number_read : number least most cs = some (Text.ofDigits found, rest) := bind_of_some read
    rw [bind_of_some number_read]
    exact bind_of_none (unspaced behind)

theorem mem_plainSigns_iff {sign : Int} :
    (c, sign) ∈ plainSigns ↔ c = '+' ∧ sign = 1 ∨ c = '-' ∧ sign = -1 := by
  simp [plainSigns]

theorem signedOffset_padded {sign : Int} {H M : List Char} {h m : Nat} (signed : (c, sign) ∈ plainSigns)
    (hours : IsPadded H 2 h) (minutes : IsPadded M 2 m) (small : m < 60) (rest : List Char) :
    signedOffset allSigns (char ':') (c :: (H ++ ':' :: (M ++ rest))) =
      some (sign * (h * 3600 + m * 60 : Nat), rest) := by
  have known : allSigns.lookup c = some sign := by
    rcases mem_plainSigns_iff.1 signed with ⟨rfl, rfl⟩ | ⟨rfl, rfl⟩ <;> decide
  have guarded : (guard (m < 60) : Reader Unit) rest = some ((), rest) := by
    simp only [guard, if_pos small]
    rfl
  simp only [signedOffset, known]
  rw [bind_of_some (number_padded hours (le_refl 2) _), bind_of_some (char_cons ':' _),
    bind_of_some (number_padded minutes (le_refl 2) _), bind_of_some guarded]
  rfl

end Reader

namespace DateFields

open Reader LayoutPart

theorem internetOffset_padded {sign : Int} {H M : List Char} {h m : Nat}
    (signed : (c, sign) ∈ plainSigns) (hours : IsPadded H 2 h) (minutes : IsPadded M 2 m)
    (small : m < 60) :
    internetOffset (c :: (H ++ ':' :: M)) = some (sign * (h * 3600 + m * 60 : Nat), []) := by
  obtain ⟨zulu, zulu'⟩ : c ≠ 'Z' ∧ c ≠ 'z' := by
    rcases mem_plainSigns_iff.1 signed with ⟨rfl, -⟩ | ⟨rfl, -⟩ <;> decide
  have offset := signedOffset_padded signed hours minutes small []
  rw [List.append_nil] at offset
  refine (bind_of_some (maybe_char_of_ne zulu _)).trans ?_
  exact (bind_of_some (maybe_char_of_ne zulu' _)).trans offset

/-- The text `2007-08-14T13:05:00+02:00`, where the year has `width` digits, and its fields. -/
inductive Timestamp (width : Nat) : DateFields → List Char → Prop
  | mk (Y M D h m s H N : List Char) (c : Char) {year month day hour minute second hours minutes : Nat}
      {sign : Int} (years : IsPadded Y width year) (months : IsPadded M 2 month)
      (days : IsPadded D 2 day) (clock : IsPadded h 2 hour) (past : IsPadded m 2 minute)
      (seconds : IsPadded s 2 second) (signed : (c, sign) ∈ plainSigns) (ahead : IsPadded H 2 hours)
      (rest : IsPadded N 2 minutes) (small : minutes < 60) :
      Timestamp width
        { year, month, day, hour, minute, second,
          offset := some (sign * (hours * 3600 + minutes * 60 : Nat)) }
        (Y ++ '-' :: (M ++ '-' :: (D ++ 'T' :: (h ++ ':' :: (m ++ ':' :: (s ++ c :: (H ++ ':' :: N)))))))

theorem ofLayout?_of_none {layout : Reader DateFields} {zone : Zone} (unread : layout cs = none) :
    ofLayout? layout zone cs = none := by
  simp only [ofLayout?, unread]

theorem ofLayout?_of_rest {layout : Reader DateFields} {zone : Zone}
    (read : layout cs = some (f, c :: rest)) : ofLayout? layout zone cs = none := by
  simp only [ofLayout?, read]

namespace Timestamp

variable {zone : Zone}

theorem visible (timestamp : Timestamp width f cs) : ∀ c ∈ cs, Text.isSpace c = false := by
  obtain ⟨Y, M, D, h, m, s, H, N, c, years, months, days, clock, past, seconds, signed, ahead, rest, -⟩ :=
    timestamp
  have sign_visible : Text.isSpace c = false := by
    rcases mem_plainSigns_iff.1 signed with ⟨rfl, -⟩ | ⟨rfl, -⟩ <;> decide
  simp only [List.forall_mem_append, List.forall_mem_cons]
  exact ⟨years.visible, by decide, months.visible, by decide, days.visible, by decide, clock.visible,
    by decide, past.visible, by decide, seconds.visible, sign_visible, ahead.visible, by decide,
    rest.visible⟩

theorem exists_digit (timestamp : Timestamp (width + 1) f cs) :
    ∃ c rest, cs = c :: rest ∧ c.isDigit = true := by
  obtain ⟨Y, M, D, h, m, s, H, N, c, years⟩ := timestamp
  obtain ⟨c, digits, rfl, digit⟩ := years.exists_digit
  exact ⟨c, _, rfl, digit⟩

theorem trim_eq (timestamp : Timestamp width f cs) : Text.trim cs = cs :=
  Number.trim_of_visible timestamp.visible

theorem ofText?_eq_none (timestamp : Timestamp (width + 1) f cs) : Number.ofText? cs = none := by
  have trimmed := timestamp.trim_eq
  obtain ⟨Y, M, D, h, m, s, H, N, c, years⟩ := timestamp
  exact years.ofText?_eq_none trimmed

/-- A year of four digits makes an internet timestamp. -/
theorem internet_eq (timestamp : Timestamp 4 f cs) : internet cs = some (f, []) := by
  obtain ⟨Y, M, D, h, m, s, H, N, c, years, months, days, clock, past, seconds, signed, ahead, rest, small⟩ :=
    timestamp
  have dot : c ≠ '.' := by
    rcases mem_plainSigns_iff.1 signed with ⟨rfl, -⟩ | ⟨rfl, -⟩ <;> decide
  rw [internet, bind_of_some (number_padded years (le_refl 4) _), bind_of_some (char_cons '-' _),
    bind_of_some (number_padded months (le_refl 2) _), bind_of_some (char_cons '-' _),
    bind_of_some (number_padded days (le_refl 2) _)]
  refine (bind_of_some (show _ = some ('T', _) from rfl)).trans ?_
  refine (bind_of_some (show _ = some ((), _) from rfl)).trans ?_
  rw [List.tail_cons, bind_of_some (number_padded clock (le_refl 2) _), bind_of_some (char_cons ':' _),
    bind_of_some (number_padded past (le_refl 2) _), bind_of_some (char_cons ':' _),
    bind_of_some (number_padded seconds (le_refl 2) _), bind_of_some (maybe_char_of_ne dot _)]
  refine (bind_of_some (show _ = some (0, _) from rfl)).trans ?_
  exact bind_of_some (internetOffset_padded signed ahead rest small)

theorem internet_eq_none (timestamp : Timestamp width f cs) (short : width < 4) : internet cs = none := by
  obtain ⟨Y, M, D, h, m, s, H, N, c, years⟩ := timestamp
  refine bind_of_none (number_eq_none years.digits ?_ ?_ (by simp)) <;> rw [years.length] <;> omega

/-- The day of a mail header has a space behind it. -/
theorem mail_eq_none (timestamp : Timestamp (width + 1) f cs) : mail cs = none := by
  have visible := timestamp.visible
  obtain ⟨c, rest, rfl, digit⟩ := timestamp.exists_digit
  have weekday := maybe_of_none (name_eq_none digit rest Stamp.weekdayNames_letters)
  rw [mail, bind_of_some (skipSpace_of_isDigit digit _), bind_of_some weekday]
  refine (bind_of_some (skipSpace_of_isDigit digit _)).trans ?_
  exact number_space_eq_none visible

theorem status_eq_none (timestamp : Timestamp (width + 1) f cs) :
    LayoutPart.readAll statusParts {} cs = none := by
  obtain ⟨c, rest, rfl, digit⟩ := timestamp.exists_digit
  exact bind_of_none (bind_of_none (name_eq_none digit rest Stamp.weekdayNames_letters))

/-- Between the date and the time a letter is no space. -/
theorem spaced_eq_none (timestamp : Timestamp (width + 1) f cs) (le : width + 1 ≤ 4)
    (others : List LayoutPart) :
    LayoutPart.readAll (dateParts ++ [.space] ++ minuteParts ++ others) {} cs = none := by
  obtain ⟨Y, M, D, h, m, s, H, N, c, years, months, days⟩ := timestamp
  rw [List.append_assoc, List.append_assoc, readAll_dateParts years le months days]
  rfl

theorem plain_eq_none (timestamp : Timestamp (width + 1) f cs) (le : width + 1 ≤ 4) :
    ofLayout? (LayoutPart.readAll (dateParts ++ [.literal 'T'] ++ secondParts) {}) zone cs = none := by
  obtain ⟨Y, M, D, h, m, s, H, N, c, years, months, days, clock, past, seconds⟩ := timestamp
  have date := readAll_dateParts (f := {}) years le months days ([.literal 'T'] ++ secondParts)
    ('T' :: (h ++ ':' :: (m ++ ':' :: (s ++ c :: (H ++ ':' :: N)))))
  have letter := date.trans (readAll_cons_of_some _ (read_literal 'T' _))
  exact ofLayout?_of_rest (letter.trans (readAll_secondParts clock past seconds [] _))

theorem date_eq_none (timestamp : Timestamp (width + 1) f cs) (le : width + 1 ≤ 4) :
    ofLayout? (LayoutPart.readAll dateParts {}) zone cs = none := by
  obtain ⟨Y, M, D, h, m, s, H, N, c, years, months, days⟩ := timestamp
  exact ofLayout?_of_rest (readAll_dateParts years le months days [] _)

/-- Only the first layout reads a timestamp, and it has to find four digits. -/
theorem findSome?_layouts (timestamp : Timestamp (width + 1) f cs) (le : width + 1 ≤ 4) (zone : Zone) :
    layouts.findSome? (ofLayout? · zone cs) = if width = 3 then f.toInstant? zone else none := by
  have others : layouts.tail.findSome? (ofLayout? · zone cs) = none := by
    have offset := timestamp.spaced_eq_none le [.literal ':', .second, .space, .offset]
    have seconds := timestamp.spaced_eq_none le [.literal ':', .second]
    have minutes := timestamp.spaced_eq_none le []
    refine List.findSome?_eq_none_iff.2 fun layout member => ?_
    simp only [layouts, List.tail_cons, List.mem_cons, List.not_mem_nil, or_false] at member
    rcases member with rfl | rfl | rfl | rfl | rfl | rfl | rfl
    · exact ofLayout?_of_none timestamp.mail_eq_none
    · exact ofLayout?_of_none timestamp.status_eq_none
    · exact ofLayout?_of_none offset
    · exact ofLayout?_of_none seconds
    · exact timestamp.plain_eq_none le
    · exact ofLayout?_of_none minutes
    · exact timestamp.date_eq_none le
  have first : ofLayout? internet zone cs = if width = 3 then f.toInstant? zone else none := by
    split
    · next full =>
      subst full
      simp only [ofLayout?, timestamp.internet_eq]
    · next short => exact ofLayout?_of_none (timestamp.internet_eq_none (by omega))
  rw [show layouts = internet :: layouts.tail from rfl, List.findSome?_cons, others, first]
  cases (if width = 3 then f.toInstant? zone else none) <;> rfl

end Timestamp
end DateFields

open DateFields in
theorem Instant.ofText?_timestamp {text : String} (timestamp : Timestamp (width + 1) f text.toList)
    (le : width + 1 ≤ 4) (zone : Zone) (now : Instant) :
    Instant.ofText? text zone now = if width = 3 then f.toInstant? zone else none := by
  have no_now : Text.asciiLower (String.ofList text.toList) ≠ "now" := by
    obtain ⟨c, rest, whole, digit⟩ := timestamp.exists_digit
    rw [whole]
    exact Reader.asciiLower_ne_now digit _
  simp only [Instant.ofText?, timestamp.trim_eq, if_neg no_now]
  exact timestamp.findSome?_layouts le zone

namespace Moment

variable {m : Moment}

/-- `2007-08-14T13:05:00+02:00`; the year has as many digits as it needs. -/
def timestamp (m : Moment) : String :=
  let t := m.localTime
  integerText t.date.year ++ "-" ++ Text.padded 2 t.date.month ++ "-" ++ Text.padded 2 t.date.day ++
    "T" ++ Text.padded 2 t.hour ++ ":" ++ Text.padded 2 t.minute ++ ":" ++
    Text.padded 2 t.secondOfMinute ++ m.offsetText ":"

theorem format_timestamp (m : Moment) : m.format "c" = m.timestamp := by
  rw [← String.toList_inj]
  simp [format, fill, fieldOrFormat?, isoFormat, field?, timestamp]

theorem exists_offset (m : Moment) (minutes : m.zone.east % 60 = 0) :
    ∃ c sign hours past, (c, sign) ∈ Reader.plainSigns ∧ past < 60 ∧
      m.zone.east = sign * (hours * 3600 + past * 60 : Nat) ∧ hours < 10 ^ 2 ∧
      (m.offsetText ":").toList =
        c :: ((Text.padded 2 hours).toList ++ ':' :: (Text.padded 2 past).toList) := by
  have small := m.zone.east_lt
  let hours := m.zone.east.natAbs / 3600
  let past := m.zone.east.natAbs % 3600 / 60
  by_cases behind : m.zone.east < 0
  · refine ⟨'-', -1, hours, past, by simp [Reader.plainSigns], ?_, ?_, ?_, ?_⟩
    · omega
    · omega
    · omega
    · simp [offsetText, behind, hours, past]
  · refine ⟨'+', 1, hours, past, by simp [Reader.plainSigns], ?_, ?_, ?_, ?_⟩
    · omega
    · omega
    · omega
    · simp [offsetText, behind, hours, past]

/-- What is written in a zone of whole minutes is a timestamp with the fields of the local time. -/
theorem exists_timestamp (m : Moment) (civil : m.localTime.IsCivil) (minutes : m.zone.east % 60 = 0)
    (low : 0 ≤ m.localTime.date.year) (high : m.localTime.date.year ≤ 9999) :
    ∃ width, DateFields.Timestamp (width + 1)
        { m.localTime.fields with offset := some m.zone.east } m.timestamp.toList ∧
      width + 1 ≤ 4 ∧ (width = 3 ↔ 1000 ≤ m.localTime.date.year) := by
  obtain ⟨width, years, le, full⟩ := LocalTime.exists_padded_year low high
  obtain ⟨months, days, clock, past, seconds⟩ := civil.isPadded
  obtain ⟨c, sign, hours, rest, signed, small, east, hours_lt, offset⟩ := m.exists_offset minutes
  refine ⟨width, ?_, le, full⟩
  have written := DateFields.Timestamp.mk _ _ _ _ _ _ _ _ c years months days clock past seconds signed
    (isPadded_padded hours_lt (by norm_num)) (isPadded_padded (show rest < 10 ^ 2 by omega) (by norm_num))
    small
  rw [Int.toNat_of_nonneg low, ← east] at written
  simpa [timestamp, offset, LocalTime.fields] using written

end Moment

/-- The clocks of a zone and its offset give the instant back. -/
theorem Instant.toInstant_toLocal {i : Instant} (zone : Zone) (whole : i.nanos = 0) :
    (i.toLocal zone).toInstant zone = i := by
  have seconds : ((i.toLocal zone).toInstant zone).seconds = (i.toLocal zone).count - zone.east := rfl
  rw [(i.toLocal_spec zone whole).2, Int.add_sub_cancel] at seconds
  obtain ⟨_, nanos⟩ := i
  exact congrArg (Instant.mk · nanos) seconds

namespace Moment

variable {m : Moment}

/-- The fields of a timestamp are read in their own zone, whatever zone the reader has. -/
theorem toInstant?_fields (whole : m.instant.nanos = 0) (low : 0 ≤ m.localTime.date.year)
    (high : m.localTime.date.year ≤ 9999) (reader : Zone) :
    DateFields.toInstant? { m.localTime.fields with offset := some m.zone.east } reader =
      some m.instant := by
  have civil : m.localTime.IsCivil := (m.instant.toLocal_spec m.zone whole).1
  have zone : Zone.ofSeconds? m.zone.east = some m.zone := dif_pos m.zone.east_lt
  rw [DateFields.toInstant?, LocalTime.toLocal?_fields civil low high]
  simp only [Option.bind_eq_bind, Option.bind_some, zone, LocalTime.toInstant?_eq civil low high]
  exact congrArg some (Instant.toInstant_toLocal m.zone whole)

/-- A timestamp is read as a date exactly if its year has four digits. -/
theorem toInstant_timestamp (whole : m.instant.nanos = 0) (minutes : m.zone.east % 60 = 0)
    (low : 0 ≤ m.localTime.date.year) (high : m.localTime.date.year ≤ 9999) (reader : Zone)
    (now : Instant) :
    (Value.string m.timestamp).toInstant reader now =
      if 1000 ≤ m.localTime.date.year then .ok m.instant
      else .error (.evaluation (.unknownDate m.timestamp)) := by
  have civil := (m.instant.toLocal_spec m.zone whole).1
  obtain ⟨width, timestamp, le, full⟩ := m.exists_timestamp civil minutes low high
  have read := Instant.ofText?_timestamp timestamp le reader now
  rw [toInstant?_fields whole low high] at read
  simp only [Value.toInstant, timestamp.ofText?_eq_none, read, ← full]
  by_cases four : width = 3
  · simp only [four, if_true]
  · simp only [four, if_false]

end Moment

namespace Value

variable {shown : Zone} {config : Config} {n : Number} {ms : Int}

/-- The years 0 to 9999 have instants. -/
theorem toInstant_number (timestamp : n.truncate? = some ms)
    (low : 0 ≤ ((Instant.ofMilliseconds ms).toLocal shown).date.year)
    (high : ((Instant.ofMilliseconds ms).toLocal shown).date.year ≤ 9999) (zone : Zone) (now : Instant) :
    (number n).toInstant zone now = .ok (Instant.ofMilliseconds ms) := by
  have local_time := Instant.toLocal_spec (i := ⟨ms / 1000, 0⟩) shown rfl
  have bounds := local_time.1.count_bounds low high
  have east := shown.east_lt
  have seconds : (Instant.ofMilliseconds ms).seconds = ms / 1000 := rfl
  rw [local_time.2] at bounds
  have in_range : (Instant.ofMilliseconds ms).isInRange = true :=
    Instant.isInRange_of_bounds (by simp only at bounds; omega) (by simp only at bounds; omega)
  simp only [toInstant, instantOfNumber, timestamp, in_range, if_true]

/-- A number is a timestamp in milliseconds. The format `c` shows it as a text that is a date again, and
of the same second, wherever it is read; but the year stands there with as few digits as it needs, and
with fewer than four the text is no date at all. -/
theorem formatDate_read_back (n : Number) (ms : Int) (config : Config) (now : Instant)
    (zone : Option String) (shown : Zone) (timestamp : n.truncate? = some ms)
    (accepted : shownZone? config zone = some shown) (minutes : shown.east % 60 = 0)
    (low : 0 ≤ ((Instant.ofMilliseconds ms).toLocal shown).date.year)
    (high : ((Instant.ofMilliseconds ms).toLocal shown).date.year ≤ 9999) :
    ∃ text, (number n).formatDate (some "c") zone config now = .ok text ∧
      ∀ reader later, (string text).toInstant reader later =
        if 1000 ≤ ((Instant.ofMilliseconds ms).toLocal shown).date.year then .ok ⟨ms / 1000, 0⟩
        else .error (.evaluation (.unknownDate text)) := by
  -- The part of a second does not show.
  obtain ⟨m, same⟩ : ∃ m : Moment, m = ⟨⟨ms / 1000, 0⟩, shown⟩ := ⟨_, rfl⟩
  have date : m.localTime.date = ((Instant.ofMilliseconds ms).toLocal shown).date := by
    rw [same]
    rfl
  have instant := toInstant_number timestamp low high config.timezone now
  rw [← date] at low high ⊢
  have written : (Moment.mk (Instant.ofMilliseconds ms) shown).timestamp = m.timestamp := by
    rw [same]
    rfl
  refine ⟨m.timestamp, ?_, fun reader later => ?_⟩
  · rw [formatDate_of_toInstant _ zone accepted instant, Moment.format_timestamp, written]
  · rw [Moment.toInstant_timestamp (same ▸ rfl) (same ▸ minutes) low high reader later, same]

/-- A millisecond before 1970, in a zone behind UTC. -/
theorem formatDate_read_back_of_last_second :
    let n : Number := .nearest true 1 1
    let shown : Zone := { east := -1800 }
    n.truncate? = some (-1) ∧ ((Instant.ofMilliseconds (-1)).toLocal shown).date = ⟨1969, 12, 31⟩ ∧
      ∃ text, (number n).formatDate (some "c") (some "-00:30") {} ⟨0, 0⟩ = .ok text ∧
        (∀ reader later, (string text).toInstant reader later = .ok ⟨-1, 0⟩) ∧
        text = "1969-12-31T23:29:59-00:30" := by
  intro n shown
  have whole : n.truncate? = some (-1) := by decide +kernel
  have date : ((Instant.ofMilliseconds (-1)).toLocal shown).date = ⟨1969, 12, 31⟩ := by decide +kernel
  have accepted : shownZone? {} (some "-00:30") = some shown := by decide +kernel
  have written : (number n).formatDate (some "c") (some "-00:30") {} ⟨0, 0⟩ =
      .ok "1969-12-31T23:29:59-00:30" := by decide +kernel
  obtain ⟨text, shown_text, read⟩ := formatDate_read_back n (-1) {} ⟨0, 0⟩ (some "-00:30") shown whole
    accepted (by decide) (by rw [date]; decide) (by rw [date]; decide)
  refine ⟨whole, date, text, shown_text, fun reader later => ?_, ?_⟩
  · rw [read, date]
    rfl
  · exact Except.ok.inj (shown_text.symm.trans written)

/-- The last second of the year 999. -/
theorem formatDate_of_three_digits :
    let n : Number := .nearest true 30610224001000 1
    n.integer? = some (-30610224001000) ∧
      (number n).formatDate (some "c") none {} ⟨0, 0⟩ = .ok "999-12-31T23:59:59+00:00" ∧
      (string "999-12-31T23:59:59+00:00").toInstant .utc ⟨0, 0⟩ =
        .error (.evaluation (.unknownDate "999-12-31T23:59:59+00:00")) := by
  intro n
  exact ⟨by decide +kernel, by decide +kernel, by decide +kernel⟩

end Value
end Stencil
