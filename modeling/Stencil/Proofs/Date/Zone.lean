import Stencil.Proofs.Date.Reading

/-! The texts of zones. A text is read as the zone that it is written for, and colons are not looked at:
the texts that are read are those of the zones with colons anywhere behind the sign. -/
namespace Stencil.Zone

open Numeral (Digits)

variable {zone : Zone} {c : Char} {cs ds rest : List Char} {seconds : Nat} {east : Int}

/-- Two digits of hours alone, and two of minutes below sixty behind them, with a colon in between or
without; their time in seconds. -/
inductive Clock : List Char → Nat → Prop
  | hours {H : List Char} {h : Nat} (hours : IsPadded H 2 h) : Clock H (h * 3600)
  | minutes {H M : List Char} {h m : Nat} (hours : IsPadded H 2 h) (minutes : IsPadded M 2 m)
      (small : m < 60) : Clock (H ++ M) (h * 3600 + m * 60)
  | colon {H M : List Char} {h m : Nat} (hours : IsPadded H 2 h) (minutes : IsPadded M 2 m)
      (small : m < 60) : Clock (H ++ ':' :: M) (h * 3600 + m * 60)

/-- `UTC`, `Z` and `GMT` in any case. -/
def IsName (cs : List Char) : Prop := cs.map Char.toUpper ∈ ["UTC".toList, "Z".toList, "GMT".toList]

/-- The names of UTC, and a sign with a time of less than a day behind it; the seconds that
the zone runs ahead. -/
inductive Written (clock : List Char → Nat → Prop) : List Char → Int → Prop
  | name {cs : List Char} (known : IsName cs) : Written clock cs 0
  | ahead {rest : List Char} {seconds : Nat} (time : clock rest seconds) (small : seconds < 86400) :
      Written clock ('+' :: rest) seconds
  | behind {rest : List Char} {seconds : Nat} (time : clock rest seconds) (small : seconds < 86400) :
      Written clock ('-' :: rest) (-seconds)

def withoutColons (cs : List Char) : List Char := cs.filter (· ≠ ':')

/-- There is no colon, or the only one stands between two characters and the two at the end. -/
def ColonsInPlace (cs : List Char) : Prop :=
  ':' ∉ cs ∨ ∃ sign H M, cs = sign :: (H ++ ':' :: M) ∧ H.length = 2 ∧ M.length = 2 ∧ ':' ∉ H ++ M

theorem colon_notMem_of_digits (digits : Digits ds) : ':' ∉ ds := fun member =>
  absurd (digits _ member) (by decide)

theorem withoutColons_eq_self (none : ':' ∉ cs) : withoutColons cs = cs := by
  refine List.filter_eq_self.2 fun c member => decide_eq_true ?_
  rintro rfl
  exact none member

theorem colon_notMem_of_withoutColons (cs : List Char) : ':' ∉ withoutColons cs := by
  simp [withoutColons]

theorem withoutColons_colon {H M : List Char} (none : ':' ∉ H ++ M) :
    withoutColons (H ++ ':' :: M) = H ++ M := by
  rw [← withoutColons_eq_self none]
  simp [withoutColons]

/-- Two or four digits, and the last two of four are minutes. -/
structure IsTime (ds : List Char) : Prop where
  digits : Digits ds
  length : ds.length = 2 ∨ ds.length = 4
  small : Text.ofDigits (ds.drop 2) < 60

def secondsOf (ds : List Char) : Nat := Text.ofDigits (ds.take 2) * 3600 + Text.ofDigits (ds.drop 2) * 60

theorem secondsOf_hours (length : ds.length = 2) : secondsOf ds = Text.ofDigits ds * 3600 := by
  have no_minutes : Text.ofDigits [] = 0 := rfl
  rw [secondsOf, List.take_of_length_le length.le, List.drop_of_length_le length.le, no_minutes,
    Nat.zero_mul, Nat.add_zero]

theorem clock_iff (none : ':' ∉ ds) : Clock ds seconds ↔ IsTime ds ∧ seconds = secondsOf ds := by
  constructor
  · rintro (⟨digits, length, rfl⟩ | ⟨⟨digits, length, rfl⟩, ⟨digits', length', rfl⟩, small⟩ | _)
    · refine ⟨⟨digits, .inl length, ?_⟩, (secondsOf_hours length).symm⟩
      rw [List.drop_of_length_le length.le]
      decide
    · rw [secondsOf, List.take_left' length, List.drop_left' length]
      refine ⟨⟨digits.append digits', .inr (by simp [length, length']), ?_⟩, rfl⟩
      rwa [List.drop_left' length]
    · simp at none
  · rintro ⟨⟨digits, length | length, small⟩, rfl⟩
    · rw [secondsOf_hours length]
      exact .hours ⟨digits, length, rfl⟩
    · have clock := Clock.minutes ⟨digits.take 2, by simp [length], rfl⟩
        ⟨digits.drop 2, by simp [length], rfl⟩ small
      rwa [List.take_append_drop] at clock

theorem Clock.withoutColons (clock : Clock cs seconds) : Clock (withoutColons cs) seconds := by
  cases clock with
  | hours hours =>
    rw [withoutColons_eq_self (colon_notMem_of_digits hours.digits)]
    exact .hours hours
  | minutes hours minutes small =>
    rw [withoutColons_eq_self (colon_notMem_of_digits (hours.digits.append minutes.digits))]
    exact .minutes hours minutes small
  | colon hours minutes small =>
    rw [withoutColons_colon (colon_notMem_of_digits (hours.digits.append minutes.digits))]
    exact .minutes hours minutes small

theorem Clock.colonsInPlace (clock : Clock cs seconds) {sign : Char} (other : sign ≠ ':') :
    ColonsInPlace (sign :: cs) := by
  cases clock with
  | hours hours => exact .inl (by simp [other.symm, colon_notMem_of_digits hours.digits])
  | minutes hours minutes small =>
    have none := colon_notMem_of_digits (hours.digits.append minutes.digits)
    exact .inl (by simpa [other.symm] using none)
  | @colon H M h m hours minutes small =>
    exact .inr ⟨sign, H, M, rfl, hours.length, minutes.length,
      colon_notMem_of_digits (hours.digits.append minutes.digits)⟩

/-- Colons in their place may be left out and put back. -/
theorem Clock.of_withoutColons {sign : Char} (clock : Clock (Zone.withoutColons cs) seconds)
    (placed : ColonsInPlace (sign :: cs)) : Clock cs seconds := by
  rcases placed with none | ⟨_, H, M, whole, length, length', none⟩
  · rwa [withoutColons_eq_self fun member => none (List.mem_cons_of_mem _ member)] at clock
  · obtain rfl : cs = H ++ ':' :: M := (List.cons.inj whole).2
    rw [withoutColons_colon none] at clock
    obtain ⟨⟨digits, -, small⟩, rfl⟩ := (clock_iff none).1 clock
    rw [List.drop_left' length] at small
    rw [secondsOf, List.take_left' length, List.drop_left' length]
    have hours : Digits H := fun c member => digits c (List.mem_append_left _ member)
    have minutes : Digits M := fun c member => digits c (List.mem_append_right _ member)
    exact .colon ⟨hours, length, rfl⟩ ⟨minutes, length', rfl⟩ small

theorem isName_iff (cs : List Char) :
    ["UTC", "Z", "GMT"].contains (Text.asciiUpper (String.ofList cs)) = true ↔ IsName cs := by
  simp [IsName, Text.asciiUpper, ← String.toList_inj]

/-- A text that begins with a sign names no zone. -/
theorem not_isName {sign : Char} (signed : sign = '+' ∨ sign = '-') : ¬ IsName (sign :: rest) := by
  rcases signed with rfl | rfl <;> simp [IsName]

theorem written_iff_of_isName {clock : List Char → Nat → Prop} (known : IsName cs) :
    Written clock cs east ↔ east = 0 := by
  constructor
  · intro written
    cases written with
    | name => rfl
    | ahead => exact absurd known (not_isName (.inl rfl))
    | behind => exact absurd known (not_isName (.inr rfl))
  · rintro rfl
    exact .name known

theorem written_cons_iff {clock : List Char → Nat → Prop} {sign : Char}
    (unknown : ¬ IsName (sign :: rest)) :
    Written clock (sign :: rest) east ↔ ∃ seconds, clock rest seconds ∧ seconds < 86400 ∧
      (sign = '+' ∧ east = seconds ∨ sign = '-' ∧ east = -seconds) := by
  constructor
  · intro written
    cases written with
    | name known => exact absurd known unknown
    | ahead time small => exact ⟨_, time, small, .inl ⟨rfl, rfl⟩⟩
    | behind time small => exact ⟨_, time, small, .inr ⟨rfl, rfl⟩⟩
  · rintro ⟨seconds, time, small, ⟨rfl, rfl⟩ | ⟨rfl, rfl⟩⟩
    · exact .ahead time small
    · exact .behind time small

theorem ofSeconds?_eq_some_iff : ofSeconds? east = some zone ↔ zone.east = east := by
  obtain ⟨seconds, small⟩ := zone
  rw [ofSeconds?]
  constructor
  · intro read
    split at read
    · exact (congrArg Zone.east (Option.some.inj read)).symm
    · cases read
  · rintro rfl
    rw [dif_pos small]

theorem utc_eq_iff : utc = zone ↔ zone.east = 0 := by
  obtain ⟨seconds, small⟩ := zone
  simp [utc, eq_comm]

theorem not_written_nil {clock : List Char → Nat → Prop} : ¬ Written clock [] east := by
  intro written
  cases written with
  | name known => simp [IsName] at known

theorem isTime_iff : IsTime ds ↔ ¬ (!ds.all Char.isDigit || (ds.length ≠ 2 && ds.length ≠ 4) ||
    60 ≤ Text.ofDigits (ds.drop 2) : Bool) = true := by
  have all : ds.all Char.isDigit = true ↔ Digits ds := List.all_eq_true
  constructor
  · rintro ⟨digits, length, small⟩
    simp [all.2 digits]
    omega
  · intro accepted
    simp only [Bool.or_eq_true, not_or, Bool.and_eq_true, Bool.not_eq_true', Bool.not_eq_false,
      decide_eq_true_eq, not_and_or, not_not, not_le] at accepted
    exact ⟨all.1 accepted.1.1, accepted.1.2, accepted.2⟩

/-- A text is read if it is written for a zone once the colons behind its first character are left
out. -/
theorem ofText?_eq_some_iff_written (text : String) : ofText? text = some zone ↔
    Written (fun rest seconds => Clock (withoutColons rest) seconds) (Text.trim text.toList)
      zone.east := by
  have within := zone.east_lt
  rw [ofText?]
  generalize Text.trim text.toList = cs
  by_cases name : IsName cs
  · rw [written_iff_of_isName name]
    simp only [(isName_iff cs).2 name, if_true, Option.some.injEq, utc_eq_iff]
  simp only [mt (isName_iff cs).1 name, Bool.false_eq_true, if_false]
  cases cs with
  | nil => simp [not_written_nil]
  | cons sign rest =>
    simp only [written_cons_iff name, clock_iff (colon_notMem_of_withoutColons rest)]
    simp only [withoutColons]
    generalize rest.filter (· ≠ ':') = ds
    have cast : (Text.ofDigits (ds.take 2) * 3600 + Text.ofDigits (ds.drop 2) * 60 : Int) =
        secondsOf ds := by
      rw [secondsOf]
      push_cast
      rfl
    by_cases time : IsTime ds
    · rw [if_neg (isTime_iff.1 time), cast]
      simp only [time, true_and, exists_eq_left]
      by_cases plus : sign = '+'
      · simp [plus, ofSeconds?_eq_some_iff]
        omega
      · by_cases minus : sign = '-'
        · simp [minus, ofSeconds?_eq_some_iff]
          omega
        · simp [plus, minus]
    · rw [if_pos (not_not.1 (mt isTime_iff.2 time))]
      simp [time]

theorem colon_notMem_of_isName (known : IsName cs) : ':' ∉ cs := by
  intro member
  have colon : ':' ∈ cs.map Char.toUpper := List.mem_map.2 ⟨':', member, by decide⟩
  simp only [IsName, List.mem_cons, List.not_mem_nil, or_false] at known
  rcases known with same | same | same <;> rw [same] at colon <;> exact absurd colon (by decide)

theorem written_clock_iff : Written Clock cs east ↔
    Written (fun rest seconds => Clock (withoutColons rest) seconds) cs east ∧ ColonsInPlace cs := by
  constructor
  · intro written
    cases written with
    | name known => exact ⟨.name known, .inl (colon_notMem_of_isName known)⟩
    | ahead time small => exact ⟨.ahead time.withoutColons small, time.colonsInPlace (by decide)⟩
    | behind time small => exact ⟨.behind time.withoutColons small, time.colonsInPlace (by decide)⟩
  · rintro ⟨written, placed⟩
    cases written with
    | name known => exact .name known
    | ahead time small => exact .ahead (time.of_withoutColons placed) small
    | behind time small => exact .behind (time.of_withoutColons placed) small

/-- The texts of zones are exactly those that are read and have their colons in place; and whatever is
read is the text of a zone with colons put in or left out behind its first character. -/
theorem ofText?_eq_some_iff (text : String) (zone : Zone) :
    (Written Clock (Text.trim text.toList) zone.east ↔
      ofText? text = some zone ∧ ColonsInPlace (Text.trim text.toList)) ∧
    (ofText? text = some zone ↔
      Written (fun rest seconds => Clock (withoutColons rest) seconds) (Text.trim text.toList)
        zone.east) := by
  have read : ofText? text = some zone ↔ _ := ofText?_eq_some_iff_written text
  rw [read]
  exact ⟨written_clock_iff, Iff.rfl⟩

/-- A colon between the two digits of the hours is passed over, though no zone is written so. -/
theorem ofText?_of_misplaced_colon :
    ofText? "+0:2" = some { east := 7200 } ∧
      ∀ east, ¬ Written Clock (Text.trim "+0:2".toList) east := by
  have read : ofText? "+0:2" = some { east := 7200 } := by decide +kernel
  refine ⟨read, fun east written => ?_⟩
  have trimmed : Text.trim "+0:2".toList = ['+', '0', ':', '2'] := by decide +kernel
  rw [trimmed] at written
  rcases (written_clock_iff.1 written).2 with none | ⟨sign, H, M, whole, length, length', -⟩
  · simp at none
  · have size := congrArg List.length whole
    simp [length, length'] at size

end Stencil.Zone
