import Stencil.Date.Reading
import Stencil.Proofs.Number.Canonical
import Stencil.Proofs.Value.IntegerKey

/-! Reading a date and a time of fixed width. Layouts with an offset do not fit them. -/
namespace Stencil

open Numeral (Digits)

variable {α β : Type} {c : Char} {cs ds rest : List Char} {width n : Nat}

/-- The digits of a number, with zeros in front up to `width`. -/
structure IsPadded (ds : List Char) (width n : Nat) : Prop where
  digits : Digits ds
  length : ds.length = width
  value : Text.ofDigits ds = n

theorem isPadded_padded (small : n < 10 ^ width) (positive : 0 < width) :
    IsPadded (Text.padded width n).toList width n := by
  have length : (Nat.repr n).length ≤ width := by
    rw [← String.length_toList, Nat.toList_repr]
    exact (Nat.length_toDigits_le_iff (b := 10) (by norm_num) positive).2 small
  have whole : (Text.padded width n).toList =
      List.replicate (width - (Nat.repr n).length) '0' ++ (Nat.repr n).toList := by
    simp [Text.padded]
  refine ⟨?_, ?_, ?_⟩ <;> rw [whole]
  · refine (Numeral.digits_zeros _).append ?_
    rw [Nat.toList_repr]
    exact Numeral.digits_digits (d := ⟨n, 0⟩)
  · rw [List.length_append, List.length_replicate, String.length_toList]
    omega
  · rw [Numeral.ofDigits_zeros_append, Value.ofDigits_repr]

theorem trimLeft_of_isDigit (digit : c.isDigit = true) (cs : List Char) :
    Text.trimLeft (c :: cs) = c :: cs :=
  Number.trimLeft_of_head fun _ first => by cases first; exact Number.isSpace_of_isDigit digit

namespace IsPadded

theorem exists_digit (padded : IsPadded ds (width + 1) n) :
    ∃ c rest, ds = c :: rest ∧ c.isDigit = true := by
  obtain ⟨c, rest, rfl⟩ := List.exists_cons_of_length_eq_add_one padded.length
  exact ⟨c, rest, rfl, padded.digits c List.mem_cons_self⟩

theorem trimLeft (padded : IsPadded ds (width + 1) n) (rest : List Char) :
    Text.trimLeft (ds ++ rest) = ds ++ rest := by
  obtain ⟨c, cs, rfl, digit⟩ := padded.exists_digit
  exact trimLeft_of_isDigit digit (cs ++ rest)

theorem ofChars?_minus (padded : IsPadded ds (width + 1) n) (rest : List Char) :
    Decimal.ofChars? (ds ++ '-' :: rest) = none := by
  obtain ⟨taken, dropped⟩ :=
    padded.digits.span (show ∀ c ∈ ('-' :: rest).head?, c.isDigit = false by simp)
  obtain ⟨c, cs, rfl, -⟩ := padded.exists_digit
  simp only [Decimal.ofChars?, taken, dropped, Decimal.fractionOfChars, Decimal.exponentOfChars?]
  simp

/-- A date is no text of a number: a sign follows the year. -/
theorem ofText?_eq_none (padded : IsPadded ds (width + 1) n) {rest : List Char}
    (trimmed : Text.trim (ds ++ '-' :: rest) = ds ++ '-' :: rest) :
    Number.ofText? (ds ++ '-' :: rest) = none := by
  have signed : Decimal.signed (ds ++ '-' :: rest) = (false, ds ++ '-' :: rest) := by
    obtain ⟨c, cs, rfl, digit⟩ := padded.exists_digit
    exact Number.signed_of_isDigit digit _
  simp only [Number.ofText?, trimmed, signed, padded.ofChars?_minus, Option.map_none]

end IsPadded

namespace Reader

theorem bind_of_some {x : Reader α} {f : α → Reader β} {a : α} (read : x cs = some (a, rest)) :
    (x >>= f) cs = f a rest := by
  change (x cs).bind (fun p => f p.1 p.2) = f a rest
  rw [read, Option.bind_some]

theorem bind_of_none {x : Reader α} {f : α → Reader β} (unread : x cs = none) :
    (x >>= f) cs = none := by
  change (x cs).bind (fun p => f p.1 p.2) = none
  rw [unread, Option.bind_none]

theorem number_padded {least : Nat} (padded : IsPadded ds width n) (le : least ≤ width)
    (rest : List Char) : number least width (ds ++ rest) = some (n, rest) := by
  obtain ⟨all, rfl, rfl⟩ := padded
  have taken : ((ds ++ rest).take ds.length).takeWhile Char.isDigit = ds := by
    rw [List.take_left, List.takeWhile_eq_self_iff.2 all]
  have read : digits least ds.length (ds ++ rest) = some (ds, rest) := by
    simp only [digits, taken, if_neg (not_lt.2 le), List.drop_left]
  exact bind_of_some read

/-- Digits end at the first other character. -/
theorem takeWhile_take {most : Nat} (digits : Digits ds) (le : ds.length ≤ most)
    (ends : ∀ c ∈ rest.head?, c.isDigit = false) :
    ((ds ++ rest).take most).takeWhile Char.isDigit = ds := by
  rw [List.take_append, List.take_of_length_le le]
  refine (digits.span fun c head => ends c ?_).1
  rw [List.head?_take] at head
  split at head
  · cases head
  · exact head

theorem number_of_ends {least most : Nat} (padded : IsPadded ds width n) (least_le : least ≤ width)
    (le_most : width ≤ most) (ends : ∀ c ∈ rest.head?, c.isDigit = false) :
    number least most (ds ++ rest) = some (n, rest) := by
  obtain ⟨all, rfl, rfl⟩ := padded
  have read : digits least most (ds ++ rest) = some (ds, rest) := by
    simp only [digits, takeWhile_take all le_most ends, if_neg (not_lt.2 least_le), List.drop_left]
  exact bind_of_some read

theorem number_eq_none {least most : Nat} (all : Digits ds) (short : ds.length < least)
    (le_most : ds.length ≤ most) (ends : ∀ c ∈ rest.head?, c.isDigit = false) :
    number least most (ds ++ rest) = none := by
  have unread : digits least most (ds ++ rest) = none := by
    simp only [digits, takeWhile_take all le_most ends, if_pos short]
  exact bind_of_none unread

theorem char_cons (c : Char) (cs : List Char) : char c (c :: cs) = some ((), cs) := if_pos rfl

theorem skipSpace_of_isDigit (digit : c.isDigit = true) (cs : List Char) :
    skipSpace (c :: cs) = some ((), c :: cs) := by
  rw [skipSpace, trimLeft_of_isDigit digit]

theorem skipSpace_padded (padded : IsPadded ds (width + 1) n) (rest : List Char) :
    skipSpace (ds ++ rest) = some ((), ds ++ rest) := by
  rw [skipSpace, padded.trimLeft]

theorem maybe_of_none {x : Reader α} (unread : x cs = none) : maybe x cs = some (none, cs) := by
  rw [maybe, unread]

theorem maybe_char_of_ne {d : Char} (ne : d ≠ c) (cs : List Char) :
    maybe (char c) (d :: cs) = some (none, d :: cs) :=
  maybe_of_none (if_neg ne)

theorem toLower_of_isDigit (digit : c.isDigit = true) : c.toLower = c := by
  refine Char.toLower_eq_of_not_isUpper fun capital => ?_
  simp only [Char.isDigit, Char.isUpper, Bool.and_eq_true, decide_eq_true_eq] at digit capital
  exact absurd (UInt32.le_trans capital.1 digit.2) (by decide)

theorem asciiLower_ne_now (digit : c.isDigit = true) (cs : List Char) :
    Text.asciiLower (String.ofList (c :: cs)) ≠ "now" := by
  intro same
  have first := congrArg (fun t => t.toList.head?) same
  simp [Text.asciiLower, toLower_of_isDigit digit] at first
  rw [first] at digit
  cases digit

/-- A name does not begin with a digit. -/
theorem name_eq_none {names : List String} (digit : c.isDigit = true) (cs : List Char)
    (letters : ∀ name ∈ names, (name.toList.head?.any fun l => !l.toLower.isDigit) = true) :
    name names (c :: cs) = none := by
  refine Option.map_eq_none_iff.2 (List.findIdx?_eq_none_iff.2 fun name member => ?_)
  have letter := letters name member
  rw [beq_eq_false_iff_ne]
  intro same
  have first := congrArg (fun t => t.toList.head?) same
  cases whole : name.toList with
  | nil => simp [whole] at letter
  | cons l ls =>
    simp [Text.asciiLower, whole, toLower_of_isDigit digit] at first
    simp [whole, first, digit] at letter

end Reader

namespace LayoutPart

open Reader

variable {f : DateFields} {part : LayoutPart}

theorem twoDigits_padded (padded : IsPadded ds 2 n) (rest : List Char) :
    twoDigits (ds ++ rest) = some (n, rest) := by
  rw [twoDigits, bind_of_some (skipSpace_padded padded rest)]
  exact number_padded padded (by norm_num) rest

theorem readYear_padded (padded : IsPadded ds (width + 1) n) (le : width + 1 ≤ 4)
    (ends : ∀ c ∈ rest.head?, c.isDigit = false) : readYear (ds ++ rest) = some ((n : Int), rest) := by
  obtain ⟨c, cs, rfl, digit⟩ := padded.exists_digit
  have ne {d : Char} (other : d.isDigit = false) : c ≠ d := fun same => by simp [same, other] at digit
  have minus : maybe (char '-') (c :: cs ++ rest) = some (none, c :: cs ++ rest) :=
    maybe_char_of_ne (ne rfl) _
  have plus : maybe (char '+') (c :: cs ++ rest) = some (none, c :: cs ++ rest) :=
    maybe_char_of_ne (ne rfl) _
  rw [readYear, bind_of_some minus]
  refine (bind_of_some plus).trans ?_
  exact bind_of_some (number_of_ends padded (by omega) le ends)

theorem readAll_cons_of_some {g : DateFields} (parts : List LayoutPart)
    (read : part.read f cs = some (g, rest)) : readAll (part :: parts) f cs = readAll parts g rest :=
  bind_of_some read

theorem read_year (padded : IsPadded ds (width + 1) n) (le : width + 1 ≤ 4)
    (ends : ∀ c ∈ rest.head?, c.isDigit = false) :
    LayoutPart.year.read f (ds ++ rest) = some ({ f with year := n }, rest) := by
  rw [read, bind_of_some (skipSpace_padded padded rest)]
  exact bind_of_some (readYear_padded padded le ends)

/-- A part of two digits. -/
theorem read_two (part : LayoutPart) {set : Nat → DateFields}
    (reads : part.read f = twoDigits >>= fun n => pure (set n)) (padded : IsPadded ds 2 n)
    (rest : List Char) : part.read f (ds ++ rest) = some (set n, rest) := by
  rw [reads]
  exact bind_of_some (twoDigits_padded padded rest)

theorem read_literal (c : Char) (rest : List Char) :
    (LayoutPart.literal c).read f (c :: rest) = some (f, rest) :=
  bind_of_some (char_cons c rest)

theorem read_space (padded : IsPadded ds (width + 1) n) (rest : List Char) :
    LayoutPart.space.read f (' ' :: (ds ++ rest)) = some (f, ds ++ rest) := by
  have blank : Text.trimLeft (' ' :: (ds ++ rest)) = ds ++ rest := by
    rw [Text.trimLeft, List.dropWhile_cons_of_pos (by decide)]
    exact padded.trimLeft rest
  exact bind_of_some (congrArg (fun cs => some ((), cs)) blank)

/-- The year of a date may have fewer than four digits. -/
theorem readAll_dateParts {Y M D : List Char} {year month day : Nat} {f : DateFields}
    (years : IsPadded Y (width + 1) year) (le : width + 1 ≤ 4) (months : IsPadded M 2 month)
    (days : IsPadded D 2 day) (others : List LayoutPart) (rest : List Char) :
    readAll (DateFields.dateParts ++ others) f (Y ++ '-' :: (M ++ '-' :: (D ++ rest))) =
      readAll others { f with year, month, day } rest := by
  simp only [DateFields.dateParts, List.cons_append, List.nil_append]
  rw [readAll_cons_of_some _ (read_year years le (by simp)), readAll_cons_of_some _ (read_literal '-' _),
    readAll_cons_of_some _ (read_two .month rfl months _), readAll_cons_of_some _ (read_literal '-' _),
    readAll_cons_of_some _ (read_two .day rfl days _)]

theorem readAll_secondParts {h m s : List Char} {hour minute second : Nat} {f : DateFields}
    (hours : IsPadded h 2 hour) (minutes : IsPadded m 2 minute) (seconds : IsPadded s 2 second)
    (others : List LayoutPart) (rest : List Char) :
    readAll (DateFields.secondParts ++ others) f (h ++ ':' :: (m ++ ':' :: (s ++ rest))) =
      readAll others { f with hour, minute, second } rest := by
  simp only [DateFields.secondParts, DateFields.minuteParts, List.cons_append, List.nil_append]
  rw [readAll_cons_of_some _ (read_two .hour rfl hours _), readAll_cons_of_some _ (read_literal ':' _),
    readAll_cons_of_some _ (read_two .minute rfl minutes _), readAll_cons_of_some _ (read_literal ':' _),
    readAll_cons_of_some _ (read_two .second rfl seconds _)]

end LayoutPart

namespace DateFields

open Reader LayoutPart

/-- The text `2007-08-14 13:05:00`, four digits for the year and two for everything else, and its
fields. -/
inductive Stamp : DateFields → List Char → Prop
  | mk (Y M D h m s : List Char) {year month day hour minute second : Nat}
      (years : IsPadded Y 4 year) (months : IsPadded M 2 month) (days : IsPadded D 2 day)
      (hours : IsPadded h 2 hour) (minutes : IsPadded m 2 minute) (seconds : IsPadded s 2 second) :
      Stamp { year, month, day, hour, minute, second }
        (Y ++ '-' :: (M ++ '-' :: (D ++ ' ' :: (h ++ ':' :: (m ++ ':' :: s)))))

variable {f : DateFields}

namespace Stamp

/-- The parts of a date, a space and the parts of a time read it from end to end. -/
theorem readAll (stamp : Stamp f cs) (others : List LayoutPart) :
    LayoutPart.readAll (dateParts ++ [.space] ++ secondParts ++ others) {} cs =
      LayoutPart.readAll others f [] := by
  obtain ⟨Y, M, D, h, m, s, years, months, days, hours, minutes, seconds⟩ := stamp
  rw [← List.append_nil s, List.append_assoc, List.append_assoc,
    readAll_dateParts years (by norm_num) months days]
  refine (readAll_cons_of_some _ (read_space hours _)).trans ?_
  exact readAll_secondParts hours minutes seconds others []

theorem exists_digits (stamp : Stamp f cs) :
    ∃ c d e rest, cs = c :: d :: e :: rest ∧ c.isDigit = true ∧ d.isDigit = true ∧ e.isDigit = true := by
  obtain ⟨_, _, _, _, _, _, ⟨digits, length, -⟩, -⟩ := stamp
  obtain ⟨c, d, e, f, rfl⟩ := List.length_eq_four.1 length
  exact ⟨c, d, e, _, rfl, digits c (by simp), digits d (by simp), digits e (by simp)⟩

/-- An internet timestamp has an offset at its end. -/
theorem internet_eq_none (stamp : Stamp f cs) : internet cs = none := by
  obtain ⟨Y, M, D, h, m, s, years, months, days, hours, minutes, seconds⟩ := stamp
  rw [← List.append_nil s]
  rw [internet, bind_of_some (number_padded years (le_refl 4) _), bind_of_some (char_cons '-' _),
    bind_of_some (number_padded months (le_refl 2) _), bind_of_some (char_cons '-' _),
    bind_of_some (number_padded days (le_refl 2) _)]
  -- Between the date and the time a space is as good as the letter `T`.
  refine (bind_of_some (show _ = some (' ', _) from rfl)).trans ?_
  refine (bind_of_some (show _ = some ((), _) from rfl)).trans ?_
  rw [List.tail_cons, bind_of_some (number_padded hours (le_refl 2) _), bind_of_some (char_cons ':' _),
    bind_of_some (number_padded minutes (le_refl 2) _), bind_of_some (char_cons ':' _),
    bind_of_some (number_padded seconds (le_refl 2) _)]
  rfl

theorem weekdayNames_letters : ∀ name ∈ Date.weekdayNames,
    (name.toList.head?.any fun l => !l.toLower.isDigit) = true := by
  decide

/-- The day of a mail header has two digits at most. -/
theorem mail_eq_none (stamp : Stamp f cs) : mail cs = none := by
  obtain ⟨c, d, e, rest, rfl, first, second, third⟩ := stamp.exists_digits
  have weekday := maybe_of_none (name_eq_none first (d :: e :: rest) weekdayNames_letters)
  have day : IsPadded [c, d] 2 (Text.ofDigits [c, d]) := ⟨by simp [Digits, first, second], rfl, rfl⟩
  have no_space : Reader.space (e :: rest) = none := by
    simp [Reader.space, Number.isSpace_of_isDigit third]
  rw [mail, bind_of_some (skipSpace_of_isDigit first _), bind_of_some weekday]
  refine (bind_of_some (skipSpace_of_isDigit first _)).trans ?_
  refine (bind_of_some (number_padded day (by norm_num) (e :: rest))).trans ?_
  exact bind_of_none no_space

theorem status_eq_none (stamp : Stamp f cs) : LayoutPart.readAll statusParts {} cs = none := by
  obtain ⟨c, d, e, rest, rfl, first, -, -⟩ := stamp.exists_digits
  have weekday := name_eq_none first (d :: e :: rest) weekdayNames_letters
  exact bind_of_none (bind_of_none weekday)

/-- The layout without an offset is the first that reads it. -/
theorem findSome?_layouts {zone : Zone} {i : Instant} (stamp : Stamp f cs)
    (instant : f.toInstant? zone = some i) : layouts.findSome? (ofLayout? · zone cs) = some i := by
  have zoned : LayoutPart.readAll (dateParts ++ [.space] ++ secondParts ++ [.space, .offset]) {} cs =
      none := (stamp.readAll _).trans rfl
  have local_time : LayoutPart.readAll (dateParts ++ [.space] ++ secondParts) {} cs = some (f, []) := by
    have read := stamp.readAll []
    rwa [List.append_nil] at read
  simp only [layouts, List.findSome?_cons, ofLayout?, stamp.internet_eq_none, stamp.mail_eq_none,
    stamp.status_eq_none, zoned, local_time, instant]

theorem trim_eq (stamp : Stamp f cs) : Text.trim cs = cs := by
  refine Number.trim_of_ends (fun c head => ?_) fun c last => ?_
  · obtain ⟨_, _, _, rest, rfl, digit, -, -⟩ := stamp.exists_digits
    cases head
    exact Number.isSpace_of_isDigit digit
  · obtain ⟨_, _, _, _, _, s, -, -, -, -, -, seconds⟩ := stamp
    have nonempty : s ≠ [] := List.ne_nil_of_length_pos (by rw [seconds.length]; norm_num)
    have inside : s.getLast? = some c := by
      simpa [List.getLast?_append, List.getLast?_cons, List.getLast?_eq_some_getLast nonempty] using last
    exact Number.isSpace_of_isDigit (seconds.digits c (List.mem_of_getLast? inside))

theorem ofText?_eq_none (stamp : Stamp f cs) : Number.ofText? cs = none := by
  have trimmed := stamp.trim_eq
  obtain ⟨_, _, _, _, _, _, years, -⟩ := stamp
  exact years.ofText?_eq_none trimmed

end Stamp
end DateFields

open DateFields in
/-- The text of a date and a time is read in the zone for texts without an offset. -/
theorem Instant.ofText?_stamp {f : DateFields} {text : String} {zone : Zone} {i : Instant}
    (stamp : Stamp f text.toList) (instant : f.toInstant? zone = some i) (now : Instant) :
    Instant.ofText? text zone now = some i := by
  have no_now : Text.asciiLower (String.ofList text.toList) ≠ "now" := by
    obtain ⟨c, _, _, rest, whole, digit, -, -⟩ := stamp.exists_digits
    rw [whole]
    exact Reader.asciiLower_ne_now digit _
  simp only [Instant.ofText?, stamp.trim_eq, if_neg no_now]
  exact stamp.findSome?_layouts instant

end Stencil
