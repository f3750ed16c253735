import Mathlib.Algebra.Ring.Parity
import Stencil.Date.Format

/-! Formats of dates are filled piece by piece. A format may be cut wherever no escape is open, and the
letters that stand for whole formats may be written out there. -/
namespace Stencil.Moment

variable {field? : Char → Option String} {c : Char} {cs : List Char} {m : Moment}

/-- The backslashes at the end. -/
def trailing (cs : List Char) : Nat := (cs.reverse.takeWhile (· = '\\')).length

/-- The last backslash has nothing to take for itself: those before it stand in pairs. -/
def EndsInEscape (format : String) : Prop := Odd (trailing format.toList)

instance (format : String) : Decidable (EndsInEscape format) :=
  inferInstanceAs (Decidable (Odd (trailing format.toList)))

/-- A backslash in front of every character. -/
def escaped (text : String) : String := String.ofList (text.toList.flatMap fun c => ['\\', c])

theorem trailing_le (cs : List Char) : trailing cs ≤ cs.length := by
  have le : trailing cs ≤ cs.reverse.length := (List.takeWhile_prefix _).length_le
  rwa [List.length_reverse] at le

theorem trailing_cons_of_ne (plain : c ≠ '\\') (cs : List Char) : trailing (c :: cs) = trailing cs := by
  rw [trailing, List.reverse_cons, List.takeWhile_append]
  split
  · next all => simp [plain, trailing, all]
  · rfl

theorem trailing_cons_backslash (cs : List Char) :
    trailing ('\\' :: cs) = if trailing cs = cs.length then cs.length + 1 else trailing cs := by
  rw [trailing, List.reverse_cons, List.takeWhile_append, List.length_reverse]
  change (if trailing cs = cs.length then _ else _ : List Char).length = _
  split
  · simp
  · rfl

/-- A backslash and what it takes count for two or for nothing. -/
theorem odd_trailing_escape (c : Char) (cs : List Char) :
    Odd (trailing ('\\' :: c :: cs)) ↔ Odd (trailing cs) := by
  have le := trailing_le cs
  rw [trailing_cons_backslash, List.length_cons]
  by_cases mark : c = '\\'
  · rw [mark, trailing_cons_backslash]
    split
    · next all => simp [all, Nat.odd_add_one]
    · next some => rw [if_neg (by omega)]
  · rw [trailing_cons_of_ne mark, if_neg (by omega)]

/-- What a character stands for that is not escaped. -/
def letter (field? : Char → Option String) (c : Char) : List Char :=
  match field? c with
  | some text => text.toList
  | none => [c]

theorem fill_cons_of_ne (plain : c ≠ '\\') (cs : List Char) :
    fill field? (c :: cs) = letter field? c ++ fill field? cs := by
  conv_lhs => unfold fill
  split
  · next h => cases h
  · next h => exact absurd (List.cons.inj h).1 plain
  · next h => exact absurd (List.cons.inj h).1 plain
  · next h => cases h; rfl

theorem fill_append (closed : ¬ Odd (trailing cs)) (ds : List Char) :
    fill field? (cs ++ ds) = fill field? cs ++ fill field? ds := by
  fun_induction fill field? cs with
  | case1 => rfl
  | case2 => exact absurd (by decide) closed
  | case3 c cs ih =>
    rw [odd_trailing_escape] at closed
    rw [List.cons_append, List.cons_append, fill, ih closed, List.cons_append]
  | case4 c cs no_end no_escape ih =>
    have plain : c ≠ '\\' := by
      rintro rfl
      cases cs with
      | nil => exact no_end rfl rfl
      | cons d cs => exact no_escape d cs rfl rfl
    rw [trailing_cons_of_ne plain] at closed
    rw [List.cons_append, fill_cons_of_ne plain, ih closed, ← List.append_assoc]
    rfl

theorem fill_escaped (cs : List Char) : fill field? (cs.flatMap fun c => ['\\', c]) = cs := by
  induction cs with
  | nil => rfl
  | cons c cs ih =>
    rw [List.flatMap_cons]
    exact congrArg (c :: ·) ih

theorem format_append (m : Moment) {f : String} (closed : ¬ EndsInEscape f) (g : String) :
    m.format (f ++ g) = m.format f ++ m.format g := by
  rw [← String.toList_inj]
  simp [format, fill_append closed]

/-- Neither of the two whole formats has a letter for a whole format in it. -/
theorem format_whole (m : Moment) :
    m.format "c" = m.format isoFormat ∧ m.format "r" = m.format mailFormat := by
  constructor
  · rw [← String.toList_inj]
    simp [format, fill, fieldOrFormat?, isoFormat, field?]
  · rw [← String.toList_inj]
    simp [format, fill, fieldOrFormat?, mailFormat, field?]

/-- What stands where no escape is open, and leaves none open, may be replaced by what reads the same. -/
theorem format_replace {f short long : String} (closed : ¬ EndsInEscape f)
    (same : m.format short = m.format long) (short_closed : ¬ EndsInEscape short)
    (long_closed : ¬ EndsInEscape long) (g : String) :
    m.format (f ++ short ++ g) = m.format (f ++ long ++ g) := by
  rw [String.append_assoc, String.append_assoc, format_append m closed, format_append m closed,
    format_append m short_closed, format_append m long_closed, same]

/-- A format that leaves no escape open may be followed by any other: the texts of the two follow one
another. A text with a backslash before each of its characters is the format of itself. The letters that
stand for whole formats may be written out wherever no escape is open. -/
theorem format_compositional (m : Moment) (f g : String) (closed : ¬ EndsInEscape f) :
    m.format (f ++ g) = m.format f ++ m.format g ∧
      (∀ text, m.format (escaped text) = text) ∧
      m.format (f ++ "c" ++ g) = m.format (f ++ "Y-m-d\\TH:i:sP" ++ g) ∧
      m.format (f ++ "r" ++ g) = m.format (f ++ "D, d M Y H:i:s O" ++ g) := by
  obtain ⟨iso, mail⟩ := m.format_whole
  refine ⟨m.format_append closed g, fun text => ?_, ?_, ?_⟩
  · simp [format, escaped, fill_escaped]
  · exact format_replace closed iso (by decide) (by decide) g
  · exact format_replace closed mail (by decide) (by decide) g

/-- Behind an escaped backslash the letter `c` is a format again. -/
theorem format_compositional_of_backslash :
    let m : Moment := ⟨⟨-1, 0⟩, { east := -1800 }⟩
    ¬ EndsInEscape "\\\\" ∧
      m.format ("\\\\" ++ "c" ++ "!") = m.format ("\\\\" ++ "Y-m-d\\TH:i:sP" ++ "!") ∧
      m.format ("\\\\" ++ "c" ++ "!") = "\\1969-12-31T23:29:59-00:30!" ∧
      EndsInEscape "\\" ∧ m.format ("\\" ++ "c" ++ "!") = "c!" := by
  intro m
  have closed : ¬ EndsInEscape "\\\\" := by decide
  refine ⟨closed, (m.format_compositional "\\\\" "!" closed).2.2.1, ?_, by decide, ?_⟩
  · decide +kernel
  · decide +kernel

end Stencil.Moment
