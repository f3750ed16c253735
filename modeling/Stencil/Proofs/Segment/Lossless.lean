import Mathlib.Data.List.Chain
import Stencil.Proofs.Segment.Split
import Stencil.Proofs.Text.Utf8

/-! Nothing is lost when a template is cut: the segments with their delimiters are the template, each
where its position says. -/
namespace Stencil.Segment

variable {tag : Tag} {p q : Nat} {cs ds before inside after : List Char}
  {s : Segment} {segments others : List Segment}

theorem isText_cons_iff {c : Char} :
    IsText (c :: cs) ↔ (c = '\x7b' → ∀ tag : Tag, cs.head? ≠ some tag.openMark) ∧ IsText cs := by
  constructor
  · intro plain
    refine ⟨?_, plain.tail⟩
    rintro rfl tag head
    obtain ⟨rest, rfl⟩ := List.head?_eq_some_iff.1 head
    exact plain tag (List.prefix_append ['\x7b', tag.openMark] rest).isInfix
  · rintro ⟨first, rest⟩ tag found
    rcases List.infix_cons_iff.1 found with front | later
    · obtain ⟨rfl, mark⟩ := List.cons_prefix_cons.1 front
      obtain ⟨behind, rfl⟩ := mark
      exact first rfl tag rfl
    · exact rest tag later

/-- Without a tag behind them two characters do not begin one. -/
theorem no_openMark_of_no_tag {c mark : Char}
    (unopened : (if c = '\x7b' then Tag.ofOpenMark? mark else none) = none) (brace : c = '\x7b')
    (tag : Tag) : mark ≠ tag.openMark := by
  rintro rfl
  rw [if_pos brace, ofOpenMark?_openMark] at unopened
  cases unopened

theorem isText_of_findOpen_none (unopened : findOpen cs = (before, none)) :
    before = cs ∧ IsText cs := by
  fun_induction findOpen cs generalizing before with
  | case1 =>
    cases unopened
    exact ⟨rfl, isText_of_notMem (by simp)⟩
  | case2 c =>
    cases unopened
    exact ⟨rfl, isText_cons_iff.2 ⟨by simp, isText_of_notMem (by simp)⟩⟩
  | case3 => cases unopened
  | case4 c mark cs no_tag front found whole ih =>
    cases unopened
    obtain ⟨rfl, plain⟩ := ih whole
    refine ⟨rfl, isText_cons_iff.2 ⟨fun brace tag head => ?_, plain⟩⟩
    exact no_openMark_of_no_tag no_tag brace tag (Option.some.inj head)

/-- What stands before the first opening delimiter holds none and does not run into it. -/
theorem isText_of_findOpen_some {rest : List Char} (opens : findOpen cs = (before, some (tag, rest))) :
    IsText before ∧ before.getLast? ≠ some '\x7b' := by
  fun_induction findOpen cs generalizing before with
  | case1 => cases opens
  | case2 => cases opens
  | case3 =>
    cases opens
    exact ⟨isText_of_notMem (by simp), by simp⟩
  | case4 c mark cs no_tag front found whole ih =>
    cases opens
    have same := eq_append_of_findOpen whole
    obtain ⟨plain, ends⟩ := ih whole
    have starts (brace : c = '\x7b') (tag' : Tag) : mark ≠ tag'.openMark :=
      no_openMark_of_no_tag no_tag brace tag'
    cases front with
    | nil =>
      obtain ⟨rfl, -⟩ := List.cons.inj same
      refine ⟨isText_cons_iff.2 ⟨by simp, plain⟩, ?_⟩
      rintro ⟨⟩
      exact starts rfl .output rfl
    | cons d front =>
      obtain ⟨rfl, -⟩ := List.cons.inj same
      refine ⟨isText_cons_iff.2 ⟨fun brace tag' head => ?_, plain⟩, by simpa using ends⟩
      exact starts brace tag' (Option.some.inj head)

def Kind.opening : Kind → String
  | .text => ""
  | .tag tag => String.ofList ['\x7b', tag.openMark]

def Kind.closing : Kind → String
  | .text => ""
  | .tag tag => tag.close

/-- A segment between its own delimiters. -/
def write (s : Segment) : String := s.kind.opening ++ s.source ++ s.kind.closing

def writeAll (segments : List Segment) : String := String.join (segments.map write)

@[simp] theorem writeAll_nil : writeAll [] = "" := rfl

@[simp] theorem writeAll_cons : writeAll (s :: segments) = s.write ++ writeAll segments := by
  simp [writeAll, String.join_cons]

@[simp] theorem writeAll_append :
    writeAll (segments ++ others) = writeAll segments ++ writeAll others := by
  induction segments with
  | nil => simp
  | cons s segments ih => simp [ih, String.append_assoc]

/-- With the first segment at byte `p`, each one stands where its position says. -/
def Located : Nat → List Segment → Prop
  | _, [] => True
  | p, s :: segments =>
    s.position = p + s.kind.opening.utf8ByteSize ∧ Located (p + s.write.utf8ByteSize) segments

theorem Located.position_eq (located : Located p (segments ++ s :: others)) :
    s.position = p + (writeAll segments ++ s.kind.opening).utf8ByteSize := by
  induction segments generalizing p with
  | nil => simpa using located.1
  | cons first segments ih =>
    rw [ih located.2]
    simp [Nat.add_assoc]

/-- The segments, cut from `cs` at byte `p`, hold all of it, and the texts are as long as they can
be. -/
structure Lossless (p : Nat) (cs : List Char) (segments : List Segment) : Prop where
  whole : writeAll segments = String.ofList cs
  located : Located p segments
  texts : ∀ s ∈ segments, s.kind = .text → s.source ≠ "" ∧ IsText s.source.toList
  apart : segments.IsChain fun s s' => ¬ (s.kind = .text ∧ s'.kind = .text)

theorem lossless_nil (p : Nat) : Lossless p [] [] :=
  ⟨rfl, trivial, by simp, .nil⟩

theorem Lossless.behind_tag (rest : Lossless q after segments)
    (next : q = p + 2 + Text.byteLength inside + 2) :
    Lossless p ('\x7b' :: tag.openMark :: (inside ++ tag.closeMark :: '\x7d' :: after))
      (⟨.tag tag, String.ofList inside, p + 2⟩ :: segments) where
  whole := by
    simp [← String.toList_inj, rest.whole, write, Kind.opening, Kind.closing, Tag.close]
  located := by
    have opening : (Kind.tag tag).opening.utf8ByteSize = 2 := by cases tag <;> rfl
    have closing : (Kind.tag tag).closing.utf8ByteSize = 2 := by cases tag <;> rfl
    refine ⟨by rw [opening], ?_⟩
    have size : q = p + (write ⟨.tag tag, String.ofList inside, p + 2⟩).utf8ByteSize := by
      rw [write, String.utf8ByteSize_append, String.utf8ByteSize_append, opening, closing,
        Text.utf8ByteSize_ofList, next]
      omega
    exact size ▸ rest.located
  texts := by
    intro s member text
    rcases List.mem_cons.1 member with rfl | member
    · cases text
    · exact rest.texts s member text
  apart := by
    refine List.isChain_cons.2 ⟨?_, rest.apart⟩
    rintro s - ⟨text, -⟩
    cases text

/-- A text before segments that begin with none. -/
theorem Lossless.behind_text (plain : IsText before)
    (rest : Lossless (p + Text.byteLength before) cs segments)
    (starts : ∀ s ∈ segments.head?, s.kind ≠ .text) :
    Lossless p (before ++ cs) (ofText p before ++ segments) := by
  unfold ofText
  split
  · next empty =>
    obtain rfl : before = [] := by simpa using empty
    simpa using rest
  · next nonempty =>
    constructor
    · simp [rest.whole, write, Kind.opening, Kind.closing]
    · refine ⟨rfl, ?_⟩
      simpa [write, Kind.opening, Kind.closing, Text.utf8ByteSize_ofList] using rest.located
    · intro s member text
      rcases List.mem_cons.1 member with rfl | member
      · exact ⟨by simpa using nonempty, by simpa using plain⟩
      · exact rest.texts s member text
    · refine List.isChain_cons.2 ⟨?_, rest.apart⟩
      rintro s head ⟨-, text⟩
      exact starts s head text

theorem lossless_splitChars (cut : splitChars false p cs = .ok segments) :
    Lossless p cs segments := by
  fun_induction splitChars false p cs generalizing segments with
  | case1 p cs before opens =>
    cases cut
    obtain ⟨rfl, plain⟩ := isText_of_findOpen_none opens
    simpa using (lossless_nil _).behind_text plain (by simp)
  | case2 => cases cut
  | case3 p cs before tag inner opens openAt inside after closes closed rest =>
    rename_i ih
    obtain ⟨others, later, rfl⟩ := map_eq_ok_iff.1 cut
    rw [eq_append_of_findOpen opens, eq_append_of_findClose closes]
    have plain := (isText_of_findOpen_some opens).1
    have same : rest = ([], after) := by simp [rest, dropped, trims]
    rw [same] at ih later
    exact ((ih later).behind_tag rfl).behind_text plain (by simp)

end Stencil.Segment
