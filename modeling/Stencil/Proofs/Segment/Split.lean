import Mathlib.Data.List.Forall2
import Stencil.Proofs.Action
import Stencil.Proofs.Node.Grammar
import Stencil.Proofs.Segment.Scan

/-! What the segments of a template say, wherever it stands. -/
namespace Stencil.Segment

variable {limit : Nat} {tag : Tag} {cs text inside after : List Char} {part : Part}
  {parts : List Part}

/-- The text holds no opening delimiter. -/
def IsText (cs : List Char) : Prop := ∀ tag : Tag, ¬ ['\x7b', tag.openMark] <:+: cs

theorem ofOpenMark?_openMark (tag : Tag) : Tag.ofOpenMark? tag.openMark = some tag := by
  cases tag <;> rfl

theorem IsText.tail {c : Char} (plain : IsText (c :: cs)) : IsText cs :=
  fun tag found => plain tag (found.trans (List.suffix_cons c cs).isInfix)

theorem IsText.no_tag {c mark : Char} (plain : IsText (c :: mark :: cs)) :
    (if c = '\x7b' then Tag.ofOpenMark? mark else none) = none := by
  split
  · next brace =>
    subst brace
    cases found : Tag.ofOpenMark? mark with
    | none => rfl
    | some tag =>
      rw [Tag.eq_openMark_of_ofOpenMark? found] at plain
      exact absurd (List.prefix_append ['\x7b', tag.openMark] cs).isInfix (plain tag)
  · rfl

theorem findOpen_of_isText (plain : IsText cs) : findOpen cs = (cs, none) := by
  fun_induction findOpen cs with
  | case1 => rfl
  | case2 => rfl
  | case3 c mark cs tag found =>
    rw [plain.no_tag] at found
    cases found
  | case4 c mark cs _ before found whole ih =>
    rw [ih plain.tail] at whole
    cases whole
    rfl

theorem findOpen_tag (plain : IsText text) (ends : text.getLast? ≠ some '\x7b') :
    findOpen (text ++ '\x7b' :: tag.openMark :: cs) = (text, some (tag, cs)) := by
  induction text with
  | nil => simp [findOpen, ofOpenMark?_openMark]
  | cons c text ih =>
    cases text with
    | nil =>
      have no_brace : c ≠ '\x7b' := by simpa using ends
      simp [findOpen, no_brace, ofOpenMark?_openMark]
    | cons mark text =>
      have rest := ih plain.tail (by simpa using ends)
      rw [List.cons_append] at rest
      rw [List.cons_append, List.cons_append, findOpen, plain.no_tag, rest]

theorem kind_of_mem_ofText {s : Segment} {position : Nat} (member : s ∈ ofText position cs) :
    s.kind = .text := by
  unfold ofText at member
  split at member
  · cases member
  · rw [List.mem_singleton.1 member]

/-- From wherever the text stands, its segments say `parts`. -/
def SplitsInto (limit : Nat) (cs : List Char) (parts : List Part) : Prop :=
  ∀ position, ∃ segments, splitChars false position cs = .ok segments ∧
    List.Forall₂ (Segment.Reads limit) segments parts

/-- What a text says, if there is any. -/
def textParts (cs : List Char) : List Part :=
  if cs.isEmpty then [] else [.text (String.ofList cs)]

theorem reads_ofText (position : Nat) (cs : List Char) :
    List.Forall₂ (Segment.Reads limit) (ofText position cs) (textParts cs) := by
  unfold ofText textParts
  split
  · exact .nil
  · exact .cons (.text _ _) .nil

theorem splitsInto_text (plain : IsText text) : SplitsInto limit text (textParts text) := by
  intro position
  refine ⟨ofText position text, ?_, reads_ofText position text⟩
  have opens := findOpen_of_isText plain
  rw [splitChars]
  split <;> simp_all

/-- Behind any text that does not run into them, the characters `cs` say `parts`. -/
def Joins (limit : Nat) (cs : List Char) (parts : List Part) : Prop :=
  ∀ text, IsText text → text.getLast? ≠ some '\x7b' →
    SplitsInto limit (text ++ cs) (textParts text ++ parts)

theorem isText_of_notMem (no_brace : '\x7b' ∉ cs) : IsText cs :=
  fun _ found => no_brace (found.mem (by simp))

theorem Joins.splits (joins : Joins limit cs parts) : SplitsInto limit cs parts :=
  joins [] (isText_of_notMem (by simp)) (by simp)

theorem joins_nil : Joins limit [] [] := by
  intro text plain _
  simpa using splitsInto_text plain

theorem joins_tag (closes : Closes tag 0 cs inside after)
    (reads : ∀ position, Segment.Reads limit ⟨.tag tag, String.ofList inside, position⟩ part)
    (rest : SplitsInto limit after parts) :
    Joins limit ('\x7b' :: tag.openMark :: cs) (part :: parts) := by
  intro text plain ends position
  have opens : findOpen (text ++ '\x7b' :: tag.openMark :: cs) = (text, some (tag, cs)) :=
    findOpen_tag plain ends
  have closed := closes (position + Text.byteLength text) 0
    (position + Text.byteLength text + 2) fun _ => rfl
  obtain ⟨segments, cut, others⟩ := rest
    (position + Text.byteLength text + 2 + Text.byteLength inside + 2)
  refine ⟨ofText position text ++ ⟨.tag tag, String.ofList inside,
    position + Text.byteLength text + 2⟩ :: segments, ?_, ?_⟩
  · rw [splitChars]
    split
    · next none => simp [opens] at none
    · next found =>
      rw [opens] at found
      cases found
      dsimp only
      split
      · next failed => simp [closed] at failed
      · next ok =>
        rw [closed] at ok
        cases ok
        simp [dropped, trims, cut, Except.map]
  · exact List.rel_append (reads_ofText position text) (.cons (reads _) others)

end Stencil.Segment
