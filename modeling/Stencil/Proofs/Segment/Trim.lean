import Mathlib
import Stencil.Proofs.Segment.Lossless

/-! Trimmed blocks: a template is cut at the same places whether line breaks behind logic tags are
dropped or not, and only the texts directly behind those tags differ. -/
namespace Stencil.Segment

variable {tag : Tag} {p openAt : Nat} {cs before : List Char} {s : Segment}
  {behindLogic : Bool} {segments others : List Segment} {found : Option (Tag × List Char)}

/-- A text without the line break at its front, if it has one: it begins behind that, and is gone if
nothing is left. -/
def withoutLineBreak (s : Segment) : List Segment :=
  match s.source.toList with
  | '\n' :: cs => ofText (s.position + 1) cs
  | '\r' :: '\n' :: cs => ofText (s.position + 2) cs
  | _ => [s]

/-- Texts directly behind a logic tag lose one line break, and everything else is kept.
`behindLogic`: the segment in front of these is a logic tag. -/
def trimTexts : Bool → List Segment → List Segment
  | _, [] => []
  | behindLogic, s :: segments =>
    (if behindLogic && s.kind == .text then s.withoutLineBreak else [s]) ++
      trimTexts (s.kind == .tag .logic) segments

/-- How many line feeds the segments hold. -/
def lineFeeds (segments : List Segment) : Nat := (segments.flatMap (·.source.toList)).count '\n'

@[simp] theorem trimTexts_nil : trimTexts behindLogic [] = [] := rfl

@[simp] theorem trimTexts_text {source : String} :
    trimTexts behindLogic (⟨.text, source, p⟩ :: segments) =
      (if behindLogic then withoutLineBreak ⟨.text, source, p⟩ else [⟨.text, source, p⟩]) ++
        trimTexts false segments := by
  cases behindLogic <;> rfl

@[simp] theorem trimTexts_tag {source : String} :
    trimTexts behindLogic (⟨.tag tag, source, p⟩ :: segments) =
      ⟨.tag tag, source, p⟩ :: trimTexts (tag == .logic) segments := by
  cases behindLogic <;> cases tag <;> rfl

/-- Cuts what follows the text in front of the opening delimiter at byte `openAt`. -/
def splitTag (trimBlocks : Bool) (openAt : Nat) :
    Option (Tag × List Char) → Except Error (List Segment)
  | none => .ok []
  | some (tag, inner) =>
    (findClose tag openAt none 0 (openAt + 2) inner).bind fun (inside, after) =>
      let rest := dropped trimBlocks tag after
      (splitChars trimBlocks (openAt + 2 + Text.byteLength inside + 2 + Text.byteLength rest.1)
        rest.2).map (⟨.tag tag, String.ofList inside, openAt + 2⟩ :: ·)

theorem splitChars_eq (trimBlocks : Bool) (p : Nat) (cs : List Char) :
    splitChars trimBlocks p cs =
      (splitTag trimBlocks (p + Text.byteLength (findOpen cs).1) (findOpen cs).2).map
        (ofText p (findOpen cs).1 ++ ·) := by
  rw [splitChars]
  split
  · next opens => simp [opens, splitTag, Except.map]
  · next before tag inner opens =>
    simp only [opens, splitTag]
    split
    · next failed => simp [failed, Except.bind, Except.map]
    · next closes =>
      rw [closes]
      simp only [Except.bind]
      cases splitChars .. <;> rfl

/-- Behind the text there is a tag or nothing. -/
theorem kind_of_splitTag {trimBlocks : Bool} (cut : splitTag trimBlocks openAt found = .ok segments) :
    ∀ s ∈ segments.head?, s.kind ≠ .text := by
  cases found with
  | none =>
    cases cut
    simp
  | some found =>
    obtain ⟨tag, inner⟩ := found
    obtain ⟨⟨inside, after⟩, -, rest⟩ := bind_eq_ok_iff.1 cut
    obtain ⟨others, -, rfl⟩ := map_eq_ok_iff.1 rest
    simp

theorem findOpen_cons {c : Char} (plain : c ≠ '\x7b') (cs : List Char) :
    findOpen (c :: cs) = (c :: (findOpen cs).1, (findOpen cs).2) := by
  cases cs <;> simp [findOpen, plain]

theorem findOpen_prefix (cs : List Char) : (findOpen cs).1 <+: cs := by
  fun_induction findOpen cs with
  | case1 => exact List.prefix_refl _
  | case2 => exact List.prefix_refl _
  | case3 => exact List.nil_prefix
  | case4 c mark cs _ before found whole ih =>
    rw [whole] at ih
    exact List.cons_prefix_cons.2 ⟨rfl, ih⟩

/-- The line break at the front of a template is the one at the front of its first text. -/
theorem findOpen_lineBreak (cs : List Char) :
    lineBreak (findOpen cs).1 = ((lineBreak cs).1, (findOpen (lineBreak cs).2).1) ∧
      (findOpen (lineBreak cs).2).2 = (findOpen cs).2 := by
  fun_cases lineBreak cs with
  | case1 cs => simp [findOpen_cons, lineBreak]
  | case2 cs => simp [findOpen_cons, lineBreak]
  | case3 _ no_feed no_return =>
    refine ⟨?_, rfl⟩
    obtain ⟨behind, whole⟩ := findOpen_prefix cs
    unfold lineBreak
    split
    · next ds same => exact (no_feed (ds ++ behind) (by rw [← whole, same]; rfl)).elim
    · next ds same => exact (no_return (ds ++ behind) (by rw [← whole, same]; rfl)).elim
    · rfl

theorem withoutLineBreak_text (nonempty : cs ≠ []) :
    withoutLineBreak ⟨.text, String.ofList cs, p⟩ =
      ofText (p + Text.byteLength (lineBreak cs).1) (lineBreak cs).2 := by
  rw [withoutLineBreak, String.toList_ofList]
  fun_cases lineBreak cs with
  | case1 => rfl
  | case2 => rfl
  | case3 _ no_feed no_return =>
    split
    · exact (no_feed _ rfl).elim
    · exact (no_return _ rfl).elim
    · simp [ofText, nonempty]

theorem trimTexts_ofText (starts : ∀ s ∈ segments.head?, s.kind ≠ .text) :
    trimTexts true (ofText p cs ++ segments) =
      ofText (p + Text.byteLength (lineBreak cs).1) (lineBreak cs).2 ++ trimTexts false segments := by
  by_cases empty : cs = []
  · subst empty
    cases segments with
    | nil => rfl
    | cons s segments =>
      have no_text : s.kind ≠ .text := starts s rfl
      simp [ofText, lineBreak, trimTexts, no_text]
  · rw [← withoutLineBreak_text empty]
    simp [ofText, empty]

theorem trimTexts_false_ofText : trimTexts false (ofText p cs ++ segments) =
    ofText p cs ++ trimTexts false segments := by
  unfold ofText
  split <;> simp

/-- Behind a logic tag the rest of a template is cut as it is without the line break at its front. -/
theorem map_trimTexts_splitChars (p : Nat) (cs : List Char) :
    (splitChars false p cs).map (trimTexts true) =
      (splitChars false (p + Text.byteLength (lineBreak cs).1) (lineBreak cs).2).map
        (trimTexts false) := by
  -- From the first opening delimiter on, which stands at the same byte, the cuts are one.
  obtain ⟨first, same⟩ := findOpen_lineBreak cs
  have openAt : p + Text.byteLength (lineBreak cs).1 +
      Text.byteLength (findOpen (lineBreak cs).2).1 = p + Text.byteLength (findOpen cs).1 := by
    rw [← lineBreak_append (findOpen cs).1, first, Text.byteLength_append, Nat.add_assoc]
  rw [splitChars_eq, splitChars_eq, openAt, same]
  cases cut : splitTag false (p + Text.byteLength (findOpen cs).1) (findOpen cs).2 with
  | error => rfl
  | ok segments =>
    have texts : trimTexts true (ofText p (findOpen cs).1 ++ segments) = _ :=
      trimTexts_ofText (kind_of_splitTag cut)
    rw [first] at texts
    simp only [Except.map, texts, trimTexts_false_ofText]

theorem map_trimTexts_dropped (tag : Tag) (p : Nat) (cs : List Char) :
    (splitChars false (p + Text.byteLength (dropped true tag cs).1) (dropped true tag cs).2).map
        (trimTexts false) =
      (splitChars false p cs).map (trimTexts (tag == .logic)) := by
  cases tag with
  | logic => exact (map_trimTexts_splitChars p cs).symm
  | output | comment => rfl

/-- The two cuts, tag by tag: where one of them runs ahead behind a logic tag, the other one has the
text that is cut there, with a line break in front. -/
theorem splitChars_trim (p : Nat) (cs : List Char) :
    splitChars true p cs = (splitChars false p cs).map (trimTexts false) := by
  fun_induction splitChars true p cs with
  | case1 p cs before opens =>
    have whole : trimTexts false (ofText p before ++ []) = ofText p before ++ trimTexts false [] :=
      trimTexts_false_ofText
    rw [splitChars_eq false, opens]
    exact congrArg Except.ok (by simpa using whole.symm)
  | case2 p cs before tag inner opens openAt e failed =>
    rw [splitChars_eq false, opens]
    simp only [splitTag]
    rw [failed]
    rfl
  | case3 p cs before tag inner opens openAt inside after closes closed rest ih =>
    -- `ih` is about the text without its line break; the other cut goes on in front of that.
    rw [splitChars_eq false, opens, ih, map_trimTexts_dropped]
    simp only [splitTag]
    rw [closes]
    simp only [Except.bind, dropped, trims, Bool.false_and, Bool.false_eq_true, if_false]
    change _ = ((((splitChars false closed after).map _)).map _).map _
    cases splitChars false closed after with
    | error => rfl
    | ok segments => simp [Except.map, trimTexts_false_ofText, openAt]

@[simp] theorem lineFeeds_nil : lineFeeds [] = 0 := rfl

@[simp] theorem lineFeeds_cons :
    lineFeeds (s :: segments) = s.source.toList.count '\n' + lineFeeds segments := by
  simp [lineFeeds]

@[simp] theorem lineFeeds_append :
    lineFeeds (segments ++ others) = lineFeeds segments + lineFeeds others := by
  simp [lineFeeds]

theorem lineFeeds_ofText : lineFeeds (ofText p cs) = cs.count '\n' := by
  unfold ofText
  split
  · next empty => simp [List.isEmpty_iff.1 empty]
  · simp

theorem le_lineFeeds_withoutLineBreak (s : Segment) :
    s.source.toList.count '\n' ≤ lineFeeds s.withoutLineBreak + 1 := by
  unfold withoutLineBreak
  split
  · next same => simp [same, lineFeeds_ofText]
  · next same => simp [same, lineFeeds_ofText]
  · simp

/-- No more line feeds are lost than there are logic tags in front of texts. -/
theorem le_lineFeeds_trimTexts (behindLogic : Bool) (segments : List Segment) :
    lineFeeds segments ≤ lineFeeds (trimTexts behindLogic segments) +
      (segments.countP (·.kind == .tag .logic) + behindLogic.toNat) := by
  induction segments generalizing behindLogic with
  | nil => simp
  | cons s segments ih =>
    obtain ⟨kind, source, p⟩ := s
    cases kind with
    | text =>
      have rest := ih false
      have lost := le_lineFeeds_withoutLineBreak ⟨.text, source, p⟩
      cases behindLogic <;> simp at rest lost ⊢ <;> omega
    | tag tag =>
      have rest := ih (tag == .logic)
      have counted : (Kind.tag tag == Kind.tag .logic) = (tag == .logic) := by cases tag <;> rfl
      simp only [trimTexts_tag, lineFeeds_cons, List.countP_cons, counted]
      generalize (tag == .logic) = logic at rest ⊢
      cases logic <;> simp at rest ⊢ <;> omega

/-- A tag and what is made of the segments behind it do not depend on those before it. -/
theorem exists_trimTexts_append (behindLogic : Bool) (segments others : List Segment)
    (kind : s.kind = .tag tag) :
    ∃ front, trimTexts behindLogic (segments ++ s :: others) =
      front ++ s :: trimTexts (tag == .logic) others := by
  induction segments generalizing behindLogic with
  | nil =>
    obtain ⟨_, source, p⟩ := s
    obtain rfl := kind
    exact ⟨[], by simp⟩
  | cons first segments ih =>
    obtain ⟨front, rest⟩ := ih (first.kind == .tag .logic)
    exact ⟨_, by rw [List.cons_append, trimTexts, rest, ← List.append_assoc]⟩

/-- With trimmed blocks a template fails to be cut for the same reason, or it is cut at the same places
and each text directly behind a logic tag has lost one line break if it began with one. No more line
feeds are lost than there are logic tags, and what follows an output tag or a comment is kept. -/
theorem split_trim (template : String) :
    split template true = (split template false).map (trimTexts false) ∧
    ∀ segments trimmed, split template false = .ok segments → split template true = .ok trimmed →
      lineFeeds segments ≤ lineFeeds trimmed + segments.countP (·.kind == .tag .logic) ∧
      ∀ before s next after, segments = before ++ s :: next :: after →
        s.kind = .tag .output ∨ s.kind = .tag .comment →
          ∃ front behind, trimmed = front ++ s :: next :: behind := by
  have same := splitChars_trim 0 template.toList
  refine ⟨same, fun segments trimmed cut cut' => ?_⟩
  obtain rfl : trimTexts false segments = trimmed := by
    change splitChars false 0 template.toList = .ok segments at cut
    rw [cut] at same
    exact Except.ok.inj (same.symm.trans cut')
  refine ⟨by simpa using le_lineFeeds_trimTexts false segments, ?_⟩
  rintro before s next after rfl kept
  obtain ⟨tag, kind, no_logic⟩ : ∃ tag, s.kind = .tag tag ∧ tag ≠ .logic := by
    rcases kept with kind | kind <;> exact ⟨_, kind, by decide⟩
  obtain ⟨front, whole⟩ := exists_trimTexts_append false before (next :: after) kind
  refine ⟨front, trimTexts (next.kind == .tag .logic) after, ?_⟩
  rw [whole]
  simp [trimTexts, no_logic]

/-- Only the first of two line breaks is dropped, and none behind a comment. -/
theorem split_trim_of_two_line_breaks :
    let template := "\x7b% set x %\x7d\r\n\n\x7b# c #\x7d\nx"
    let comment : Segment := ⟨.tag .comment, " c ", 16⟩
    let behind : Segment := ⟨.text, "\nx", 21⟩
    split template false = .ok [⟨.tag .logic, " set x ", 2⟩, ⟨.text, "\r\n\n", 11⟩, comment, behind] ∧
    split template true = .ok [⟨.tag .logic, " set x ", 2⟩, ⟨.text, "\n", 13⟩, comment, behind] ∧
    ∃ front rest, [⟨.tag .logic, " set x ", 2⟩, ⟨.text, "\n", 13⟩, comment, behind] =
      front ++ comment :: behind :: rest := by
  intro template comment behind
  have cut : split template false =
      .ok [⟨.tag .logic, " set x ", 2⟩, ⟨.text, "\r\n\n", 11⟩, comment, behind] := by cbv
  have cut' : split template true =
      .ok [⟨.tag .logic, " set x ", 2⟩, ⟨.text, "\n", 13⟩, comment, behind] := by cbv
  exact ⟨cut, cut', ((split_trim template).2 _ _ cut cut').2 [_, _] _ _ [] rfl (.inr rfl)⟩

theorem mem_of_mem_trimTexts (member : s ∈ trimTexts behindLogic segments)
    (no_text : s.kind ≠ .text) : s ∈ segments := by
  induction segments generalizing behindLogic with
  | nil => cases member
  | cons first segments ih =>
    rcases List.mem_append.1 member with here | later
    · suffices same : s = first by simp [same]
      split at here
      · unfold withoutLineBreak at here
        split at here
        · exact absurd (kind_of_mem_ofText here) no_text
        · exact absurd (kind_of_mem_ofText here) no_text
        · exact List.mem_singleton.1 here
      · exact List.mem_singleton.1 here
    · exact List.mem_cons_of_mem _ (ih later)

/-- A tag stands in its template where its position says, whether blocks are trimmed or not. -/
theorem exists_append_of_mem_split {template : String} {trimBlocks : Bool}
    (cut : split template trimBlocks = .ok segments) (member : s ∈ segments)
    (no_text : s.kind ≠ .text) :
    ∃ front behind, template = front ++ s.write ++ behind ∧
      s.position = (front ++ s.kind.opening).utf8ByteSize := by
  obtain ⟨whole, cut, member⟩ :
      ∃ whole, splitChars false 0 template.toList = .ok whole ∧ s ∈ whole := by
    cases trimBlocks with
    | false => exact ⟨segments, cut, member⟩
    | true =>
      rw [split, splitChars_trim] at cut
      obtain ⟨whole, untrimmed, rfl⟩ := map_eq_ok_iff.1 cut
      exact ⟨whole, untrimmed, mem_of_mem_trimTexts member no_text⟩
  obtain ⟨before, after, rfl⟩ := List.append_of_mem member
  have lossless := lossless_splitChars cut
  refine ⟨writeAll before, writeAll after, ?_, by simpa using lossless.located.position_eq⟩
  simpa [String.append_assoc] using lossless.whole.symm

end Stencil.Segment
