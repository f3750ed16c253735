import Stencil.Proofs.Node.Position
import Stencil.Proofs.Segment.Lossless

/-! Cutting a template is local: behind other text and in front of other text it is cut as on its own,
but for the texts at the seam, which become one. -/
namespace Stencil.Segment

variable {tag : Tag} {limit openAt openAt' braces braces' position position' : Nat}
  {quote quote' : Option (Quote × Nat)} {cs ds text inside after : List Char} {part : Part}
  {ps qs : List Part} {segments : List Segment}

theorem afterClose?_append {c : Char} (more : cs ≠ []) :
    afterClose? tag (c :: cs ++ ds) = (afterClose? tag (c :: cs)).map (· ++ ds) := by
  obtain ⟨d, cs, rfl⟩ := List.exists_cons_of_ne_nil more
  by_cases ends : d = '\x7d'
  · subst ends
    by_cases mark : c = tag.closeMark <;> simp [afterClose?, mark]
  · have no_end (es : List Char) : afterClose? tag (c :: d :: es) = none :=
      afterClose?_eq_none (.inr (by simpa using ends))
    rw [List.cons_append, List.cons_append, no_end, no_end]
    rfl

theorem ne_nil_of_findClose
    (closes : findClose tag openAt quote braces position cs = .ok (inside, after)) : cs ≠ [] := by
  rintro rfl
  cases closes

/-- Only output tags count braces. -/
theorem counted (same : tag = .output → braces' = braces) (c : Char) :
    (tag = .output && c = '\x7d' && 0 < braces') = (tag = .output && c = '\x7d' && 0 < braces) := by
  by_cases output : tag = .output
  · rw [same output]
  · simp [output]

/-- The scan for a closing delimiter does not look behind it. -/
theorem findClose_append
    (closes : findClose tag openAt quote braces position cs = .ok (inside, after))
    (literal : quote'.map Prod.fst = quote.map Prod.fst) (same : tag = .output → braces' = braces) :
    findClose tag openAt' quote' braces' position' (cs ++ ds) = .ok (inside, after ++ ds) := by
  -- The two scans run at different positions, so a literal may begin elsewhere in the second one.
  fun_induction findClose tag openAt quote braces position cs
      generalizing inside quote' braces' position' with
  | case1 => cases closes
  | case2 => cases closes
  | case3 braces position q start d es next =>
    rename_i ih
    obtain ⟨⟨q', start'⟩, rfl, rfl⟩ := Option.map_eq_some_iff.1 literal
    obtain ⟨rest, rfl, found⟩ := pass_eq_ok closes
    rw [List.cons_append, findClose.eq_def]
    simp [ih found literal same, pass_ok]
  | case4 braces position c cs next q start escape =>
    rename_i ih
    obtain ⟨⟨q', start'⟩, rfl, rfl⟩ := Option.map_eq_some_iff.1 literal
    obtain ⟨rest, rfl, found⟩ := pass_eq_ok closes
    have more : findClose tag openAt' (if c = q'.char then none else some (q', start')) braces'
        (position' + c.utf8Size) (cs ++ ds) = .ok (rest, after ++ ds) :=
      ih found (by split <;> rfl) same
    rw [List.cons_append, findClose.eq_def]
    simp [escape, more, pass_ok]
  | case5 braces position c cs next opens =>
    rename_i ih
    obtain rfl := Option.map_eq_none_iff.1 literal
    obtain ⟨rest, rfl, found⟩ := pass_eq_ok closes
    have more (output : tag = .output) : braces' + 1 = braces + 1 := by rw [same output]
    rw [List.cons_append, findClose.eq_def]
    simp only [opens, if_true, ih found literal more, pass_ok]
  | case6 braces position c cs next opens closed =>
    rename_i ih
    obtain rfl := Option.map_eq_none_iff.1 literal
    obtain ⟨rest, rfl, found⟩ := pass_eq_ok closes
    have fewer (output : tag = .output) : braces' - 1 = braces - 1 := by rw [same output]
    rw [List.cons_append, findClose.eq_def]
    simp only [opens, counted same, closed, ih found literal fewer, pass_ok]
    rfl
  | case7 braces position c cs opens closed rest =>
    rename_i found
    obtain rfl := Option.map_eq_none_iff.1 literal
    obtain ⟨rfl, rfl⟩ : [] = inside ∧ rest = after := by simpa using closes
    have more : cs ≠ [] := by
      rintro rfl
      cases found
    rw [List.cons_append, findClose.eq_def]
    simp only [opens, counted same, closed, ← List.cons_append, afterClose?_append more, found]
    rfl
  | case8 braces position c cs next opens closed no_end =>
    rename_i opened ih
    obtain rfl := Option.map_eq_none_iff.1 literal
    obtain ⟨rest, rfl, found⟩ := pass_eq_ok closes
    have more : findClose tag openAt' (if tag = .comment then none else
        (Quote.ofChar? c).map (·, position')) braces' (position' + c.utf8Size) (cs ++ ds) =
          .ok (rest, after ++ ds) :=
      ih found (by unfold opened; split <;> simp [Function.comp_def]) same
    rw [List.cons_append, findClose.eq_def]
    simp only [opens, counted same, closed, ← List.cons_append, afterClose?_append (ne_nil_of_findClose found),
      no_end, Option.map_none, more]
    rfl

theorem closes_append (closes : findClose tag openAt none braces position cs = .ok (inside, after))
    (ds : List Char) : Closes tag braces (cs ++ ds) inside (after ++ ds) :=
  fun _ _ _ same => findClose_append closes rfl same

theorem exists_of_ofText_reads
    (reads : List.Forall₂ (Segment.Reads limit) (ofText position text ++ segments) ps) :
    ∃ qs, ps = textParts text ++ qs ∧ List.Forall₂ (Segment.Reads limit) segments qs := by
  unfold ofText at reads
  unfold textParts
  split at reads
  · next empty => exact ⟨ps, by simp [empty], reads⟩
  · next nonempty =>
    obtain ⟨part, qs, read, others, rfl⟩ := List.forall₂_cons_left_iff.1 reads
    cases read
    exact ⟨qs, by simp [nonempty], others⟩

/-- What can be read can be read behind the opening delimiter wherever that stands. -/
theorem joins_of_reads (closes : findClose tag openAt none 0 position cs = .ok (inside, after))
    (read : Segment.Reads limit ⟨.tag tag, String.ofList inside, position⟩ part)
    (rest : SplitsInto limit (after ++ ds) ps) :
    Joins limit ('\x7b' :: tag.openMark :: (cs ++ ds)) (part :: ps) :=
  joins_tag (closes_append closes ds) (fun position' => read.moved position') rest

/-- The text at the end of a template may go on. -/
theorem exists_last_text (cut : splitChars false position cs = .ok segments)
    (reads : List.Forall₂ (Segment.Reads limit) segments ps) :
    ∃ qs text, ps = qs ++ textParts text ∧ IsText text ∧ text <:+ cs ∧
      ∀ ds more, SplitsInto limit (text ++ ds) more → SplitsInto limit (cs ++ ds) (qs ++ more) := by
  -- From tag to tag; the text is the one behind the last of them.
  fun_induction splitChars false position cs generalizing segments ps with
  | case1 position cs before opens =>
    cases cut
    obtain ⟨rfl, plain⟩ := isText_of_findOpen_none opens
    rw [← List.append_nil (ofText position before)] at reads
    obtain ⟨qs, rfl, others⟩ := exists_of_ofText_reads reads
    cases others
    exact ⟨[], before, by simp, plain, List.suffix_refl _, fun ds more splits => splits⟩
  | case2 => cases cut
  | case3 position cs before tag inner opens openAt inside after closes closed =>
    rename_i rest ih
    obtain ⟨segments, later, rfl⟩ := map_eq_ok_iff.1 cut
    obtain ⟨ps, rfl, tagged⟩ := exists_of_ofText_reads reads
    obtain ⟨part, ps, read, others, rfl⟩ := List.forall₂_cons_left_iff.1 tagged
    have same : rest = ([], after) := by simp [rest, dropped, trims]
    rw [same] at ih later
    obtain ⟨qs, text, rfl, plain, ends, splits⟩ := ih later others
    obtain ⟨plain_before, no_brace⟩ := isText_of_findOpen_some opens
    have whole := eq_append_of_findOpen opens
    refine ⟨textParts before ++ part :: qs, text, by simp, plain, ?_, fun ds more others => ?_⟩
    · refine ends.trans ⟨before ++ '\x7b' :: tag.openMark :: inside ++ [tag.closeMark, '\x7d'], ?_⟩
      simp [whole, eq_append_of_findClose closes]
    · have joins := joins_of_reads closes read (splits ds more others)
      simpa [whole] using joins before plain_before no_brace

/-- What the segments say does not depend on where the template stands. -/
theorem splitsInto_of_splitChars (cut : splitChars false position cs = .ok segments)
    (reads : List.Forall₂ (Segment.Reads limit) segments ps) : SplitsInto limit cs ps := by
  obtain ⟨qs, text, rfl, plain, -, splits⟩ := exists_last_text cut reads
  have rest : SplitsInto limit (text ++ []) (textParts text) := by
    simpa using splitsInto_text plain
  simpa using splits [] _ rest

/-- A text that does not run into an opening delimiter behind it. -/
def Meets (text cs : List Char) : Prop :=
  text.getLast? = some '\x7b' → ∀ tag : Tag, cs.head? ≠ some tag.openMark

theorem Meets.front (meets : Meets text (cs ++ ds)) : Meets text cs := by
  intro ends tag head
  exact meets ends tag (by simp [List.head?_append, head])

theorem isText_append (plain : IsText text) (plain' : IsText cs) (meets : Meets text cs) :
    IsText (text ++ cs) := by
  induction text with
  | nil => exact plain'
  | cons c text ih =>
    obtain ⟨starts, rest⟩ := isText_cons_iff.1 plain
    cases text with
    | nil =>
      refine isText_cons_iff.2 ⟨?_, plain'⟩
      rintro rfl
      exact meets rfl
    | cons d text =>
      have meets' : Meets (d :: text) cs := fun ends => meets (by simpa using ends)
      exact isText_cons_iff.2 ⟨starts, ih rest meets'⟩

/-- The text at the front of a template may have begun before. -/
theorem exists_first_text (cut : splitChars false position cs = .ok segments)
    (reads : List.Forall₂ (Segment.Reads limit) segments ps) :
    ∃ text qs, ps = textParts text ++ qs ∧
      ∀ before, IsText before → Meets before cs →
        SplitsInto limit (before ++ cs) (textParts (before ++ text) ++ qs) := by
  rw [splitChars] at cut
  split at cut
  · next text opens =>
    cases cut
    obtain ⟨rfl, plain⟩ := isText_of_findOpen_none opens
    rw [← List.append_nil (ofText position text)] at reads
    obtain ⟨qs, rfl, others⟩ := exists_of_ofText_reads reads
    cases others
    refine ⟨text, [], rfl, fun before plain' meets => ?_⟩
    simpa using splitsInto_text (isText_append plain' plain meets)
  · next text tag inner opens =>
    dsimp only at cut
    split at cut
    · cases cut
    · next inside after closes =>
      obtain ⟨segments, later, rfl⟩ := map_eq_ok_iff.1 cut
      obtain ⟨ps, rfl, tagged⟩ := exists_of_ofText_reads reads
      obtain ⟨part, qs, read, others, rfl⟩ := List.forall₂_cons_left_iff.1 tagged
      simp only [dropped, trims, Bool.false_and, Bool.false_eq_true, if_false] at later
      have rest : SplitsInto limit (after ++ []) qs := by
        simpa using splitsInto_of_splitChars later others
      have joins := joins_of_reads closes read rest
      refine ⟨text, part :: qs, rfl, fun before plain meets => ?_⟩
      obtain ⟨plain', no_brace⟩ := isText_of_findOpen_some opens
      rw [eq_append_of_findOpen opens] at meets ⊢
      have ends : (before ++ text).getLast? ≠ some '\x7b' := by
        cases text with
        | nil => exact fun ends => meets (by simpa using ends) .output rfl
        | cons c text => simpa using no_brace
      simpa using joins (before ++ text) (isText_append plain plain' meets.front) ends

theorem Meets.suffix (meets : Meets cs ds) (ends : text <:+ cs) : Meets text ds := by
  obtain ⟨front, rfl⟩ := ends
  exact fun brace => meets (by simp [List.getLast?_append, brace])

/-- One template behind another: the last text of the first and the first text of the second become
one, and nothing else changes. -/
theorem exists_seam {position' : Nat} {segments' : List Segment}
    (cut : splitChars false position cs = .ok segments)
    (reads : List.Forall₂ (Segment.Reads limit) segments ps)
    (cut' : splitChars false position' ds = .ok segments')
    (reads' : List.Forall₂ (Segment.Reads limit) segments' qs) (meets : Meets cs ds) :
    ∃ before text text' behind, ps = before ++ textParts text ∧ qs = textParts text' ++ behind ∧
      SplitsInto limit (cs ++ ds) (before ++ (textParts (text ++ text') ++ behind)) := by
  obtain ⟨before, text, rfl, plain, ends, splits⟩ := exists_last_text cut reads
  obtain ⟨text', behind, rfl, splits'⟩ := exists_first_text cut' reads'
  have others := splits' text plain (meets.suffix ends)
  exact ⟨before, text, text', behind, rfl, rfl, splits ds _ others⟩

end Stencil.Segment
