import Stencil.Proofs.Expr.ReadBack
import Stencil.Proofs.Node.Embedding

/-! Compiling a printed forest gives the forest. -/
namespace Stencil

open Grammar Segment

variable {limit : Nat} {s x : String} {e : Expr} {n : Node} {body forest : List Node}
  {otherwise : Option (List Node)} {ps qs : List Part}

/-- The parts of a section that a block may do without. -/
inductive Block.Otherwise : List Part → Option (List Node) → Prop
  | none : Otherwise [] none
  | some {ps : List Part} {nodes : List Node} :
      Derives ps nodes → Otherwise (.tag .otherwise :: ps) (some nodes)

theorem Block.Derives.loop_otherwise (key : Option String) (x : String) (e : Expr)
    (derived : Derives ps body) (last : Otherwise qs otherwise) :
    Derives (.tag (.openLoop key x e) :: ps ++ qs ++ [.tag (.close .loop)])
      [.loop key x e body otherwise] := by
  cases last with
  | none => simpa using Derives.loop key x e derived
  | some other => simpa using Derives.loopElse key x e derived other

theorem Block.Derives.branch_otherwise {sections : List Block.Section} (test : Expr)
    (derived : Derives ps body) (others : ∀ s ∈ sections, Derives s.parts s.nodes)
    (last : Otherwise qs otherwise) :
    Derives (.tag (.openBranch test) :: ps ++ sections.flatMap Section.written ++ qs ++
      [.tag (.close .branch)]) [.branch ((test, body) :: sections.map Section.branch) otherwise] := by
  cases last with
  | none => simpa using Derives.branch test derived others
  | some other => simpa using Derives.branchElse test derived others other

namespace Node

/-- The printed node says `parts`. A text must not be followed by another one. -/
structure Written (limit : Nat) (n : Node) (parts : List Part) : Prop where
  derives : Block.Derives parts [n]
  text : n.isText → ∀ rest qs, Joins limit rest qs →
    SplitsInto limit (n.print.toList ++ rest) (parts ++ qs)
  tag : n.isText = false → ∀ rest qs, SplitsInto limit rest qs →
    Joins limit (n.print.toList ++ rest) (parts ++ qs)

theorem written_text (nonempty : s ≠ "") (plain : IsText s.toList)
    (ends : s.toList.getLast? ≠ some '\x7b') : Written limit (.text s) [.text s] where
  derives := .text s
  text _ rest qs joins := by
    have splits := joins s.toList plain ends
    simpa [textParts, nonempty, print] using splits
  tag block := by cases block

theorem written_tag (derives : Block.Derives ps [n]) (block : n.isText = false)
    (joins : ∀ rest qs, SplitsInto limit rest qs → Joins limit (n.print.toList ++ rest) (ps ++ qs)) :
    Written limit n ps where
  derives := derives
  text text := by simp [block] at text
  tag _ := joins

theorem written_output (printable : e.Printable) (bound : e.nesting ≤ limit) :
    Written limit (.output e) [.output e] := by
  obtain ⟨ts, spells, n, le, derived⟩ := Expr.denotes_print printable
  have padded : Spells false (" " ++ e.print ++ " ").toList ts := by
    simpa using spells.space_end.blank
  apply written_tag (.output e) rfl
  intro rest qs splits
  rw [print]
  exact (writes_output padded derived (le.trans bound)).joins splits

theorem written_set (name : IsName x) (printable : e.Printable) (bound : e.nesting ≤ limit) :
    Written limit (.set x e) [.tag (.set x e)] := by
  obtain ⟨ts, spells, n, le, derived⟩ := Expr.denotes_print printable
  apply written_tag (.set x e) rfl
  intro rest qs splits
  rw [print]
  exact (writes_set name spells derived (le.trans bound)).joins splits

/-- The printed forest says `parts` in front of a tag or the end. -/
structure WrittenForest (limit : Nat) (forest : List Node) (parts : List Part) : Prop where
  derives : Block.Derives parts forest
  splits {rest : List Char} {qs : List Part} :
    Joins limit rest qs → SplitsInto limit ((printForest forest).toList ++ rest) (parts ++ qs)

theorem writtenForest_of_written
    (each : ∀ n ∈ forest, n.nesting ≤ limit → ∃ ps, Written limit n ps) (apart : Apart forest)
    (bound : nestingOfForest forest ≤ limit) : ∃ ps, WrittenForest limit forest ps := by
  -- Behind a text, the rest of the forest begins with a tag.
  suffices strong : ∃ ps, WrittenForest limit forest ps ∧
      ((∀ n ∈ forest.head?, n.isText = false) → ∀ rest qs, Joins limit rest qs →
        Joins limit ((printForest forest).toList ++ rest) (ps ++ qs)) by
    obtain ⟨ps, written, -⟩ := strong
    exact ⟨ps, written⟩
  induction forest with
  | nil =>
    refine ⟨[], ⟨.nil, fun joins => ?_⟩, fun _ rest qs joins => ?_⟩
    · simpa [printForest] using joins.splits
    · simpa [printForest] using joins
  | cons n ns ih =>
    rw [nestingOfForest] at bound
    obtain ⟨ps, first⟩ := each n (by simp) (by omega)
    obtain ⟨qs, others, begins⟩ :=
      ih (fun m member => each m (by simp [member])) apart.tail (by omega)
    have derives : Block.Derives (ps ++ qs) (n :: ns) := first.derives.append others.derives
    have whole (rest : List Char) : (printForest (n :: ns)).toList ++ rest =
        n.print.toList ++ ((printForest ns).toList ++ rest) := by simp [printForest]
    refine ⟨ps ++ qs, ⟨derives, fun {rest vs} joins => ?_⟩, fun block rest vs joins => ?_⟩
    · rw [whole, List.append_assoc]
      by_cases text : n.isText
      · apply first.text text
        apply begins _ _ _ joins
        intro m head
        obtain ⟨ms, rfl⟩ : ∃ ms, ns = m :: ms := List.head?_eq_some_iff.1 head
        have next := (List.isChain_cons_cons.1 apart).1
        simpa [text] using next
      · rw [Bool.not_eq_true] at text
        exact (first.tag text _ _ (others.splits joins)).splits
    · rw [whole, List.append_assoc]
      exact first.tag (block n rfl) _ _ (others.splits joins)

theorem joins_close (kind : BlockKind) {rest : List Char} (splits : SplitsInto limit rest qs) :
    Joins limit ((printClose kind).toList ++ rest) (.tag (.close kind) :: qs) :=
  (writes_close kind).joins splits

theorem exists_otherwise
    (each : ∀ other ∈ otherwise, ∀ n ∈ other, n.nesting ≤ limit → ∃ ps, Written limit n ps)
    (apart : ∀ other ∈ otherwise, Apart other) (bound : nestingOfOtherwise otherwise ≤ limit) :
    ∃ ps, Block.Otherwise ps otherwise ∧ ∀ rest qs, Joins limit rest qs →
      Joins limit ((printOtherwise otherwise).toList ++ rest) (ps ++ qs) := by
  cases otherwise with
  | none =>
    refine ⟨[], .none, fun rest qs joins => ?_⟩
    simpa [printOtherwise] using joins
  | some other =>
    obtain ⟨ps, written⟩ := writtenForest_of_written (each other rfl) (apart other rfl) bound
    refine ⟨.tag .otherwise :: ps, .some written.derives, fun rest qs joins => ?_⟩
    simpa [printOtherwise] using writes_otherwise.joins (written.splits joins)

theorem exists_sections {branches : List (Expr × List Node)}
    (tests : ∀ b ∈ branches, b.1.Printable)
    (each : ∀ b ∈ branches, ∀ n ∈ b.2, n.nesting ≤ limit → ∃ ps, Written limit n ps)
    (apart : ∀ b ∈ branches, Apart b.2) (bound : nestingOfBranches branches ≤ limit) :
    ∃ sections : List Block.Section, sections.map Block.Section.branch = branches ∧
      (∀ s ∈ sections, Block.Derives s.parts s.nodes) ∧ ∀ rest qs, Joins limit rest qs →
        Joins limit ((printBranches " elseif" branches).toList ++ rest)
          (sections.flatMap Block.Section.written ++ qs) := by
  induction branches with
  | nil =>
    refine ⟨[], rfl, by simp, fun rest qs joins => ?_⟩
    simpa [printBranches] using joins
  | cons first others ih =>
    obtain ⟨test, body⟩ := first
    rw [nestingOfBranches] at bound
    simp only [List.forall_mem_cons] at tests each apart
    obtain ⟨ts, spells, n, le, derived⟩ := Expr.denotes_print tests.1
    obtain ⟨ps, written⟩ := writtenForest_of_written each.1 apart.1 (by omega)
    obtain ⟨sections, rfl, derives, joins_others⟩ := ih tests.2 each.2 apart.2 (by omega)
    have low : n ≤ limit := by omega
    refine ⟨⟨"elseif", test, ps, body⟩ :: sections, rfl, ?_, fun rest qs joins => ?_⟩
    · intro s member
      rcases List.mem_cons.1 member with rfl | member
      · exact written.derives
      · exact derives s member
    · have inside := written.splits (joins_others rest qs joins)
      have whole := (writes_elseIf spells derived low).joins inside
      simpa [printBranches, Block.Section.written] using whole

theorem written_capture (name : IsName x) (written : WrittenForest limit body ps) :
    Written limit (.capture x body) (.tag (.openCapture x) :: ps ++ [.tag (.close .capture)]) := by
  apply written_tag (.capture x written.derives) rfl
  intro rest qs splits
  have inside := written.splits (joins_close .capture splits)
  simpa [print] using (writes_openCapture name).joins inside

theorem exists_written_loop {key : Option String} (names : ∀ k ∈ key, IsName k) (name : IsName x)
    (test : e.Printable) (written : WrittenForest limit body ps)
    (each : ∀ other ∈ otherwise, ∀ n ∈ other, n.nesting ≤ limit → ∃ ps, Written limit n ps)
    (apart : ∀ other ∈ otherwise, Apart other)
    (bound : (Node.loop key x e body otherwise).nesting ≤ limit) :
    ∃ ps, Written limit (.loop key x e body otherwise) ps := by
  rw [nesting] at bound
  obtain ⟨ts, spells, n, le, derived⟩ := Expr.denotes_print test
  have low : n ≤ limit := by omega
  obtain ⟨qs, last, joins_last⟩ := exists_otherwise each apart (by omega)
  have derives := written.derives.loop_otherwise key x e last
  refine ⟨_, written_tag derives rfl fun rest vs splits => ?_⟩
  have inside := written.splits (joins_last _ _ (joins_close .loop splits))
  have opened := writes_openLoop key names name spells derived low
  simpa [print] using opened.joins inside

theorem exists_written_branch {test : Expr} {branches : List (Expr × List Node)}
    (tests : ∀ b ∈ (test, body) :: branches, b.1.Printable)
    (each : ∀ b ∈ (test, body) :: branches, ∀ n ∈ b.2,
      n.nesting ≤ limit → ∃ ps, Written limit n ps)
    (apart : ∀ b ∈ (test, body) :: branches, Apart b.2)
    (each_last : ∀ other ∈ otherwise, ∀ n ∈ other, n.nesting ≤ limit → ∃ ps, Written limit n ps)
    (apart_last : ∀ other ∈ otherwise, Apart other)
    (bound : (Node.branch ((test, body) :: branches) otherwise).nesting ≤ limit) :
    ∃ ps, Written limit (.branch ((test, body) :: branches) otherwise) ps := by
  rw [nesting, nestingOfBranches] at bound
  simp only [List.forall_mem_cons] at tests each apart
  obtain ⟨ts, spells, n, le, derived⟩ := Expr.denotes_print tests.1
  have low : n ≤ limit := by omega
  obtain ⟨ps, written⟩ := writtenForest_of_written each.1 apart.1 (by omega)
  obtain ⟨sections, rfl, derives_others, joins_others⟩ :=
    exists_sections tests.2 each.2 apart.2 (by omega)
  obtain ⟨qs, last, joins_last⟩ := exists_otherwise each_last apart_last (by omega)
  have derives := written.derives.branch_otherwise test derives_others last
  refine ⟨_, written_tag derives rfl fun rest vs splits => ?_⟩
  have closed := joins_last _ _ (joins_close .branch splits)
  have inside := written.splits (joins_others _ _ closed)
  have opened := writes_openBranch spells derived low
  simpa [print, printBranches] using opened.joins inside

theorem exists_written (printable : n.Printable) (bound : n.nesting ≤ limit) :
    ∃ ps, Written limit n ps := by
  induction printable with
  | text nonempty plain ends => exact ⟨_, written_text nonempty plain ends⟩
  | output printable =>
    rw [nesting] at bound
    exact ⟨_, written_output printable bound⟩
  | set name printable =>
    rw [nesting] at bound
    exact ⟨_, written_set name printable bound⟩
  | capture name _ apart ih =>
    rw [nesting] at bound
    obtain ⟨ps, written⟩ := writtenForest_of_written ih apart bound
    exact ⟨_, written_capture name written⟩
  | loop names name test _ apart _ apart_last ih ih_last =>
    have inner := bound
    rw [nesting] at inner
    obtain ⟨ps, written⟩ := writtenForest_of_written ih apart (by omega)
    exact exists_written_loop names name test written ih_last apart_last bound
  | branch nonempty tests _ apart _ apart_last ih ih_last =>
    obtain ⟨⟨test, body⟩, others, rfl⟩ := List.exists_cons_of_ne_nil nonempty
    exact exists_written_branch tests ih apart ih_last apart_last bound

/-- Compiling a printed forest gives the forest, if expressions may nest as deep as it needs. -/
theorem ofSource_printForest (forest : List Node) (config : Config)
    (printable : ∀ n ∈ forest, n.Printable) (apart : Apart forest)
    (keeps : config.trimBlocks = false) (bound : nestingOfForest forest ≤ config.maxDepth) :
    ofSource (printForest forest) config = .ok forest := by
  have each : ∀ n ∈ forest, n.nesting ≤ config.maxDepth → ∃ ps, Written config.maxDepth n ps :=
    fun n member => exists_written (printable n member)
  obtain ⟨ps, written⟩ := writtenForest_of_written each apart bound
  have splits := written.splits joins_nil
  rw [List.append_nil, List.append_nil] at splits
  exact ofSource_of_splitsInto splits written.derives keeps

theorem ofSource_printed_branch :
    ofSource
      "a\x7b% if !(\"\\\"\") %\x7d\x7b\x7b (x) + (1.5) \x7d\x7d\x7b% else %\x7db\x7b% endif %\x7d" {} =
      .ok [.text "a", .branch
        [(.unary .not (.literal (.string "\"")),
          [.output (.binary .add (.variable "x") (.literal (.number (.nearest false 3 2))))])]
        (some [.text "b"])] := by
  have text (s : String) (nonempty : s ≠ "") (no_brace : '\x7b' ∉ s.toList) :
      Printable (.text s) := by
    apply Printable.text nonempty (isText_of_notMem no_brace)
    intro last
    exact no_brace (List.mem_of_getLast? last)
  have number : (Number.nearest false 3 2).IsWritable :=
    ⟨by decide +kernel, 3 * 2 ^ 51, -52, by decide +kernel⟩
  have sum : Expr.Printable
      (.binary .add (.variable "x") (.literal (.number (.nearest false 3 2)))) :=
    .binary .add (.name (by cbv)) (.literal number)
  have test : Expr.Printable (.unary .not (.literal (.string "\""))) :=
    .unary .not (.literal trivial)
  have branch : Printable (.branch [(_, [.output _])] (some [.text "b"])) :=
    .branch (by simp) (by simpa using test) (by simpa using .output sum) (by simp [Apart])
      (by simpa using text "b" (by simp) (by simp)) (by simp [Apart])
  have printable := List.forall_mem_cons.2
    ⟨text "a" (by simp) (by simp), List.forall_mem_singleton.2 branch⟩
  convert ofSource_printForest _ {} printable (by simp [Apart, isText]) rfl (by decide) using 2
  decide +kernel

end Node
end Stencil
