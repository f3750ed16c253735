import Mathlib
import Stencil.Proofs.Node.Soundness

/-! What the grammar of blocks derives, the assembly of segments builds. -/
namespace Stencil

open Block

variable {limit : Nat} {p : Part} {ps qs : List Part} {ns ms : List Node}
  {segments : List Segment}

namespace Assembly

/-- Segments that say `ps` add the nodes `ns`, whatever is open. -/
def Adds (limit : Nat) (ps : List Part) (ns : List Node) : Prop :=
  ∀ segments a, List.Forall₂ (Segment.Reads limit) segments ps →
    segments.foldlM (add limit) a = .ok (a.append ns)

/-- Segments that say `ps`, when they follow the opening of the block `start`, make it the block
`block` with the nodes `ns` in the section being collected. -/
def Fills (limit : Nat) (start : OpenBlock) (ps : List Part) (block : OpenBlock)
    (ns : List Node) : Prop :=
  ∀ segments nodes opener position outer, List.Forall₂ (Segment.Reads limit) segments ps →
    segments.foldlM (add limit) ⟨nodes, ⟨start, opener, position, []⟩ :: outer⟩ =
      .ok ⟨nodes, ⟨block, opener, position, ns⟩ :: outer⟩

theorem exists_of_reads_append
    (reads : List.Forall₂ (Segment.Reads limit) segments (ps ++ qs)) :
    ∃ before after, segments = before ++ after ∧
      List.Forall₂ (Segment.Reads limit) before ps ∧
      List.Forall₂ (Segment.Reads limit) after qs := by
  refine ⟨segments.take ps.length, segments.drop ps.length, ?_, ?_, ?_⟩
  · exact (List.take_append_drop ps.length segments).symm
  · exact List.forall₂_take_append segments ps qs reads
  · exact List.forall₂_drop_append segments ps qs reads

theorem exists_of_reads_singleton (reads : List.Forall₂ (Segment.Reads limit) segments [p]) :
    ∃ s, segments = [s] ∧ s.Reads limit p := by
  obtain ⟨s, rest, read, nothing, rfl⟩ := List.forall₂_cons_right_iff.1 reads
  rw [List.forall₂_nil_right_iff.1 nothing]
  exact ⟨s, rfl, read⟩

theorem adds_nil : Adds limit [] [] := by
  intro segments a reads
  rw [List.forall₂_nil_right_iff.1 reads, append_nil]
  rfl

theorem Adds.append (first : Adds limit ps ns) (second : Adds limit qs ms) :
    Adds limit (ps ++ qs) (ns ++ ms) := by
  intro segments a reads
  obtain ⟨before, after, rfl, left, right⟩ := exists_of_reads_append reads
  rw [List.foldlM_append, first before a left]
  have rest := second after (a.append ns) right
  rwa [append_append] at rest

theorem adds_of_place (h : ∀ a s, place a s p = .ok (a.append ns)) : Adds limit [p] ns := by
  intro segments a reads
  obtain ⟨s, rfl, read⟩ := exists_of_reads_singleton reads
  rw [List.foldlM_cons, add_eq_place read, h]
  rfl

variable {start block block' : OpenBlock}

theorem Adds.fills (adds : Adds limit ps ns) : Fills limit start ps start ns := by
  intro segments nodes opener position outer reads
  rw [adds segments _ reads]
  rfl

/-- A tag that ends one section and begins the next. -/
theorem Fills.continue (tag : LogicTag) (fills : Fills limit start ps block ns)
    (restarts : ∀ s nodes opener position outer,
      (⟨nodes, ⟨block, opener, position, ns⟩ :: outer⟩ : Assembly).tag s tag =
        .ok ⟨nodes, ⟨block', opener, position, []⟩ :: outer⟩)
    (adds : Adds limit qs ms) : Fills limit start (ps ++ .tag tag :: qs) block' ms := by
  intro segments nodes opener position outer reads
  obtain ⟨before, after, rfl, left, right⟩ := exists_of_reads_append reads
  obtain ⟨s, rest, read, within, rfl⟩ := List.forall₂_cons_right_iff.1 right
  rw [List.foldlM_append, fills before nodes opener position outer left]
  change List.foldlM (add limit) _ (s :: rest) = _
  rw [List.foldlM_cons, add_eq_place read, place, restarts]
  exact adds.fills rest nodes opener position outer within

theorem Fills.sections {sections : List Section} {bs : List (Expr × List Node)} {c : Expr}
    (fills : Fills limit start ps (.branch bs (some c)) ns)
    (adds : ∀ s ∈ sections, Adds limit s.parts s.nodes) :
    ∃ bs' c' ns', bs' ++ [(c', ns')] = bs ++ (c, ns) :: sections.map Section.branch ∧
      Fills limit start (ps ++ sections.flatMap Section.written) (.branch bs' (some c')) ns' := by
  induction sections generalizing ps bs c ns with
  | nil => exact ⟨bs, c, ns, rfl, by simpa using fills⟩
  | cons s sections ih =>
    have first := adds s (by simp)
    have next : Fills limit start (ps ++ s.written)
        (.branch (bs ++ [(c, ns)]) (some s.condition)) s.nodes :=
      fills.continue (.elseIf s.word s.condition) (fun _ _ _ _ _ => rfl) first
    obtain ⟨bs', c', ns', branches, whole⟩ := ih next fun s h => adds s (by simp [h])
    refine ⟨bs', c', ns', ?_, ?_⟩
    · simpa [Section.branch] using branches
    · simpa using whole

/-- A whole block, from its opening tag to its end tag. -/
theorem Fills.adds (tag : LogicTag) (fills : Fills limit start ps block ns)
    (opens : ∀ (a : Assembly) s, a.tag s tag = .ok (a.openBlock s start)) :
    Adds limit (.tag tag :: ps ++ [.tag (.close block.kind)]) [block.finish ns] := by
  intro segments a reads
  obtain ⟨before, after, rfl, left, right⟩ := exists_of_reads_append reads
  obtain ⟨opener, inside, first, within, rfl⟩ := List.forall₂_cons_right_iff.1 left
  obtain ⟨closer, rfl, last⟩ := exists_of_reads_singleton right
  have inner : List.foldlM (add limit) (a.openBlock opener start) inside =
      .ok ⟨a.nodes, ⟨block, String.ofList (Text.trim opener.source.toList), opener.position, ns⟩ ::
        a.frames⟩ := fills inside _ _ _ _ within
  have closed : ∀ outer : Assembly, ∀ opening position,
      place ⟨outer.nodes, ⟨block, opening, position, ns⟩ :: outer.frames⟩ closer
        (.tag (.close block.kind)) = .ok (outer.append [block.finish ns]) := by
    intro outer opening position
    simp only [place, Assembly.tag, close, if_true]
    rfl
  rw [List.cons_append, List.foldlM_cons, add_eq_place first, place, opens]
  change List.foldlM (add limit) (a.openBlock opener start) (inside ++ [closer]) = _
  rw [List.foldlM_append, inner]
  change List.foldlM (add limit) _ [closer] = _
  rw [List.foldlM_cons, add_eq_place last, closed a]
  rfl

theorem adds_of_derives (derived : Derives ps ns) : Adds limit ps ns := by
  induction derived with
  | nil => exact adds_nil
  | append _ _ first second => exact first.append second
  | text s => exact adds_of_place fun _ _ => rfl
  | comment =>
    apply adds_of_place
    intro a s
    rw [append_nil]
    rfl
  | output e => exact adds_of_place fun _ _ => rfl
  | set x e => exact adds_of_place fun _ _ => rfl
  | capture x _ body =>
    have inside : Fills limit (.capture x) _ _ _ := body.fills
    exact inside.adds (.openCapture x) fun _ _ => rfl
  | loop k x e _ body =>
    have inside : Fills limit (.loop k x e none) _ _ _ := body.fills
    exact inside.adds (.openLoop k x e) fun _ _ => rfl
  | @loopElse _ _ body _ k x e _ _ first other =>
    have inside : Fills limit (.loop k x e none) _ _ _ := first.fills
    have whole : Fills limit _ _ (.loop k x e (some body)) _ :=
      inside.continue .otherwise (fun _ _ _ _ _ => rfl) other
    have adds := whole.adds (.openLoop k x e) fun _ _ => rfl
    simpa [OpenBlock.kind, OpenBlock.finish] using adds
  | branch test _ _ first sections =>
    have inside : Fills limit (.branch [] (some test)) _ _ _ := first.fills
    obtain ⟨bs, c, ns, branches, whole⟩ := inside.sections sections
    have adds := whole.adds (.openBranch test) fun _ _ => rfl
    rw [OpenBlock.finish, branches] at adds
    exact adds
  | branchElse test _ _ _ first sections other =>
    have inside : Fills limit (.branch [] (some test)) _ _ _ := first.fills
    obtain ⟨bs, c, ns, branches, before⟩ := inside.sections sections
    have whole : Fills limit _ _ (.branch (bs ++ [(c, ns)]) none) _ :=
      before.continue .otherwise (fun _ _ _ _ _ => rfl) other
    have adds := whole.adds (.openBranch test) fun _ _ => rfl
    rw [OpenBlock.finish, branches] at adds
    simpa [OpenBlock.kind] using adds

end Assembly

open Assembly

theorem Node.ofSegments_of_derives (reads : List.Forall₂ (Segment.Reads limit) segments ps)
    (derived : Block.Derives ps ns) : Node.ofSegments limit segments = .ok ns := by
  rw [Node.ofSegments, adds_of_derives derived segments .empty reads]
  rfl

theorem Node.derives_of_ofSegments (reads : List.Forall₂ (Segment.Reads limit) segments ps)
    (h : Node.ofSegments limit segments = .ok ns) : Block.Derives ps ns := by
  obtain ⟨a, run, finish⟩ := bind_eq_ok_iff.1 h
  have builds : Builds ([] ++ ps) a := Builds.run (.root .nil) reads run
  cases builds with
  | root derived =>
    cases finish
    exact derived
  | frame => cases finish

theorem Node.ofSegments_cases (reads : List.Forall₂ (Segment.Reads limit) segments ps) :
    (∃ forest, Node.ofSegments limit segments = .ok forest) ∨
      ∃ fault opener, Node.ofSegments limit segments = .error (.tagMismatch fault opener) := by
  rw [Node.ofSegments]
  rcases run_cases (a := .empty) reads with ⟨⟨nodes, _ | ⟨frame, outer⟩⟩, run⟩ | ⟨fault, opener, run⟩
  · rw [run]
    exact .inl ⟨nodes, rfl⟩
  · rw [run]
    exact .inr ⟨_, _, rfl⟩
  · rw [run]
    exact .inr ⟨fault, opener, rfl⟩

/-- When every tag can be read, the forest is the one that the grammar of blocks derives, and
without a derivation a tag is blamed. On the way, the stack holds the open blocks above the one
root. -/
theorem Node.ofSegments_eq_ok_iff_derives (limit : Nat) (segments : List Segment)
    (parts : List Part) (reads : List.Forall₂ (Segment.Reads limit) segments parts) :
    (∀ forest, Node.ofSegments limit segments = .ok forest ↔ Block.Derives parts forest) ∧
    ((∀ forest, ¬ Block.Derives parts forest) →
      ∃ fault opener, Node.ofSegments limit segments = .error (.tagMismatch fault opener)) ∧
    ∀ k a, (segments.take k).foldlM (Assembly.add limit) .empty = .ok a →
      a.stack.map (Option.map Frame.opening) =
        (Block.openings ((segments.zip parts).take k)).map some ++ [none] := by
  refine ⟨fun forest => ⟨derives_of_ofSegments reads, ofSegments_of_derives reads⟩, ?_, ?_⟩
  · intro underivable
    rcases ofSegments_cases reads with ⟨forest, built⟩ | mismatch
    · exact absurd (derives_of_ofSegments reads built) (underivable forest)
    · exact mismatch
  · intro k a run
    have opened := opening_run (List.forall₂_take k reads) run
    have frames : a.frames.map Frame.opening = Block.openings ((segments.zip parts).take k) := by
      rw [opened, List.zip, List.take_zipWith]
      rfl
    simp [stack, ← frames]

theorem Node.ofSegments_if_block :
    Node.ofSegments 1 [⟨.tag .logic, "if x", 2⟩, ⟨.text, "a", 8⟩, ⟨.tag .logic, "endif", 11⟩] =
      .ok [.branch [(.variable "x", [.text "a"])] none] := by
  have reads : List.Forall₂ (Segment.Reads 1)
      [⟨.tag .logic, "if x", 2⟩, ⟨.text, "a", 8⟩, ⟨.tag .logic, "endif", 11⟩]
      [.tag (.openBranch (.variable "x")), .text "a", .tag (.close .branch)] :=
    .cons (.logic (by cbv)) (.cons (.text "a" 8) (.cons (.logic (by cbv)) .nil))
  have derived : Block.Derives
      [.tag (.openBranch (.variable "x")), .text "a", .tag (.close .branch)]
      [.branch [(.variable "x", [.text "a"])] none] := by
    have none : ∀ s ∈ ([] : List Block.Section), Block.Derives s.parts s.nodes := by simp
    simpa using Block.Derives.branch (.variable "x") (.text "a") none
  exact ((ofSegments_eq_ok_iff_derives 1 _ _ reads).1 _).2 derived

end Stencil
