import Mathlib.Data.List.Forall2
import Stencil.Proofs.Action
import Stencil.Proofs.Node.Grammar

/-! What the assembly of segments has built is what the grammar of blocks derives, and its stack
holds exactly the open blocks. -/
namespace Stencil

open Block

variable {limit : Nat} {a b : Assembly} {s : Segment} {p : Part} {ps qs : List Part}
  {ns ms : List Node} {segments : List Segment}

namespace Block

/-- The opening tag of a block and its complete sections, with the tags that end them. -/
inductive Begun : OpenBlock → List Part → Prop
  | capture (x : String) : Begun (.capture x) [.tag (.openCapture x)]
  | loop (k : Option String) (x : String) (e : Expr) :
      Begun (.loop k x e none) [.tag (.openLoop k x e)]
  | loopElse {ps : List Part} {body : List Node} (k : Option String) (x : String) (e : Expr) :
      Derives ps body →
      Begun (.loop k x e (some body)) (.tag (.openLoop k x e) :: ps ++ [.tag .otherwise])
  | branch (test : Expr) : Begun (.branch [] (some test)) [.tag (.openBranch test)]
  | elseIf {ps qs : List Part} {bs : List (Expr × List Node)} {c : Expr} {ns : List Node}
      (word : String) (d : Expr) :
      Begun (.branch bs (some c)) ps → Derives qs ns →
      Begun (.branch (bs ++ [(c, ns)]) (some d)) (ps ++ qs ++ [.tag (.elseIf word d)])
  | branchElse {ps qs : List Part} {bs : List (Expr × List Node)} {c : Expr} {ns : List Node} :
      Begun (.branch bs (some c)) ps → Derives qs ns →
      Begun (.branch (bs ++ [(c, ns)]) none) (ps ++ qs ++ [.tag .otherwise])

theorem Begun.sections {bs : List (Expr × List Node)} {c : Expr}
    (begun : Begun (.branch bs (some c)) ps) (last : Derives qs ns) :
    ∃ test rs body, ∃ sections : List Section, Derives rs body ∧
      (∀ s ∈ sections, Derives s.parts s.nodes) ∧
      ps ++ qs = .tag (.openBranch test) :: rs ++ sections.flatMap Section.written ∧
      bs ++ [(c, ns)] = (test, body) :: sections.map Section.branch := by
  generalize whole : OpenBlock.branch bs (some c) = block at begun
  induction begun generalizing bs c qs ns with
  | capture | loop | loopElse | branchElse => simp at whole
  | branch test =>
    simp only [OpenBlock.branch.injEq, Option.some.injEq] at whole
    obtain ⟨rfl, rfl⟩ := whole
    exact ⟨c, qs, ns, [], last, by simp, by simp, by simp⟩
  | elseIf word d _ before ih =>
    simp only [OpenBlock.branch.injEq, Option.some.injEq] at whole
    obtain ⟨rfl, rfl⟩ := whole
    obtain ⟨test, rs, body, sections, first, others, written, branches⟩ := ih before rfl
    refine ⟨test, rs, body, sections ++ [⟨word, c, qs, ns⟩], first, ?_, ?_, ?_⟩
    · intro s member
      rcases List.mem_append.1 member with earlier | final
      · exact others s earlier
      · rw [List.mem_singleton.1 final]
        exact last
    · simp [written, Section.written]
    · simp [branches, Section.branch]

theorem Begun.finish {block : OpenBlock} (begun : Begun block ps) (last : Derives qs ns) :
    Derives (ps ++ qs ++ [.tag (.close block.kind)]) [block.finish ns] := by
  cases begun with
  | capture x => exact .capture x last
  | loop k x e => exact .loop k x e last
  | loopElse k x e body =>
    have derived := Derives.loopElse k x e body last
    simpa [OpenBlock.kind, OpenBlock.finish] using derived
  | branch test =>
    have none : ∀ s ∈ ([] : List Section), Derives s.parts s.nodes := by simp
    have derived := Derives.branch test last none
    simpa [OpenBlock.kind, OpenBlock.finish] using derived
  | elseIf word d begun before =>
    obtain ⟨test, rs, body, sections, first, others, written, branches⟩ :=
      (begun.elseIf word d before).sections last
    rw [written, OpenBlock.finish, branches]
    exact .branch test first others
  | branchElse begun before =>
    obtain ⟨test, rs, body, sections, first, others, written, branches⟩ := begun.sections before
    have derived := Derives.branchElse test first others last
    rw [OpenBlock.finish, written, branches]
    simpa [OpenBlock.kind] using derived

end Block

namespace Assembly

/-- Takes a segment whose inside has been read. -/
def place (a : Assembly) (s : Segment) : Part → Except Error Assembly
  | .text t => .ok (a.push (.text t))
  | .comment => .ok a
  | .output e => .ok (a.push (.output e))
  | .tag tag => a.tag s tag

theorem add_eq_place (read : s.Reads limit p) : a.add limit s = a.place s p := by
  cases read with
  | text => rfl
  | comment => rfl
  | output h => simp only [add, h]; rfl
  | logic h => simp only [add, h]; rfl

/-- What is added can be read. -/
theorem exists_reads (added : a.add limit s = .ok b) : ∃ p, s.Reads limit p := by
  obtain ⟨kind, source, position⟩ := s
  cases kind with
  | text => exact ⟨_, .text source position⟩
  | tag tag =>
    cases tag with
    | comment => exact ⟨_, .comment source position⟩
    | output =>
      obtain ⟨e, read, -⟩ := map_eq_ok_iff.1 added
      exact ⟨_, .output read⟩
    | logic =>
      obtain ⟨t, read, -⟩ := bind_eq_ok_iff.1 added
      exact ⟨_, .logic read⟩

/-- Adds nodes to the innermost section. -/
def append (a : Assembly) (ns : List Node) : Assembly :=
  match a.frames with
  | [] => { a with nodes := a.nodes ++ ns }
  | frame :: outer => { a with frames := { frame with nodes := frame.nodes ++ ns } :: outer }

theorem append_singleton (node : Node) : a.append [node] = a.push node := rfl

@[simp] theorem append_nil : a.append [] = a := by
  obtain ⟨nodes, _ | ⟨frame, outer⟩⟩ := a <;> simp [append]

@[simp] theorem append_append : (a.append ns).append ms = a.append (ns ++ ms) := by
  obtain ⟨nodes, _ | ⟨frame, outer⟩⟩ := a <;> simp [append]

variable {nodes : List Node} {outer : List Frame} {block : OpenBlock} {opener : String}
  {position : Nat}

/-- `Builds ps a`: the nodes outside all blocks, the sections of the open blocks and the nodes
collected in each stand for the parts `ps`. -/
inductive Builds : List Part → Assembly → Prop
  | root {ps : List Part} {ns : List Node} : Derives ps ns → Builds ps ⟨ns, []⟩
  | frame {ps qs rs : List Part} {nodes ns : List Node} {outer : List Frame} {block : OpenBlock}
      {opener : String} {position : Nat} :
      Builds ps ⟨nodes, outer⟩ → Begun block qs → Derives rs ns →
      Builds (ps ++ qs ++ rs) ⟨nodes, ⟨block, opener, position, ns⟩ :: outer⟩

theorem Builds.append (builds : Builds ps a) (more : Derives qs ns) :
    Builds (ps ++ qs) (a.append ns) := by
  cases builds with
  | root derived => exact .root (derived.append more)
  | frame outer begun inner =>
    rw [List.append_assoc]
    exact .frame outer begun (inner.append more)

/-- A section has just begun. -/
theorem Builds.begin (builds : Builds ps ⟨nodes, outer⟩) (begun : Begun block qs) :
    Builds (ps ++ qs) ⟨nodes, ⟨block, opener, position, []⟩ :: outer⟩ := by
  have begins : Builds (ps ++ qs ++ []) ⟨nodes, ⟨block, opener, position, []⟩ :: outer⟩ :=
    .frame builds begun .nil
  rwa [List.append_nil] at begins

theorem Builds.openBlock {tag : LogicTag} {block : OpenBlock} (builds : Builds ps a)
    (begun : Begun block [.tag tag]) : Builds (ps ++ [.tag tag]) (a.openBlock s block) :=
  Builds.begin builds begun

theorem Builds.elseIf {word : String} {c : Expr} (builds : Builds ps a)
    (h : a.elseIf word c = .ok b) : Builds (ps ++ [.tag (.elseIf word c)]) b := by
  cases builds with
  | root => simp [Assembly.elseIf] at h
  | @frame _ _ _ _ _ _ block _ _ outer begun inner =>
    rcases block with _ | ⟨bs, _ | previous⟩ | _ <;> simp only [Assembly.elseIf] at h
    · cases h
    · cases h
    · simp only [Except.ok.injEq] at h
      subst h
      simpa using outer.begin (begun.elseIf word c inner)
    · cases h

theorem Builds.otherwise (builds : Builds ps a) (h : a.otherwise = .ok b) :
    Builds (ps ++ [.tag .otherwise]) b := by
  cases builds with
  | root => simp [Assembly.otherwise] at h
  | @frame _ _ _ _ _ _ block _ _ outer begun inner =>
    rcases block with ⟨k, x, e, _ | body⟩ | ⟨bs, _ | previous⟩ | _ <;>
      simp only [Assembly.otherwise] at h
    · simp only [Except.ok.injEq] at h
      subst h
      cases begun
      simpa using outer.begin (.loopElse k x e inner)
    · cases h
    · cases h
    · simp only [Except.ok.injEq] at h
      subst h
      simpa using outer.begin (begun.branchElse inner)
    · cases h

theorem Builds.close {kind : BlockKind} (builds : Builds ps a) (h : a.close kind = .ok b) :
    Builds (ps ++ [.tag (.close kind)]) b := by
  cases builds with
  | root => simp [Assembly.close] at h
  | frame outer begun inner =>
    simp only [Assembly.close] at h
    split at h
    · next same =>
      simp only [Except.ok.injEq] at h
      subst h
      have closed := outer.append (begun.finish inner)
      rw [append_singleton, same] at closed
      simpa using closed
    · cases h

theorem Builds.place (builds : Builds ps a) (h : a.place s p = .ok b) : Builds (ps ++ [p]) b := by
  cases p with
  | text t =>
    cases h
    exact builds.append (.text t)
  | comment =>
    cases h
    have same := builds.append .comment
    rwa [append_nil] at same
  | output e =>
    cases h
    exact builds.append (.output e)
  | tag tag =>
    cases tag with
    | set x e =>
      cases h
      exact builds.append (.set x e)
    | openCapture x =>
      cases h
      exact builds.openBlock (.capture x)
    | openLoop k x e =>
      cases h
      exact builds.openBlock (.loop k x e)
    | openBranch test =>
      cases h
      exact builds.openBlock (.branch test)
    | elseIf word c => exact builds.elseIf h
    | otherwise => exact builds.otherwise h
    | close kind => exact builds.close h

/-- A tag that does not fit is blamed as such. -/
theorem place_cases (a : Assembly) (s : Segment) (p : Part) :
    (∃ b, a.place s p = .ok b) ∨
      ∃ fault opener, a.place s p = .error (.tagMismatch fault opener) := by
  obtain ⟨nodes, _ | ⟨⟨block, opener, position, ns⟩, outer⟩⟩ := a
  · rcases p with _ | _ | _ | tag
    case tag => cases tag <;> simp [place, tag, elseIf, otherwise, close, unexpected]
    all_goals simp [place]
  · rcases p with _ | _ | _ | tag
    case tag =>
      cases tag with
      | close kind =>
        by_cases same : block.kind = kind <;> simp [place, tag, close, unexpected, same]
      | _ =>
        rcases block with ⟨_, _, _, _ | _⟩ | ⟨_, _ | _⟩ | _ <;>
          simp [place, tag, elseIf, otherwise, unexpected]
    all_goals simp [place]

@[simp] theorem opening_push (node : Node) :
    (a.push node).frames.map Frame.opening = a.frames.map Frame.opening := by
  obtain ⟨nodes, _ | ⟨frame, outer⟩⟩ := a <;> simp [push, Frame.opening]

theorem opening_place (h : a.place s p = .ok b) :
    b.frames.map Frame.opening = pass (a.frames.map Frame.opening) (s, p) := by
  cases p with
  | text | comment | output =>
    cases h
    simp [Block.pass]
  | tag tag =>
    cases tag with
    | set =>
      cases h
      simp [Block.pass]
    | openCapture | openLoop | openBranch =>
      cases h
      rfl
    | elseIf word c =>
      obtain ⟨nodes, _ | ⟨⟨⟨_, _, _, _⟩ | ⟨bs, _ | previous⟩ | _, opener, position, ns⟩, outer⟩⟩ := a
      all_goals cases h
      rfl
    | otherwise =>
      obtain ⟨nodes, _ | ⟨⟨⟨_, _, _, _ | _⟩ | ⟨bs, _ | previous⟩ | _, opener, position, ns⟩, outer⟩⟩ := a
      all_goals cases h
      all_goals rfl
    | close kind =>
      obtain ⟨nodes, _ | ⟨frame, outer⟩⟩ := a <;> simp only [place, Assembly.tag, close] at h
      · cases h
      · split at h
        · cases h
          simp [Block.pass]
        · cases h

theorem exists_reads_run (run : segments.foldlM (add limit) a = .ok b) :
    ∃ ps, List.Forall₂ (Segment.Reads limit) segments ps := by
  induction segments generalizing a with
  | nil => exact ⟨[], .nil⟩
  | cons s segments ih =>
    rw [List.foldlM_cons] at run
    obtain ⟨m, added, rest⟩ := bind_eq_ok_iff.1 run
    obtain ⟨p, read⟩ := exists_reads added
    obtain ⟨ps, reads⟩ := ih rest
    exact ⟨p :: ps, .cons read reads⟩

theorem Builds.run (builds : Builds qs a) (reads : List.Forall₂ (Segment.Reads limit) segments ps)
    (h : segments.foldlM (add limit) a = .ok b) : Builds (qs ++ ps) b := by
  induction reads generalizing qs a with
  | nil =>
    cases h
    simpa using builds
  | cons read _ ih =>
    rw [List.foldlM_cons, add_eq_place read] at h
    obtain ⟨c, placed, rest⟩ := bind_eq_ok_iff.1 h
    simpa using ih (builds.place placed) rest

theorem opening_run (reads : List.Forall₂ (Segment.Reads limit) segments ps)
    (h : segments.foldlM (add limit) a = .ok b) :
    b.frames.map Frame.opening = (segments.zip ps).foldl pass (a.frames.map Frame.opening) := by
  induction reads generalizing a with
  | nil =>
    cases h
    rfl
  | cons read _ ih =>
    rw [List.foldlM_cons, add_eq_place read] at h
    obtain ⟨c, placed, rest⟩ := bind_eq_ok_iff.1 h
    rw [ih rest, opening_place placed]
    rfl

theorem run_cases (reads : List.Forall₂ (Segment.Reads limit) segments ps) :
    (∃ b, segments.foldlM (add limit) a = .ok b) ∨
      ∃ fault opener, segments.foldlM (add limit) a = .error (.tagMismatch fault opener) := by
  induction reads generalizing a with
  | nil => exact .inl ⟨a, rfl⟩
  | @cons s p _ _ read _ ih =>
    rw [List.foldlM_cons, add_eq_place read]
    rcases place_cases a s p with ⟨b, placed⟩ | ⟨fault, opener, mismatch⟩
    · rw [placed]
      exact ih
    · rw [mismatch]
      exact .inr ⟨fault, opener, rfl⟩

end Assembly
end Stencil
