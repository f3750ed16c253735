import Stencil.Proofs.Node.Failure
import Stencil.Proofs.Node.Soundness
import Stencil.Proofs.Segment.Trim

/-! The block that is blamed for a tag without a place: what is on the stack are the opening tags that
have not been closed, each by an end tag of its own kind, in the order in which they were read. -/
namespace Stencil

open Block

variable {limit : Nat} {a b : Assembly} {s : Segment} {p : Part} {kind : BlockKind}
  {read inner more : List (Segment × Part)} {blocks : List Opening} {segments : List Segment}
  {ps : List Part} {fault : TagFault} {opener : Option String}

/-- The kind of the block that begins. -/
def Part.opens? : Part → Option BlockKind
  | .tag (.openCapture _) => some .capture
  | .tag (.openLoop ..) => some .loop
  | .tag (.openBranch _) => some .branch
  | _ => none

/-- The kind of the block that ends. -/
def Part.closes? : Part → Option BlockKind
  | .tag (.close kind) => some kind
  | _ => none

namespace Block

/-- Each opening tag is closed by an end tag of its own kind, and each end tag closes one. -/
inductive Balanced : List (Segment × Part) → Prop
  | nil : Balanced []
  | plain {read : List (Segment × Part)} {p : Part} (s : Segment) :
      Balanced read → p.opens? = none → p.closes? = none → Balanced (read ++ [(s, p)])
  | block {outer inner : List (Segment × Part)} {p q : Part} {kind : BlockKind} (s t : Segment) :
      Balanced outer → p.opens? = some kind → Balanced inner → q.closes? = some kind →
      Balanced (outer ++ (s, p) :: inner ++ [(t, q)])

/-- What is read ends inside the block that `s` opens: that tag is not closed, and all tags behind it
are. -/
def EndsInside (read : List (Segment × Part)) (s : Segment) : Prop :=
  ∃ outer p inner kind, read = outer ++ (s, p) :: inner ∧ p.opens? = some kind ∧ Balanced inner

theorem pass_of_opens (opens : p.opens? = some kind) (blocks : List Opening) (s : Segment) :
    pass blocks (s, p) = .ofSegment kind s :: blocks := by
  unfold Part.opens? at opens
  split at opens <;> cases opens <;> rfl

theorem pass_of_closes (closes : p.closes? = some kind) (blocks : List Opening) (s : Segment) :
    pass blocks (s, p) = blocks.tail := by
  unfold Part.closes? at closes
  split at closes <;> cases closes
  rfl

theorem pass_of_plain (opens : p.opens? = none) (closes : p.closes? = none) (blocks : List Opening)
    (s : Segment) : pass blocks (s, p) = blocks := by
  cases p with
  | text | comment | output => rfl
  | tag tag =>
    cases tag with
    | openCapture | openLoop | openBranch => cases opens
    | close => cases closes
    | set | elseIf | otherwise => rfl

/-- What is balanced leaves the open blocks as they are. -/
theorem Balanced.foldl_pass (balanced : Balanced read) (blocks : List Opening) :
    read.foldl pass blocks = blocks := by
  induction balanced generalizing blocks with
  | nil => rfl
  | plain s _ opens closes ih => simp [ih, pass_of_plain opens closes]
  | block s t _ opens _ closes outer inner =>
    simp [outer, inner, pass_of_opens opens, pass_of_closes closes]

theorem EndsInside.exists_openings (inside : EndsInside read s) :
    ∃ kind blocks, openings read = .ofSegment kind s :: blocks := by
  obtain ⟨outer, p, inner, kind, rfl, opens, balanced⟩ := inside
  exact ⟨kind, openings outer, by simp [openings, pass_of_opens opens, balanced.foldl_pass]⟩

theorem EndsInside.mem_of_reads (inside : EndsInside (segments.zip ps) s)
    (reads : List.Forall₂ (Segment.Reads limit) segments ps) :
    s ∈ segments ∧ s.kind = .tag .logic := by
  obtain ⟨outer, p, inner, kind, whole, opens, -⟩ := inside
  have member : (s, p) ∈ segments.zip ps := by simp [whole]
  refine ⟨(List.of_mem_zip member).1, ?_⟩
  cases List.forall₂_zip reads member with
  | logic => rfl
  | text | comment | output => cases opens

/-- `Unclosed blocks read`: the opening tags in `read` that have not been closed are `blocks`, the last
of them first. -/
inductive Unclosed : List Opening → List (Segment × Part) → Prop
  | root {read : List (Segment × Part)} : Balanced read → Unclosed [] read
  | block {blocks : List Opening} {outer inner : List (Segment × Part)} {p : Part} {kind : BlockKind}
      (s : Segment) :
      Unclosed blocks outer → p.opens? = some kind → Balanced inner →
      Unclosed (.ofSegment kind s :: blocks) (outer ++ (s, p) :: inner)

/-- Behind the last opening tag anything goes on that is balanced with what is read already. -/
theorem Unclosed.extend (unclosed : Unclosed blocks read)
    (extends_balanced : ∀ inner, Balanced inner → Balanced (inner ++ more)) :
    Unclosed blocks (read ++ more) := by
  cases unclosed with
  | root balanced => exact .root (extends_balanced _ balanced)
  | block s outer opens balanced =>
    rw [List.append_assoc, List.cons_append]
    exact .block s outer opens (extends_balanced _ balanced)

theorem Unclosed.balanced_or_inside (unclosed : Unclosed blocks read) :
    Balanced read ∨ ∃ s, EndsInside read s := by
  cases unclosed with
  | root balanced => exact .inl balanced
  | block s _ opens balanced => exact .inr ⟨s, _, _, _, _, rfl, opens, balanced⟩

end Block

namespace Assembly

theorem exists_frame_of_closes (placed : a.place s p = .ok b) (closes : p.closes? = some kind) :
    ∃ frame outer, a.frames = frame :: outer ∧ frame.block.kind = kind := by
  unfold Part.closes? at closes
  split at closes <;> cases closes
  simp only [place, tag, close] at placed
  split at placed
  · next frame outer frames =>
    split at placed
    · next same => exact ⟨frame, outer, frames, same⟩
    · cases placed
  · cases placed

/-- One more part keeps the frames in step with the opening tags that are not closed. -/
theorem unclosed_place (unclosed : Unclosed (a.frames.map Frame.opening) read)
    (placed : a.place s p = .ok b) : Unclosed (b.frames.map Frame.opening) (read ++ [(s, p)]) := by
  rw [opening_place placed]
  cases opens : p.opens? with
  | some kind =>
    rw [pass_of_opens opens]
    exact .block s unclosed opens .nil
  | none =>
    cases closes : p.closes? with
    | none =>
      rw [pass_of_plain opens closes]
      exact unclosed.extend fun _ balanced => balanced.plain s opens closes
    | some kind =>
      -- The end tag and the last opening tag make a block, which joins what is read before that tag.
      obtain ⟨frame, outer, frames, same⟩ := exists_frame_of_closes placed closes
      rw [pass_of_closes closes]
      generalize stack : a.frames.map Frame.opening = blocks at unclosed ⊢
      rw [frames, List.map_cons] at stack
      cases unclosed with
      | root => cases stack
      | @block blocks before inner q kind' t unclosed begins balanced =>
        obtain ⟨first, -⟩ := List.cons.inj stack
        obtain rfl : kind = kind' := same.symm.trans (congrArg Opening.kind first)
        rw [List.append_assoc]
        refine unclosed.extend fun read balanced' => ?_
        rw [← List.append_assoc]
        exact .block t s balanced' begins balanced closes

theorem unclosed_run (unclosed : Unclosed (a.frames.map Frame.opening) read)
    (reads : List.Forall₂ (Segment.Reads limit) segments ps)
    (run : segments.foldlM (add limit) a = .ok b) :
    Unclosed (b.frames.map Frame.opening) (read ++ segments.zip ps) := by
  induction reads generalizing a read with
  | nil =>
    cases run
    simpa using unclosed
  | cons first _ ih =>
    rw [List.foldlM_cons, add_eq_place first] at run
    obtain ⟨m, placed, rest⟩ := bind_eq_ok_iff.1 run
    simpa using ih (unclosed_place unclosed placed) rest

end Assembly

/-- The position in the message. -/
def TagFault.openedAt? : TagFault → Option Nat
  | .inside _ _ position => some position
  | .unclosed _ position => some position
  | .noOpenBlock _ | .afterElse _ | .secondElse _ => none

theorem TagFault.exists_message {position : Nat} (opened : fault.openedAt? = some position) :
    ∃ front behind, fault.message = front ++ "opened at byte " ++ Nat.repr position ++ behind := by
  cases fault with
  | inside tag block position =>
    cases opened
    have split : "` opened at byte " = "` " ++ "opened at byte " := by decide
    refine ⟨"unexpected `" ++ tag ++ "` inside `" ++ block.keyword ++ "` ", "", ?_⟩
    change "unexpected `" ++ tag ++ "` inside `" ++ block.keyword ++ "` opened at byte " ++ _ = _
    rw [split]
    simp only [String.append_assoc, String.append_empty]
  | unclosed block position =>
    cases opened
    have split : "` tag opened at byte " = "` tag " ++ "opened at byte " := by decide
    refine ⟨"unclosed `" ++ block.keyword ++ "` tag ", ", expected `end" ++ block.keyword ++ "`", ?_⟩
    change "unclosed `" ++ block.keyword ++ "` tag opened at byte " ++ _ ++ _ ++ _ ++ _ = _
    rw [split]
    simp only [String.append_assoc]
  | noOpenBlock | afterElse | secondElse => cases opened

namespace Assembly

/-- The error names the innermost frame. -/
def Blames (a : Assembly) (fault : TagFault) (opener : Option String) : Prop :=
  opener = a.frames.head?.map Frame.opener ∧
    ∀ position, fault.openedAt? = some position → a.frames.head?.map Frame.position = some position

theorem blames_of_head {frame : Frame} {outer : List Frame} (frames : a.frames = frame :: outer)
    (opened : ∀ position, fault.openedAt? = some position → frame.position = position) :
    a.Blames fault (some frame.opener) :=
  ⟨by simp [frames], fun position here => by simp [frames, opened position here]⟩

theorem blames_unexpected {word : String} (raised : a.unexpected word = .tagMismatch fault opener) :
    a.Blames fault opener := by
  unfold unexpected at raised
  split at raised <;> cases raised
  · next none => exact ⟨by simp [none], nofun⟩
  · next frames => exact blames_of_head frames fun _ => Option.some.inj

theorem blames_tag {tag : LogicTag} (raised : a.tag s tag = .error (.tagMismatch fault opener)) :
    a.Blames fault opener := by
  cases tag with
  | set | openCapture | openLoop | openBranch => cases raised
  | elseIf word condition =>
    simp only [Assembly.tag, elseIf] at raised
    split at raised
    · next frame outer frames =>
      split at raised
      · cases raised
      · cases raised
        exact blames_of_head frames fun _ none => by cases none
      · exact blames_unexpected (Except.error.inj raised)
    · exact blames_unexpected (Except.error.inj raised)
  | otherwise =>
    simp only [Assembly.tag, otherwise] at raised
    split at raised
    · next frame outer frames =>
      split at raised
      · cases raised
      · cases raised
      · exact blames_unexpected (Except.error.inj raised)
      · cases raised
        exact blames_of_head frames fun _ none => by cases none
    · exact blames_unexpected (Except.error.inj raised)
  | close kind =>
    simp only [Assembly.tag, close] at raised
    split at raised
    · split at raised
      · cases raised
      · exact blames_unexpected (Except.error.inj raised)
    · exact blames_unexpected (Except.error.inj raised)

theorem blames_finish (raised : a.finish = .error (.tagMismatch fault opener)) :
    a.Blames fault opener := by
  unfold finish at raised
  split at raised <;> cases raised
  next frames => exact blames_of_head frames fun _ => Option.some.inj

/-- Whatever comes next, the innermost frame is blamed, and only for a logic tag. -/
theorem blames_of_raises {next : Option Segment}
    (raised : a.Raises limit next (.tagMismatch fault opener)) :
    (∀ s ∈ next, s.kind = .tag .logic) ∧ a.Blames fault opener := by
  cases next with
  | none => exact ⟨by simp, blames_finish raised⟩
  | some s =>
    obtain ⟨tag, read, raised⟩ := reads_of_mismatch raised
    refine ⟨?_, blames_tag raised⟩
    rintro _ ⟨⟩
    cases read
    rfl

end Assembly

/-- Where a tag does not fit the open blocks, or a block has no end, the right block is blamed: none if
every opening tag before that point has been closed by an end tag of its own, and otherwise the last
opening tag that has not been. The error names the inside of that tag, and if its message says where the
block was opened, that is the byte where this inside stands in the template. -/
theorem Node.mismatch_names_innermost_unclosed {source : String} {config : Config}
    (failed : Node.ofSource source config = .error (.tagMismatch fault opener)) :
    ∃ before rest ps, FailsBehind source config before rest (.tagMismatch fault opener) ∧
      (∀ s ∈ rest.head?, s.kind = .tag .logic) ∧
      List.Forall₂ (Segment.Reads config.maxDepth) before ps ∧
      (Balanced (before.zip ps) ∨ ∃ s, EndsInside (before.zip ps) s) ∧
      (Balanced (before.zip ps) → opener = none ∧ fault.openedAt? = none) ∧
      ∀ s, EndsInside (before.zip ps) s →
        opener = some (String.ofList (Text.trim s.source.toList)) ∧
        (∃ front behind, source = front ++ s.write ++ behind ∧
          s.position = (front ++ s.kind.opening).utf8ByteSize) ∧
        ∀ position, fault.openedAt? = some position → position = s.position ∧
          ∃ front behind, fault.message =
            front ++ "opened at byte " ++ Nat.repr s.position ++ behind := by
  obtain ⟨_, _, other⟩ | ⟨before, rest, cut, a, run, raised⟩ := exists_failsBehind failed
  · cases other
  obtain ⟨ps, reads⟩ := Assembly.exists_reads_run run
  have start : Unclosed (Assembly.empty.frames.map Frame.opening) [] := .root .nil
  have unclosed : Unclosed (a.frames.map Frame.opening) (before.zip ps) :=
    Assembly.unclosed_run start reads run
  have stack : a.frames.map Frame.opening = openings (before.zip ps) := Assembly.opening_run reads run
  obtain ⟨logic, named, placed⟩ := Assembly.blames_of_raises raised
  refine ⟨before, rest, ps, ⟨cut, a, run, raised⟩, logic, reads, unclosed.balanced_or_inside, ?_, ?_⟩
  · intro balanced
    have none : a.frames = [] := by
      rw [openings, balanced.foldl_pass, List.map_eq_nil_iff] at stack
      exact stack
    rw [none] at named placed
    exact ⟨named, Option.eq_none_iff_forall_ne_some.2 fun position opened => by cases placed _ opened⟩
  · intro s inside
    obtain ⟨member, tagged⟩ := inside.mem_of_reads reads
    obtain ⟨kind, blocks, opened⟩ := inside.exists_openings
    obtain ⟨frame, outer, frames, top, -⟩ := List.map_eq_cons_iff.1 (stack.trans opened)
    rw [frames] at named placed
    refine ⟨?_, ?_, fun position opened => ?_⟩
    · exact named.trans (congrArg (some ∘ Opening.opener) top)
    · exact Segment.exists_append_of_mem_split cut (List.mem_append_left _ member) (by simp [tagged])
    · obtain rfl : s.position = position :=
        (congrArg Opening.position top).symm.trans (Option.some.inj (placed position opened))
      exact ⟨rfl, fault.exists_message opened⟩

/-- The inner branch has been closed, so the tag is blamed on the outer one. -/
theorem Node.mismatch_names_outer_branch :
    ∃ before rest ps s, FailsBehind "\x7b%if a%\x7d\x7b%if b%\x7d\x7b%endif%\x7d\x7b%endfor%\x7d" {}
        before rest (.tagMismatch (.inside "endfor" .branch 2) (some "if a")) ∧
      EndsInside (before.zip ps) s ∧ String.ofList (Text.trim s.source.toList) = "if a" ∧
      s.position = 2 := by
  have failed : Node.ofSource "\x7b%if a%\x7d\x7b%if b%\x7d\x7b%endif%\x7d\x7b%endfor%\x7d" {} =
      .error (.tagMismatch (.inside "endfor" .branch 2) (some "if a")) := by cbv
  obtain ⟨before, rest, ps, fails, -, -, balanced | ⟨s, inside⟩, outside, named⟩ :=
    mismatch_names_innermost_unclosed failed
  · cases (outside balanced).1
  · obtain ⟨opener, -, position⟩ := named s inside
    exact ⟨before, rest, ps, s, fails, inside, (Option.some.inj opener).symm, (position 2 rfl).1.symm⟩

end Stencil
