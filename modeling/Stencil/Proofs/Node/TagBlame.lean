import Stencil.Proofs.Node.Failure
import Stencil.Proofs.Node.Soundness
import Stencil.Proofs.Segment.Trim
import Stencil.Proofs.Token.Slice

/-! What an error of reading a logic tag tells: the position and the text of one token, but for a tag
that nobody knows. -/
namespace Stencil

variable {limit stop position : Nat} {tokens : List Placed} {found : Option Token} {a : Assembly}
  {fault : ParseFault} {word : String}

namespace Error

/-- `found` and `position` tell of the same token, or of the end of its tag at byte `stop`. -/
def Describes (tokens : List Placed) (stop : Nat) (found : Option Token) (position : Nat) : Prop :=
  (foundText found = "end of tag" ∧ position = stop) ∨
    ∃ placed ∈ tokens, position = placed.position ∧ foundText found = placed.token.display

/-- The name of a tag is not known, and the position is that of the white space in front of it. -/
def BlamesSpace (tokens : List Placed) (start : Nat) (fault : ParseFault) (found : Option Token)
    (position : Nat) : Prop :=
  fault = .unknownTag ∧ position = start ∧ ∃ word place rest,
    tokens = ⟨.name word, place⟩ :: rest ∧ found = some (.name word) ∧ start < place

theorem describes_of_pointsAt (points : (parse fault found position).PointsAt tokens stop) :
    Describes tokens stop found position := by
  obtain ⟨_, i, same⟩ := points
  obtain ⟨-, rfl, rfl⟩ := parse.inj same
  cases token : tokens[i]? with
  | none => exact .inl ⟨rfl, rfl⟩
  | some placed => exact .inr ⟨placed, List.mem_of_getElem? token, rfl, rfl⟩

theorem foundText_name_ne : foundText (some (.name word)) ≠ "end of tag" := by
  intro same
  have first := congrArg (List.head? ∘ String.toList) same
  simp [foundText, Token.display] at first

/-- White space is no token, so nothing is described there. -/
theorem BlamesSpace.not_describes {source : String} {offset : Nat}
    (read : tokenize source offset = .ok tokens)
    (blames : BlamesSpace tokens offset fault found position) :
    ¬ Describes tokens stop found position := by
  -- The name is the first token, so all of them stand behind the white space.
  obtain ⟨-, rfl, word, place, rest, rfl, rfl, later⟩ := blames
  obtain ⟨_, _, -, -, sliced, -⟩ := exists_slices read
  obtain ⟨behind, -⟩ := List.pairwise_cons.1 sliced.increasing
  rintro (⟨ended, -⟩ | ⟨placed, member, here, -⟩)
  · exact foundText_name_ne ended
  · rcases List.mem_cons.1 member with rfl | member
    · exact Nat.ne_of_lt later here
    · exact Nat.ne_of_lt (Nat.lt_trans later (behind placed member)) here

end Error

open Error

/-- An error of reading a tag describes a token, unless it blames white space in front of an unknown
name. -/
theorem LogicTag.describes_iff {source : String} {offset : Nat}
    (failed : LogicTag.ofSource source offset limit = .error (.parse fault found position)) :
    ∃ tokens, tokenize source offset = .ok tokens ∧
      (Describes tokens (offset + source.utf8ByteSize) found position ↔
        ¬ BlamesSpace tokens offset fault found position) := by
  obtain unread | ⟨tokens, read, blamed⟩ := error_cases failed
  · obtain ⟨_, _, other, -⟩ := tokenize_error unread
    cases other
  refine ⟨tokens, read, fun describes blames => blames.not_describes read describes, fun known => ?_⟩
  obtain points | ⟨word, place, rest, rfl, unknown⟩ := blamed
  · exact describes_of_pointsAt points
  obtain ⟨rfl, rfl, rfl⟩ := parse.inj unknown
  obtain ⟨_, _, -, -, sliced, -⟩ := exists_slices read
  have le : position ≤ place := Nat.le_trans (Nat.le_add_right _ _) (sliced.le List.mem_cons_self)
  obtain rfl | later := Nat.eq_or_lt_of_le le
  · exact .inr ⟨_, List.mem_cons_self, rfl, rfl⟩
  · exact absurd ⟨rfl, rfl, word, place, rest, rfl, rfl, later⟩ known

/-- Only reading raises such errors. -/
theorem Assembly.unread_of_raises {next : Option Segment}
    (raised : a.Raises limit next (.parse fault found position)) :
    ∃ s, next = some s ∧ (s.kind = .tag .logic →
      LogicTag.ofSource s.source s.position limit = .error (.parse fault found position)) := by
  cases next with
  | none =>
    change a.finish = _ at raised
    unfold finish at raised
    split at raised <;> cases raised
  | some s =>
    refine ⟨s, rfl, fun logic => ?_⟩
    obtain ⟨kind, source, start⟩ := s
    obtain rfl : kind = .tag .logic := logic
    obtain unread | ⟨tag, -, raised⟩ := bind_eq_error_iff.1 raised
    · exact unread
    · obtain ⟨b, placed⟩ | ⟨_, _, mismatch⟩ := place_cases a ⟨.tag .logic, source, start⟩ (.tag tag)
      · cases raised.symm.trans placed
      · cases raised.symm.trans mismatch

/-- Where a template cannot be parsed for one of its logic tags, the position and what was found there
are those of one token of the tag, or of its end, with one exception: an unknown name with white space in
front of it is found, but the position is where the inside of the tag begins. -/
theorem Node.parse_error_describes_iff {source : String} {config : Config}
    (failed : Node.ofSource source config = .error (.parse fault found position)) :
    ∃ before s after, FailsBehind source config before (s :: after) (.parse fault found position) ∧
      (s.kind = .tag .logic →
        (∃ front behind, source = front ++ s.write ++ behind ∧
          s.position = (front ++ s.kind.opening).utf8ByteSize) ∧
        ∃ tokens, tokenize s.source s.position = .ok tokens ∧
          (Describes tokens (s.position + s.source.utf8ByteSize) found position ↔
            ¬ BlamesSpace tokens s.position fault found position)) := by
  obtain ⟨_, _, other⟩ | ⟨before, rest, cut, a, run, raised⟩ := exists_failsBehind failed
  · cases other
  obtain ⟨s, next, unread⟩ := Assembly.unread_of_raises raised
  obtain ⟨after, rfl⟩ := List.head?_eq_some_iff.1 next
  refine ⟨before, s, after, ⟨cut, a, run, raised⟩, fun logic => ⟨?_, ?_⟩⟩
  · exact Segment.exists_append_of_mem_split cut (by simp) (by simp [logic])
  · exact LogicTag.describes_iff (unread logic)

/-- The sign behind `set` is found where it stands. -/
theorem Node.parse_error_describes_of_sign :
    Node.ofSource "\x7b%set =%\x7d" {} =
        .error (.parse (.expectedName .assigned) (some (.symbol .assign)) 6) ∧
      ∃ tokens, tokenize "set =" 2 = .ok tokens ∧ Describes tokens 7 (some (.symbol .assign)) 6 := by
  have failed : Node.ofSource "\x7b%set =%\x7d" {} =
      .error (.parse (.expectedName .assigned) (some (.symbol .assign)) 6) := by cbv
  have cut : Segment.split "\x7b%set =%\x7d" false = .ok [⟨.tag .logic, "set =", 2⟩] := by cbv
  obtain ⟨before, s, after, ⟨cut', -⟩, describes⟩ := parse_error_describes_iff failed
  obtain ⟨rfl, rfl, rfl⟩ : before = [] ∧ s = ⟨.tag .logic, "set =", 2⟩ ∧ after = [] := by
    have whole := Except.ok.inj (cut'.symm.trans cut)
    simpa [List.append_eq_singleton_iff] using whole
  obtain ⟨-, tokens, read, iff⟩ := describes rfl
  exact ⟨failed, tokens, read, iff.2 fun blames => by cases blames.1⟩

/-- The unknown name begins at byte 3, and the error says 2. -/
theorem Node.parse_error_of_unknown_tag :
    Node.ofSource "\x7b% bogus %\x7d" {} = .error (.parse .unknownTag (some (.name "bogus")) 2) ∧
      Segment.split "\x7b% bogus %\x7d" false = .ok [⟨.tag .logic, " bogus ", 2⟩] ∧
      tokenize " bogus " 2 = .ok [⟨.name "bogus", 3⟩] ∧
      ¬ Describes [⟨.name "bogus", 3⟩] 9 (some (.name "bogus")) 2 := by
  have read : tokenize " bogus " 2 = .ok [⟨.name "bogus", 3⟩] := by cbv
  have blames : BlamesSpace [⟨.name "bogus", 3⟩] 2 .unknownTag (some (.name "bogus")) 2 :=
    ⟨rfl, rfl, "bogus", 3, [], rfl, rfl, by decide⟩
  exact ⟨by cbv, by cbv, read, blames.not_describes read⟩

end Stencil
