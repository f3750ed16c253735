import Stencil.Proofs.Node.Failure
import Stencil.Proofs.Node.Soundness
import Stencil.Proofs.Segment.Trim
import Stencil.Proofs.Token.Slice

/-! Where an error of compiling stands: between two characters of the template, and if the inside of a
segment is at fault, between two characters of that. -/
namespace Stencil

variable {source : String} {cs : List Char} {start offset limit position : Nat} {e : Error}

open Text

namespace Error

/-- The byte that an error of compiling points at. A tag that does not fit its blocks has none. -/
def position? : Error → Option Nat
  | .lex _ position | .parse _ _ position => some position
  | _ => none

/-- An error of compiling that points between characters of `cs`, if it points anywhere. -/
structure StandsIn (cs : List Char) (start : Nat) (e : Error) : Prop where
  compiles : e.isCompileError
  between : ∀ p ∈ e.position?, Between cs start p

theorem standsIn_lex {fault : LexFault} (between : Between cs start position) :
    (lex fault position).StandsIn cs start := by
  refine ⟨rfl, ?_⟩
  rintro _ ⟨⟩
  exact between

theorem standsIn_parse {fault : ParseFault} {found : Option Token}
    (between : Between cs start position) : (parse fault found position).StandsIn cs start := by
  refine ⟨rfl, ?_⟩
  rintro _ ⟨⟩
  exact between

theorem standsIn_tagMismatch (fault : TagFault) (opener : Option String) :
    (tagMismatch fault opener).StandsIn cs start :=
  ⟨rfl, nofun⟩

end Error

open Error

theorem tokenize_standsIn (failed : tokenize source offset = .error e) :
    e.StandsIn source.toList offset := by
  obtain ⟨fault, position, rfl, between⟩ := tokenize_error failed
  exact standsIn_lex between

/-- Tokens stand between the characters of their source, and so does the end of it. -/
theorem standsIn_of_pointsAt {tokens : List Placed} (read : tokenize source offset = .ok tokens)
    (points : e.PointsAt tokens (offset + source.utf8ByteSize)) : e.StandsIn source.toList offset := by
  obtain ⟨blank, cs, whole, -, sliced, stop⟩ := exists_slices read
  obtain ⟨fault, i, rfl⟩ := points
  refine standsIn_parse ?_
  rw [whole]
  refine Between.behind blank ?_
  cases token : tokens[i]? with
  | none =>
    rw [Option.elim_none, stop]
    exact .last cs _
  | some placed =>
    obtain ⟨before, slice, after, rfl, -, place, -⟩ := sliced.exists_slice token
    exact ⟨before, slice ++ after, List.append_assoc _ _ _, place⟩

theorem Expr.ofSource_standsIn (failed : Expr.ofSource source offset limit = .error e) :
    e.StandsIn source.toList offset := by
  obtain unread | ⟨tokens, read, points⟩ := Expr.error_cases failed
  · exact tokenize_standsIn unread
  · exact standsIn_of_pointsAt read points

theorem LogicTag.ofSource_standsIn (failed : LogicTag.ofSource source offset limit = .error e) :
    e.StandsIn source.toList offset := by
  obtain unread | ⟨tokens, read, points | ⟨word, _, _, -, rfl⟩⟩ := LogicTag.error_cases failed
  · exact tokenize_standsIn unread
  · exact standsIn_of_pointsAt read points
  · exact standsIn_parse (.first _ _)

namespace Assembly

variable {a : Assembly} {s : Segment}

theorem tag_error {tag : LogicTag} (failed : a.tag s tag = .error e) :
    ∃ fault opener, e = .tagMismatch fault opener := by
  obtain ⟨b, placed⟩ | ⟨fault, opener, mismatch⟩ := place_cases a s (.tag tag)
  · cases failed.symm.trans placed
  · exact ⟨fault, opener, Except.error.inj (failed.symm.trans mismatch)⟩

/-- A text is never at fault. -/
theorem add_error (failed : a.add limit s = .error e) :
    s.kind ≠ .text ∧ e.StandsIn s.source.toList s.position := by
  obtain ⟨kind, source, position⟩ := s
  cases kind with
  | text => cases failed
  | tag tag =>
    refine ⟨nofun, ?_⟩
    cases tag with
    | comment => cases failed
    | output => exact Expr.ofSource_standsIn (map_eq_error_iff.1 failed)
    | logic =>
      obtain unread | ⟨tag, -, misplaced⟩ := bind_eq_error_iff.1 failed
      · exact LogicTag.ofSource_standsIn unread
      · obtain ⟨fault, opener, rfl⟩ := tag_error misplaced
        exact standsIn_tagMismatch fault opener

theorem finish_error (failed : a.finish = .error e) : ∃ fault opener, e = .tagMismatch fault opener := by
  unfold finish at failed
  split at failed
  · cases failed
  · exact ⟨_, _, (Except.error.inj failed).symm⟩

end Assembly

variable {s : Segment} {config : Config}

/-- A place in the source of a tag is a place in the template. -/
theorem Segment.between_of_mem_split {segments : List Segment} {trimBlocks : Bool}
    (cut : Segment.split source trimBlocks = .ok segments) (member : s ∈ segments)
    (no_text : s.kind ≠ .text) (between : Between s.source.toList s.position position) :
    Between source.toList 0 position := by
  obtain ⟨front, behind, rfl, place⟩ := exists_append_of_mem_split cut member no_text
  have start : s.position = 0 + byteLength (front ++ s.kind.opening).toList := by
    rw [place, Nat.zero_add, byteLength_toList]
  rw [start] at between
  have inside := between.append (front ++ s.kind.opening).toList (s.kind.closing ++ behind).toList
  simpa [Segment.write] using inside

/-- An error of compiling points between characters of the template. If the template can be cut, they
are characters of the segment that is at fault. -/
theorem Node.ofSource_standsIn (failed : Node.ofSource source config = .error e) :
    e.StandsIn source.toList 0 ∧
      ∀ segments, Segment.split source config.trimBlocks = .ok segments → ∀ p ∈ e.position?,
        ∃ before s after, segments = before ++ s :: after ∧
          FailsBehind source config before (s :: after) e ∧ Between s.source.toList s.position p := by
  cases cut : Segment.split source config.trimBlocks with
  | error uncuttable =>
    have same : uncuttable = e := by
      rw [Node.ofSource, cut] at failed
      exact Except.error.inj failed
    obtain ⟨fault, p, rfl, between⟩ := Segment.splitChars_error cut
    refine ⟨same ▸ standsIn_lex between, fun segments cut => ?_⟩
    cases cut
  | ok segments =>
    obtain ⟨before, rest, rfl, fails⟩ := exists_failsBehind_of_cut cut failed
    obtain ⟨_, a, -, raised⟩ := id fails
    cases rest with
    | nil =>
      obtain ⟨fault, opener, rfl⟩ := Assembly.finish_error raised
      refine ⟨standsIn_tagMismatch fault opener, fun segments cut p points => ?_⟩
      cases points
    | cons s after =>
      obtain ⟨no_text, stands⟩ := Assembly.add_error raised
      have inside {p : Nat} (between : Between s.source.toList s.position p) :
          Between source.toList 0 p :=
        Segment.between_of_mem_split cut (by simp) no_text between
      refine ⟨⟨stands.compiles, fun p points => inside (stands.between p points)⟩, ?_⟩
      rintro _ ⟨⟩ p points
      exact ⟨before, s, after, rfl, fails, stands.between p points⟩

end Stencil
