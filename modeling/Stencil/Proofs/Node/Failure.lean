import Stencil.Proofs.Expr.Viable
import Stencil.Proofs.Node.Grammar
import Stencil.Proofs.Node.Tag
import Stencil.Proofs.Text.Utf8
import Stencil.Proofs.Token.Reading

/-! Where a template fails: the segment at which its assembly stops, and the token of a tag that an
error of reading the tag points at. -/
namespace Stencil

open Stencil.Action Cursor Parse

namespace Parse

variable {α β : Type} {x : Parse α} {others : Error → Prop}

/-- Where `x` fails, its error points at the token behind those that it has passed, or it is one of
`others`. -/
structure PointsAhead (others : Error → Prop) (x : Parse α) : Prop where
  passes : ∀ ⦃c a d⦄, x.Gives c a d → ∃ ts, Passes c ts d
  points : ∀ ⦃c e⦄, x.Fails c e → (∃ ts d fault, Passes c ts d ∧ e = d.error fault) ∨ others e

theorem PointsAhead.bind {f : α → Parse β} (first : PointsAhead others x)
    (next : ∀ a, PointsAhead others (f a)) : PointsAhead others (x >>= f) where
  passes := by
    intro c b d given
    obtain ⟨a, m, given, rest⟩ := gives_bind_iff.1 given
    obtain ⟨ts, before⟩ := first.passes given
    obtain ⟨us, after⟩ := (next a).passes rest
    exact ⟨ts ++ us, before.append after⟩
  points := by
    intro c e failed
    rcases fails_bind_iff.1 failed with failed | ⟨a, m, given, failed⟩
    · exact first.points failed
    · obtain ⟨ts, before⟩ := first.passes given
      refine ((next a).points failed).imp_left ?_
      rintro ⟨us, d, fault, after, rfl⟩
      exact ⟨ts ++ us, d, fault, before.append after, rfl⟩

theorem pointsAhead_pure (a : α) : PointsAhead others (pure a : Parse α) where
  passes := by
    intro c b d given
    obtain ⟨-, rfl⟩ := gives_pure_iff.1 given
    exact ⟨[], .nil⟩
  points := fun _ _ failed => absurd failed fails_pure_iff.1

theorem pointsAhead_fail (fault : ParseFault) : PointsAhead others (fail fault : Parse α) where
  passes := fun _ _ _ given => absurd given gives_fail_iff.1
  points := fun c _ failed => .inl ⟨[], c, fault, .nil, (Except.error.inj failed).symm⟩

theorem pointsAhead_throw {e : Error} (other : others e) : PointsAhead others (throw e : Parse α) where
  passes := fun _ _ _ given => absurd given gives_throw_iff.1
  points := fun _ _ failed => .inr (Except.error.inj failed ▸ other)

theorem pointsAhead_peek : PointsAhead others peek where
  passes := by
    intro c next d given
    obtain ⟨-, rfl⟩ := gives_peek_iff.1 given
    exact ⟨[], .nil⟩
  points := by
    intro c e failed
    cases failed

theorem pointsAhead_isAtEnd : PointsAhead others isAtEnd where
  passes := by
    intro c ended d given
    obtain ⟨-, rfl⟩ := gives_isAtEnd_iff.1 given
    exact ⟨[], .nil⟩
  points := by
    intro c e failed
    cases failed

theorem pointsAhead_advance : PointsAhead others advance where
  passes := by
    intro c u d given
    obtain rfl := gives_advance_iff.1 given
    obtain ⟨_ | ⟨placed, rest⟩, stop, limit⟩ := c
    · exact ⟨[], .nil⟩
    · exact ⟨[placed.token], .cons rfl .nil⟩
  points := by
    intro c e failed
    cases failed

theorem pointsAhead_expression : PointsAhead others expression where
  passes := by
    intro c e d given
    obtain ⟨ts, passes, -⟩ := ((follows_nested (Nat.le_refl c.limit)).1.tracks c).repeats given
    exact ⟨ts, passes⟩
  points := by
    intro c e failed
    obtain ⟨ts, d, fault, passes, error, -⟩ :=
      ((follows_nested (Nat.le_refl c.limit)).1.tracks c).blames failed
    exact .inl ⟨ts, d, fault, passes, error⟩

theorem compatible_pointsAhead (others : Error → Prop) :
    Compatible fun x _ => PointsAhead others x where
  bind := .bind
  pure := pointsAhead_pure
  fail := pointsAhead_fail
  peek := pointsAhead_peek
  advance := pointsAhead_advance
  isAtEnd := pointsAhead_isAtEnd
  expression := pointsAhead_expression

end Parse

variable {source : String} {offset limit : Nat} {e : Error}

theorem tokenize_error (failed : tokenize source offset = .error e) :
    ∃ fault position, e = .lex fault position ∧ Text.Between source.toList offset position := by
  change (Lexer.ofSource source offset).tokens = .error e at failed
  obtain ⟨_, _, -, -, all⟩ | ⟨c, cs, position, fault, stops⟩ :=
    Lexer.exists_end_or_stop (.ofSource source offset)
  · rw [all] at failed
    cases failed
  · rw [stops.tokens] at failed
    obtain ⟨ts, afterDot, reads, -⟩ := stops
    obtain ⟨passed, whole, place⟩ := reads.exists_append
    exact ⟨fault, position, (Except.error.inj failed).symm, passed, c :: cs, whole, place⟩

/-- The error points at a token, or at the end of the source if it is none of them. -/
def Error.PointsAt (e : Error) (tokens : List Placed) (stop : Nat) : Prop :=
  ∃ fault, ∃ i : Nat,
    e = .parse fault (tokens[i]?.map Placed.token) (tokens[i]?.elim stop Placed.position)

theorem Error.pointsAt_of_passes {c d : Cursor} {ts : List Token} (passes : Passes c ts d)
    (fault : ParseFault) : (d.error fault).PointsAt c.rest c.stop :=
  ⟨fault, ts.length, passes.error_eq fault⟩

theorem Expr.error_cases (failed : Expr.ofSource source offset limit = .error e) :
    tokenize source offset = .error e ∨ ∃ tokens,
      tokenize source offset = .ok tokens ∧ e.PointsAt tokens (offset + source.utf8ByteSize) := by
  obtain unread | ⟨c, read, failed⟩ := bind_eq_error_iff.1 failed
  · exact .inl (map_eq_error_iff.1 unread)
  obtain ⟨tokens, tokenized, rfl⟩ := map_eq_ok_iff.1 read
  have fails : (expression >>= fun e => expectEnd >>= fun _ => pure e).Fails
      (.ofTokens tokens (offset + source.utf8ByteSize) limit) e := failed
  have points : PointsAhead (fun _ => False) (expression >>= fun e => expectEnd >>= fun _ => pure e) :=
    pointsAhead_expression.bind fun e =>
      (compatible_pointsAhead _).expectEnd.bind fun _ => pointsAhead_pure e
  obtain ⟨ts, d, fault, passes, rfl⟩ := (points.points fails).resolve_right id
  exact .inr ⟨tokens, tokenized, Error.pointsAt_of_passes passes fault⟩

/-- The error of a tag points at a token of it, but an unknown name is blamed on the start of the
tag. -/
theorem LogicTag.error_cases (failed : LogicTag.ofSource source offset limit = .error e) :
    tokenize source offset = .error e ∨ ∃ tokens,
      tokenize source offset = .ok tokens ∧
      (e.PointsAt tokens (offset + source.utf8ByteSize) ∨
        ∃ word position rest, tokens = ⟨.name word, position⟩ :: rest ∧
          e = .parse .unknownTag (some (.name word)) offset) := by
  obtain unread | ⟨c, read, failed⟩ := bind_eq_error_iff.1 failed
  · exact .inl (map_eq_error_iff.1 unread)
  obtain ⟨tokens, tokenized, rfl⟩ := map_eq_ok_iff.1 read
  refine .inr ⟨tokens, tokenized, ?_⟩
  -- The name is read apart from what follows it: only then is it known which name is blamed.
  rcases fails_bind_iff.1 failed with fails | ⟨word, m, given, fails⟩
  · have points := ((compatible_pointsAhead fun _ => False).expectName .tag).points fails
    obtain ⟨ts, d, fault, passes, rfl⟩ := points.resolve_right id
    exact .inl (Error.pointsAt_of_passes passes fault)
  · obtain ⟨first, rfl⟩ := gives_expectName_iff.1 given
    have points : PointsAhead (· = .parse .unknownTag (some (.name word)) offset)
        (LogicTag.body offset word) :=
      (compatible_pointsAhead _).body offset offset word (pointsAhead_throw rfl)
    obtain ⟨ts, d, fault, passes, rfl⟩ | rfl := points.points fails
    · exact .inl (Error.pointsAt_of_passes (.cons first passes) fault)
    · obtain ⟨⟨token, position⟩, rest, whole, rfl⟩ := exists_of_next first
      exact .inr ⟨word, position, rest, whole, rfl⟩

namespace Segment

variable {tag : Tag} {openAt braces position : Nat} {quote quote' : Option (Quote × Nat)}
  {cs : List Char} {trimBlocks : Bool}

/-- The error of a scan that does not find the end of a tag: the tag is blamed where it was opened, and
a string literal where it began. -/
def Blames (openAt : Nat) (quote : Option (Quote × Nat)) (cs : List Char) (position : Nat) (e : Error) :
    Prop :=
  ∃ fault p, e = .lex fault p ∧
    (p = openAt ∨ (∃ q, quote = some (q, p)) ∨ Text.Between cs position p)

theorem Blames.pass (passed : List Char)
    (blames : Blames openAt quote' cs (position + Text.byteLength passed) e)
    (begun : ∀ q start, quote' = some (q, start) → quote = some (q, start) ∨ start = position) :
    Blames openAt quote (passed ++ cs) position e := by
  obtain ⟨fault, p, rfl, opening | ⟨q, inside⟩ | between⟩ := blames
  · exact ⟨fault, p, rfl, .inl opening⟩
  · obtain before | rfl := begun q p inside
    · exact ⟨fault, p, rfl, .inr (.inl ⟨q, before⟩)⟩
    · exact ⟨fault, p, rfl, .inr (.inr (.first _ _))⟩
  · exact ⟨fault, p, rfl, .inr (.inr (between.behind passed))⟩

theorem findClose_error (failed : findClose tag openAt quote braces position cs = .error e) :
    Blames openAt quote cs position e := by
  -- Cases 2 to 4 are inside a string literal; cases 5 to 8, outside, are a brace that opens, one that
  -- closes, the end of the tag and any other character.
  fun_induction findClose tag openAt quote braces position cs with
  | case1 quote =>
    obtain rfl := Except.error.inj failed
    cases quote with
    | some begun => exact ⟨_, _, rfl, .inr (.inl ⟨_, rfl⟩)⟩
    | none => exact ⟨_, _, rfl, .inl rfl⟩
  | case2 => exact ⟨_, _, (Except.error.inj failed).symm, .inr (.inl ⟨_, rfl⟩)⟩
  | case3 _ _ _ _ d _ next ih =>
    have blames := ih (map_eq_error_iff.1 failed)
    rw [Nat.add_assoc] at blames
    exact blames.pass ['\\', d] fun _ _ => .inl
  | case4 _ _ c _ _ q start _ ih =>
    refine (ih (map_eq_error_iff.1 failed)).pass [c] fun _ _ inside => ?_
    split at inside
    · cases inside
    · exact .inl inside
  | case5 _ _ c _ _ _ ih =>
    exact (ih (map_eq_error_iff.1 failed)).pass [c] fun _ _ => .inl
  | case6 _ _ c _ _ _ _ ih =>
    exact (ih (map_eq_error_iff.1 failed)).pass [c] fun _ _ => .inl
  | case7 => cases failed
  | case8 _ _ c _ _ _ _ _ opened ih =>
    refine (ih (map_eq_error_iff.1 failed)).pass [c] fun _ _ inside => .inr ?_
    simp only [opened] at inside
    split at inside
    · cases inside
    · obtain ⟨q, -, begun⟩ := Option.map_eq_some_iff.1 inside
      exact (congrArg Prod.snd begun).symm

/-- A template that cannot be cut has a tag or a string literal without an end. -/
theorem splitChars_error (failed : splitChars trimBlocks position cs = .error e) :
    ∃ fault p, e = .lex fault p ∧ Text.Between cs position p := by
  fun_induction splitChars trimBlocks position cs with
  | case1 => cases failed
  | case2 position cs before tag inner opens openAt e closes =>
    cases failed
    rw [eq_append_of_findOpen opens]
    obtain ⟨fault, p, rfl, rfl | ⟨_, outside⟩ | between⟩ := findClose_error closes
    · exact ⟨fault, openAt, rfl, before, _, rfl, rfl⟩
    · cases outside
    · have opening : Text.byteLength ['{', tag.openMark] = 2 := by cases tag <;> rfl
      rw [← opening] at between
      exact ⟨fault, p, rfl, (between.behind ['{', tag.openMark]).behind before⟩
  | case3 position cs before tag inner opens openAt inside after closes closed rest ih =>
    obtain ⟨fault, p, rfl, between⟩ := ih (map_eq_error_iff.1 failed)
    let passed := before ++ '{' :: tag.openMark :: inside ++ tag.closeMark :: '}' :: rest.1
    have whole : cs = passed ++ rest.2 := by
      rw [eq_append_of_findOpen opens, eq_append_of_findClose closes,
        ← dropped_append trimBlocks tag after]
      simp [passed, rest]
    have size : closed + Text.byteLength rest.1 = position + Text.byteLength passed := by
      have opening : Text.byteLength ['{', tag.openMark] = 2 := by cases tag <;> rfl
      have closing : Text.byteLength [tag.closeMark, '}'] = 2 := by cases tag <;> rfl
      simp only [Text.byteLength_cons, Text.byteLength_nil] at opening closing
      simp only [passed, closed, openAt, Text.byteLength_append, Text.byteLength_cons]
      omega
    rw [size] at between
    exact ⟨fault, p, rfl, whole ▸ between.behind passed⟩

end Segment

namespace Assembly

variable {a : Assembly} {s : Segment} {segments : List Segment} {fault : TagFault}
  {opener : Option String}

/-- What is raised where a segment comes next, or the end of the template. -/
def Raises (limit : Nat) (a : Assembly) : Option Segment → Error → Prop
  | some s, e => a.add limit s = .error e
  | none, e => a.finish = .error e

theorem exists_raises_of_run (failed : segments.foldlM (add limit) a = .error e) :
    ∃ before s after b, segments = before ++ s :: after ∧ before.foldlM (add limit) a = .ok b ∧
      b.Raises limit (some s) e := by
  induction segments generalizing a with
  | nil => cases failed
  | cons s segments ih =>
    rw [List.foldlM_cons] at failed
    obtain raised | ⟨m, added, failed⟩ := bind_eq_error_iff.1 failed
    · exact ⟨[], s, segments, a, rfl, rfl, raised⟩
    · obtain ⟨before, s', after, b, rfl, run, raised⟩ := ih failed
      refine ⟨s :: before, s', after, b, rfl, ?_, raised⟩
      rw [List.foldlM_cons, added]
      exact run

/-- Only a logic tag that can be read is blamed for the blocks around it. -/
theorem reads_of_mismatch (raised : a.add limit s = .error (.tagMismatch fault opener)) :
    ∃ tag, s.Reads limit (.tag tag) ∧ a.tag s tag = .error (.tagMismatch fault opener) := by
  obtain ⟨kind, source, position⟩ := s
  cases kind with
  | text => cases raised
  | tag tag =>
    cases tag with
    | comment => cases raised
    | output =>
      obtain unread | ⟨_, -, _, _, other⟩ := Expr.error_cases (map_eq_error_iff.1 raised)
      · obtain ⟨_, _, other, -⟩ := tokenize_error unread
        cases other
      · cases other
    | logic =>
      obtain failed | ⟨tag, read, raised⟩ := bind_eq_error_iff.1 raised
      · obtain unread | ⟨_, -, ⟨_, _, other⟩ | ⟨_, _, _, -, other⟩⟩ := LogicTag.error_cases failed
        · obtain ⟨_, _, other, -⟩ := tokenize_error unread
          cases other
        · cases other
        · cases other
      · exact ⟨tag, .logic read, raised⟩

end Assembly

/-- The segments `before` of the template can be put together, and then the next one raises `e`, or the
end of the template does. -/
def Node.FailsBehind (source : String) (config : Config) (before rest : List Segment) (e : Error) :
    Prop :=
  Segment.split source config.trimBlocks = .ok (before ++ rest) ∧
    ∃ a, before.foldlM (Assembly.add config.maxDepth) .empty = .ok a ∧
      a.Raises config.maxDepth rest.head? e

theorem Node.exists_failsBehind_of_cut {config : Config} {segments : List Segment}
    (cut : Segment.split source config.trimBlocks = .ok segments)
    (failed : Node.ofSource source config = .error e) :
    ∃ before rest, segments = before ++ rest ∧ FailsBehind source config before rest e := by
  rw [Node.ofSource, cut] at failed
  change Node.ofSegments config.maxDepth segments = .error e at failed
  obtain failed | ⟨a, run, unfinished⟩ := bind_eq_error_iff.1 failed
  · obtain ⟨before, s, after, a, rfl, run, raised⟩ := Assembly.exists_raises_of_run failed
    exact ⟨before, s :: after, rfl, cut, a, run, raised⟩
  · exact ⟨segments, [], (List.append_nil _).symm, by rwa [List.append_nil], a, run, unfinished⟩

theorem Node.exists_failsBehind {config : Config} (failed : Node.ofSource source config = .error e) :
    (∃ fault position, e = .lex fault position) ∨
      ∃ before rest, FailsBehind source config before rest e := by
  obtain uncut | ⟨segments, cut, -⟩ := bind_eq_error_iff.1 failed
  · obtain ⟨fault, position, lexical, -⟩ := Segment.splitChars_error uncut
    exact .inl ⟨fault, position, lexical⟩
  · obtain ⟨before, rest, -, fails⟩ := exists_failsBehind_of_cut cut failed
    exact .inr ⟨before, rest, fails⟩

end Stencil
