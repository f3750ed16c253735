import Stencil.Proofs.Expr.Delimited
import Stencil.Proofs.Node.Print
import Stencil.Proofs.Node.Tag
import Stencil.Proofs.Segment.Split
import Stencil.Proofs.Token.Separated

/-! Tags written out with an expression inside: the scan finds their end, and they are read back. -/
namespace Stencil

open Grammar Segment

variable {limit n : Nat} {tag : Tag} {inside s x : String} {part : Part} {e : Expr}
  {afterDot : Bool} {cs ds : List Char} {ts us : List Token}

/-- Between the delimiters of `tag`, `inside` says `part` and nothing in it ends the tag. -/
structure Writes (limit : Nat) (tag : Tag) (inside : String) (part : Part) : Prop where
  closes (after : List Char) :
    Closes tag 0 (inside.toList ++ tag.closeMark :: '\x7d' :: after) inside.toList after
  reads (position : Nat) : Segment.Reads limit ⟨.tag tag, inside, position⟩ part

theorem closes_of_delimited {after : List Char} (spells : Spells false cs ts)
    (delimited : Delimited 0 ts) (no_comment : tag ≠ .comment) :
    Closes tag 0 (cs ++ tag.closeMark :: '\x7d' :: after) cs after := by
  have ends : tag = .logic → (tag.closeMark :: '\x7d' :: after).head? ≠ some '\x7d' := by
    rintro rfl
    simp [Tag.closeMark]
  have closes := closes_of_spells spells delimited no_comment ends (closes_end tag after)
  rwa [List.append_nil] at closes

theorem Grammar.Derives.delimited (derived : Derives .expression ts e n) : Delimited 0 ts := by
  have delimited := derived.encloses 0 [] rfl
  rwa [List.append_nil] at delimited

theorem writes_output (spells : Spells false s.toList ts) (derived : Derives .expression ts e n)
    (bound : n ≤ limit) : Writes limit .output s (.output e) where
  closes _ := closes_of_delimited spells derived.delimited (by simp)
  reads _ := .output (Expr.ofSource_of_spells spells derived bound)

theorem writes_logic {tag : LogicTag} (spells : Spells false inside.toList ts)
    (delimited : Delimited 0 ts)
    (reads : ∀ position, LogicTag.ofSource inside position limit = .ok tag) :
    Writes limit .logic inside (.tag tag) where
  closes _ := closes_of_delimited spells delimited (by simp)
  reads position := .logic (reads position)

theorem writes_condition {word x : String} {f : Expr → LogicTag}
    (reads : ∀ start, LogicTag.body start x = Parse.expression >>= fun e => LogicTag.endOfTag (f e))
    (name : Spells false word.toList [.name x]) (spells : Spells false s.toList ts)
    (derived : Derives .expression ts e n) (bound : n ≤ limit) :
    Writes limit .logic (word ++ " " ++ s ++ " ") (.tag (f e)) := by
  have whole : Spells false (word ++ " " ++ s ++ " ").toList (.name x :: ts) := by
    simpa using name.space_append rfl spells.space_end
  have delimited : Delimited 0 (.name x :: ts) := derived.delimited
  exact writes_logic whole delimited fun _ => LogicTag.ofSource_condition reads whole derived bound

theorem writes_openBranch (spells : Spells false s.toList ts)
    (derived : Derives .expression ts e n) (bound : n ≤ limit) :
    Writes limit .logic (" if" ++ " " ++ s ++ " ") (.tag (.openBranch e)) :=
  writes_condition (fun _ => rfl) (spells_of_map_tokenize (by cbv)) spells derived bound

theorem writes_elseIf (spells : Spells false s.toList ts)
    (derived : Derives .expression ts e n) (bound : n ≤ limit) :
    Writes limit .logic (" elseif" ++ " " ++ s ++ " ") (.tag (.elseIf "elseif" e)) :=
  writes_condition (fun _ => rfl) (spells_of_map_tokenize (by cbv)) spells derived bound

theorem writes_set (name : IsName x) (spells : Spells false s.toList ts)
    (derived : Derives .expression ts e n) (bound : n ≤ limit) :
    Writes limit .logic (" set " ++ x ++ " = " ++ s ++ " ") (.tag (.set x e)) := by
  have word : Spells false " set".toList [.name "set"] := spells_of_map_tokenize (by cbv)
  have assign : Spells false "=".toList [.symbol .assign] := spells_of_map_tokenize (by cbv)
  have target := word.space_append rfl (name.spells false)
  have before := target.space_append rfl assign
  have whole : Spells false (" set " ++ x ++ " = " ++ s ++ " ").toList
      (.name "set" :: .name x :: .symbol .assign :: ts) := by
    simpa using before.space_append rfl spells.space_end
  have delimited : Delimited 0 (.name "set" :: .name x :: .symbol .assign :: ts) :=
    derived.delimited
  exact writes_logic whole delimited fun _ => LogicTag.ofSource_set whole derived bound

theorem writes_openCapture (name : IsName x) :
    Writes limit .logic (" set " ++ x ++ " ") (.tag (.openCapture x)) := by
  have word : Spells false " set".toList [.name "set"] := spells_of_map_tokenize (by cbv)
  have whole : Spells false (" set " ++ x ++ " ").toList [.name "set", .name x] := by
    simpa using (word.space_append rfl (name.spells false)).space_end
  exact writes_logic whole rfl fun _ => LogicTag.ofSource_openCapture whole

theorem spells_variables {key : Option String} (names : ∀ k ∈ key, IsName k) (name : IsName x) :
    Spells false (LogicTag.variablesText key x).toList (LogicTag.variableTokens key x) := by
  cases key with
  | none => exact name.spells false
  | some k =>
    have both := ((names k rfl).spells false).comma (name.spells false)
    simpa [LogicTag.variablesText, LogicTag.variableTokens] using both

theorem endsInDot_variables (key : Option String) (x : String) :
    endsInDot false (.name "for" :: LogicTag.variableTokens key x) = false := by
  cases key <;> rfl

theorem writes_openLoop (key : Option String) (names : ∀ k ∈ key, IsName k) (name : IsName x)
    (spells : Spells false s.toList ts) (derived : Derives .expression ts e n) (bound : n ≤ limit) :
    Writes limit .logic (" for " ++ LogicTag.variablesText key x ++ " in " ++ s ++ " ")
      (.tag (.openLoop key x e)) := by
  have word : Spells false " for".toList [.name "for"] := spells_of_map_tokenize (by cbv)
  have within : Spells false "in".toList [.keyword .in] := spells_of_map_tokenize (by cbv)
  have target := word.space_append rfl (spells_variables names name)
  have before := target.space_append (endsInDot_variables key x) within
  have last :
      endsInDot false (.name "for" :: LogicTag.variableTokens key x ++ [.keyword .in]) = false := by
    simp [endsInDot, Token.isDot]
  have whole : Spells false (" for " ++ LogicTag.variablesText key x ++ " in " ++ s ++ " ").toList
      (.name "for" :: LogicTag.variableTokens key x ++ .keyword .in :: ts) := by
    simpa using before.space_append last spells.space_end
  have delimited :
      Delimited 0 (.name "for" :: LogicTag.variableTokens key x ++ .keyword .in :: ts) := by
    cases key <;> exact derived.delimited
  exact writes_logic whole delimited fun _ => LogicTag.ofSource_openLoop whole derived bound

theorem writes_otherwise : Writes limit .logic " else " (.tag .otherwise) := by
  have whole : Spells false " else ".toList [.name "else"] := spells_of_map_tokenize (by cbv)
  exact writes_logic whole rfl fun _ => LogicTag.ofSource_otherwise whole

theorem writes_close (kind : BlockKind) :
    Writes limit .logic (" end" ++ kind.keyword ++ " ") (.tag (.close kind)) := by
  have whole : Spells false (" end" ++ kind.keyword ++ " ").toList
      [.name ("end" ++ kind.keyword)] := by
    cases kind <;> exact spells_of_map_tokenize (by cbv)
  exact writes_logic whole rfl fun _ => LogicTag.ofSource_close whole

theorem Writes.joins {rest : List Char} {parts : List Part} (writes : Writes limit tag inside part)
    (splits : SplitsInto limit rest parts) :
    Joins limit ((tag.write inside).toList ++ rest) (part :: parts) := by
  have reads := writes.reads
  rw [← String.ofList_toList (s := inside)] at reads
  simpa [Tag.write, Tag.close] using joins_tag (writes.closes rest) reads splits

end Stencil
