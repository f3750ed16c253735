import Stencil.Proofs.Node.Completeness
import Stencil.Proofs.Node.Writing

/-! A valid expression stays whole inside a template, whatever its strings, mappings and operators
look like. -/
namespace Stencil

open Segment

variable {limit : Nat} {config : Config} {source p q : String} {parts qs : List Part}
  {forest : List Node}

theorem Node.ofSource_of_splitsInto (splits : SplitsInto config.maxDepth source.toList parts)
    (derived : Block.Derives parts forest) (keeps : config.trimBlocks = false) :
    Node.ofSource source config = .ok forest := by
  obtain ⟨segments, cut, reads⟩ := splits 0
  rw [Node.ofSource, keeps, Segment.split, cut]
  exact Node.ofSegments_of_derives reads derived

/-- The nodes of a text: one, unless it is empty. -/
def Node.texts (s : String) : List Node := if s = "" then [] else [.text s]

theorem derives_textParts (s : String) : Block.Derives (textParts s.toList) (Node.texts s) := by
  by_cases empty : s = ""
  · subst empty
    exact .nil
  · have nonempty : s.toList.isEmpty = false := by simpa using empty
    simp only [textParts, nonempty, Node.texts, if_neg empty]
    simpa using Block.Derives.text s

theorem Node.ofSource_between (before : IsText p.toList) (ends : p.toList.getLast? ≠ some '\x7b')
    (behind : IsText q.toList)
    (joins : ∀ rest ps, SplitsInto config.maxDepth rest ps →
      Joins config.maxDepth (source.toList ++ rest) (parts ++ ps))
    (derived : Block.Derives parts forest) (keeps : config.trimBlocks = false) :
    Node.ofSource (p ++ source ++ q) config = .ok (texts p ++ forest ++ texts q) := by
  have whole := joins q.toList _ (splitsInto_text behind) p.toList before ends
  rw [← String.toList_append, ← String.toList_append, ← List.append_assoc,
    ← String.append_assoc] at whole
  exact ofSource_of_splitsInto whole
    (((derives_textParts p).append derived).append (derives_textParts q)) keeps

/-- Inside an output tag, the condition of a branch, an assignment or the iterable of a loop, with
any texts around the tag, an expression that is valid on its own is what is found there. -/
theorem Node.ofSource_of_expression (s : String) (offset : Nat) (e : Expr) (p q x : String)
    (config : Config) (valid : Expr.ofSource s offset config.maxDepth = .ok e)
    (before : IsText p.toList) (ends : p.toList.getLast? ≠ some '\x7b') (behind : IsText q.toList)
    (name : IsName x) (keeps : config.trimBlocks = false) :
    Node.ofSource (p ++ "\x7b\x7b" ++ s ++ "\x7d\x7d" ++ q) config =
      .ok (texts p ++ [.output e] ++ texts q) ∧
    Node.ofSource (p ++ "\x7b% if " ++ s ++ " %\x7d\x7b% endif %\x7d" ++ q) config =
      .ok (texts p ++ [.branch [(e, [])] none] ++ texts q) ∧
    Node.ofSource (p ++ "\x7b% set " ++ x ++ " = " ++ s ++ " %\x7d" ++ q) config =
      .ok (texts p ++ [.set x e] ++ texts q) ∧
    Node.ofSource (p ++ "\x7b% for " ++ x ++ " in " ++ s ++ " %\x7d\x7b% endfor %\x7d" ++ q) config =
      .ok (texts p ++ [.loop none x e [] none] ++ texts q) := by
  obtain ⟨ts, spells, n, bound, derived⟩ := Expr.spells_of_ofSource valid
  refine ⟨?_, ?_, ?_, ?_⟩
  · have template : p ++ "\x7b\x7b" ++ s ++ "\x7d\x7d" ++ q = p ++ Tag.output.write s ++ q := by
      simp [← String.toList_inj, Tag.write, Tag.close, Tag.openMark, Tag.closeMark]
    rw [template]
    refine ofSource_between before ends behind (fun rest ps splits => ?_) (.output e) keeps
    exact (writes_output spells derived bound).joins splits
  · have template : p ++ "\x7b% if " ++ s ++ " %\x7d\x7b% endif %\x7d" ++ q =
        p ++ (Tag.logic.write (" if" ++ " " ++ s ++ " ") ++ printClose .branch) ++ q := by
      simp [← String.toList_inj, printClose, Tag.write, Tag.close, Tag.openMark, Tag.closeMark,
        BlockKind.keyword]
    rw [template]
    have none : ∀ s ∈ ([] : List Block.Section), Block.Derives s.parts s.nodes := by simp
    have block := Block.Derives.branch e .nil none
    refine ofSource_between before ends behind (fun rest ps splits => ?_) block keeps
    have closed := ((writes_close .branch).joins splits).splits
    have opened := (writes_openBranch spells derived bound).joins closed
    simpa [printClose] using opened
  · have template : p ++ "\x7b% set " ++ x ++ " = " ++ s ++ " %\x7d" ++ q =
        p ++ Tag.logic.write (" set " ++ x ++ " = " ++ s ++ " ") ++ q := by
      simp [← String.toList_inj, Tag.write, Tag.close, Tag.openMark, Tag.closeMark]
    rw [template]
    refine ofSource_between before ends behind (fun rest ps splits => ?_) (.set x e) keeps
    exact (writes_set name spells derived bound).joins splits
  · have template : p ++ "\x7b% for " ++ x ++ " in " ++ s ++ " %\x7d\x7b% endfor %\x7d" ++ q =
        p ++ (Tag.logic.write (" for " ++ x ++ " in " ++ s ++ " ") ++ printClose .loop) ++ q := by
      simp [← String.toList_inj, printClose, Tag.write, Tag.close, Tag.openMark, Tag.closeMark,
        BlockKind.keyword]
    rw [template]
    refine ofSource_between before ends behind (fun rest ps splits => ?_) (.loop none x e .nil) keeps
    have closed := ((writes_close .loop).joins splits).splits
    have opened := (writes_openLoop none (by simp) name spells derived bound).joins closed
    simpa [LogicTag.variablesText, printClose] using opened

/-- A closing delimiter in a string literal, a mapping and a percent sign do no harm. -/
theorem Node.ofSource_of_mapping :
    Node.ofSource "a\x7b\x7b\x7b'\x7d\x7d%\x7d': b % c\x7d\x7d\x7dd" {} =
      .ok [.text "a",
        .output (.mapping [(.literal (.string "\x7d\x7d%\x7d"),
          .binary .remainder (.variable "b") (.variable "c"))]),
        .text "d"] := by
  have whole := (Node.ofSource_of_expression "\x7b'\x7d\x7d%\x7d': b % c\x7d" 0 _ "a" "d" "x" {}
    (by cbv) (isText_of_notMem (by simp)) (by simp) (isText_of_notMem (by simp)) (by cbv) rfl).1
  simpa [texts] using whole

end Stencil
