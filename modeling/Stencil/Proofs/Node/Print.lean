import Stencil.Node.Assembly
import Stencil.Proofs.Expr.Print
import Stencil.Proofs.Segment.Split

/-! Nodes written out as templates. -/
namespace Stencil

open Segment

/-- A tag with its delimiters. -/
def Tag.write (tag : Tag) (inside : String) : String :=
  String.ofList ['\x7b', tag.openMark] ++ inside ++ tag.close

/-- The variables of a loop as its tag writes them. -/
def LogicTag.variablesText : Option String → String → String
  | none, x => x
  | some k, x => k ++ ", " ++ x

namespace Node

def printClose (kind : BlockKind) : String := Tag.logic.write (" end" ++ kind.keyword ++ " ")

mutual

def print : Node → String
  | .text s => s
  | .output e => Tag.output.write (" " ++ e.print ++ " ")
  | .set x e => Tag.logic.write (" set " ++ x ++ " = " ++ e.print ++ " ")
  | .capture x body =>
    Tag.logic.write (" set " ++ x ++ " ") ++ printForest body ++ printClose .capture
  | .loop key x e body otherwise =>
    Tag.logic.write (" for " ++ LogicTag.variablesText key x ++ " in " ++ e.print ++ " ") ++
      printForest body ++ printOtherwise otherwise ++ printClose .loop
  | .branch branches otherwise =>
    printBranches " if" branches ++ printOtherwise otherwise ++ printClose .branch

def printForest : List Node → String
  | [] => ""
  | n :: ns => print n ++ printForest ns

def printOtherwise : Option (List Node) → String
  | none => ""
  | some body => Tag.logic.write " else " ++ printForest body

/-- `word` begins the first branch. -/
def printBranches : (word : String) → List (Expr × List Node) → String
  | _, [] => ""
  | word, (test, body) :: branches =>
    Tag.logic.write (word ++ " " ++ test.print ++ " ") ++ printForest body ++
      printBranches " elseif" branches

end

mutual

/-- How many levels the expressions in the printed node need. -/
def nesting : Node → Nat
  | .text _ => 0
  | .output e | .set _ e => e.nesting
  | .capture _ body => nestingOfForest body
  | .loop _ _ e body otherwise =>
    max e.nesting (max (nestingOfForest body) (nestingOfOtherwise otherwise))
  | .branch branches otherwise => max (nestingOfBranches branches) (nestingOfOtherwise otherwise)

def nestingOfForest : List Node → Nat
  | [] => 0
  | n :: ns => max (nesting n) (nestingOfForest ns)

def nestingOfOtherwise : Option (List Node) → Nat
  | none => 0
  | some body => nestingOfForest body

def nestingOfBranches : List (Expr × List Node) → Nat
  | [] => 0
  | (test, body) :: branches =>
    max test.nesting (max (nestingOfForest body) (nestingOfBranches branches))

end

def isText : Node → Bool
  | .text _ => true
  | _ => false

/-- No two texts stand next to each other: they would be one text. -/
def Apart (forest : List Node) : Prop := forest.IsChain fun n m => ¬ (n.isText ∧ m.isText)

/-- Nodes whose texts hold no delimiters, and whose names and expressions can be written. -/
inductive Printable : Node → Prop
  | text {s : String} :
      s ≠ "" → IsText s.toList → s.toList.getLast? ≠ some '\x7b' → Printable (.text s)
  | output {e : Expr} : e.Printable → Printable (.output e)
  | set {x : String} {e : Expr} : IsName x → e.Printable → Printable (.set x e)
  | capture {x : String} {body : List Node} :
      IsName x → (∀ n ∈ body, Printable n) → Apart body → Printable (.capture x body)
  | loop {key : Option String} {x : String} {e : Expr} {body : List Node}
      {otherwise : Option (List Node)} :
      (∀ k ∈ key, IsName k) → IsName x → e.Printable →
      (∀ n ∈ body, Printable n) → Apart body →
      (∀ other ∈ otherwise, ∀ n ∈ other, Printable n) → (∀ other ∈ otherwise, Apart other) →
      Printable (.loop key x e body otherwise)
  | branch {branches : List (Expr × List Node)} {otherwise : Option (List Node)} :
      branches ≠ [] → (∀ b ∈ branches, b.1.Printable) →
      (∀ b ∈ branches, ∀ n ∈ b.2, Printable n) → (∀ b ∈ branches, Apart b.2) →
      (∀ other ∈ otherwise, ∀ n ∈ other, Printable n) → (∀ other ∈ otherwise, Apart other) →
      Printable (.branch branches otherwise)

end Node
end Stencil
