import Stencil.Proofs.Expr.Completeness
import Stencil.Proofs.Segment.Scan

/-! The tokens of an expression close the braces that they open, and no percent sign among them
stands before a closing brace; so no scan for the end of a tag stops inside. -/
namespace Stencil.Grammar

open Segment

variable {t first last : Token} {ts us : List Token}

/-- Put in front of other tokens, `ts` changes nothing about their delimiters. -/
def Encloses (ts : List Token) : Prop :=
  ∀ braces us, Delimited braces us → Delimited braces (ts ++ us)

theorem encloses_nil : Encloses [] := fun _ _ delimited => delimited

theorem Encloses.append (first : Encloses ts) (second : Encloses us) : Encloses (ts ++ us) := by
  intro braces vs delimited
  rw [List.append_assoc]
  exact first braces _ (second braces vs delimited)

theorem Encloses.cons (rest : Encloses ts) (plain : t ∉ markTokens) : Encloses (t :: ts) := by
  intro braces us delimited
  rw [List.cons_append, delimited_cons_iff plain]
  exact rest braces us delimited

theorem Encloses.between (inner : Encloses ts) (left : first ∉ markTokens)
    (right : last ∉ markTokens) : Encloses (first :: ts ++ [last]) :=
  (inner.append (encloses_nil.cons right)).cons left

theorem Encloses.mapping (inner : Encloses ts) :
    Encloses (.symbol .openBrace :: ts ++ [.symbol .closeBrace]) := by
  intro braces us delimited
  have closed : Delimited (braces + 1) (.symbol .closeBrace :: us) :=
    ⟨Nat.succ_pos braces, delimited⟩
  simpa [Delimited] using inner (braces + 1) _ closed

theorem notMem_markTokens_of_isKey {x : String} (isKey : IsKey t x) : t ∉ markTokens := by
  rcases isKey with ⟨_ | _⟩ | _ <;> simp [markTokens]

/-- A binary operator may be a percent sign, but an operand follows it. -/
theorem Encloses.operator {op : BinaryOp} {p : Phrase} {tree : p.Tree} {n : Nat}
    (spells : t ∈ op.spellings) (derived : Derives p us tree n) (single : ∀ item, p ≠ .list item)
    (rest : Encloses us) : Encloses (t :: us) := by
  by_cases percent : t = .symbol .percent
  · subst percent
    intro braces vs delimited
    obtain ⟨first, others, rfl, begins⟩ := derived.exists_begins single
    refine ⟨?_, rest braces vs delimited⟩
    intro close
    obtain rfl : first = .symbol .closeBrace := by simpa using close
    exact not_begins_of_close (by simp) begins
  · have plain : t ∉ markTokens := by
      simp only [markTokens, List.mem_cons, List.not_mem_nil, or_false]
      rintro (rfl | rfl | rfl)
      · cases op <;> simp [BinaryOp.spellings] at spells
      · cases op <;> simp [BinaryOp.spellings] at spells
      · exact percent rfl
    exact rest.cons plain

theorem Derives.encloses {p : Phrase} {tree : p.Tree} {n : Nat} (derived : Derives p ts tree n) :
    Encloses ts := by
  induction derived with
  | plain _ ih | operand _ ih | tighter _ _ ih | bare _ ih | unsigned _ ih | last _ ih => exact ih
  | nil => exact encloses_nil
  | conditional _ _ _ test whenTrue whenFalse =>
    have other := whenFalse.cons (t := .symbol .colon) (by decide)
    have arms := (whenTrue.append other).cons (t := .symbol .question) (by decide)
    simpa using test.append arms
  | binary _ spells right ihLeft ihRight =>
    exact ihLeft.append (Encloses.operator spells right (by simp) ihRight)
  | @unary op t _ _ _ spells _ ih =>
    have plain : t ∉ markTokens := by
      intro member
      simp only [markTokens, List.mem_cons, List.not_mem_nil, or_false] at member
      rcases member with rfl | rfl | rfl <;> cases op <;> simp [UnaryOp.spellings] at spells
    exact ih.cons plain
  | dot _ name ih =>
    have key := encloses_nil.cons (notMem_markTokens_of_isKey (.memberName name))
    exact ih.append (key.cons (by decide))
  | bracket _ _ object key =>
    have inner : Encloses (.symbol .openBracket :: _ ++ [.symbol .closeBracket]) :=
      key.between (by decide) (by decide)
    simpa using object.append inner
  | @filter _ _ x _ _ ih =>
    have name := encloses_nil.cons (t := .name x) (by simp [markTokens])
    exact ih.append (name.cons (by decide))
  | @filterWith _ _ _ x _ _ _ _ _ input args =>
    have inner : Encloses (.symbol .openParen :: _ ++ [.symbol .closeParen]) :=
      args.between (by decide) (by decide)
    have named := inner.cons (t := .name x) (by simp [markTokens])
    have suffix := named.cons (t := .symbol .pipe) (by decide)
    simpa using input.append suffix
  | literal isLiteral => cases isLiteral <;> exact encloses_nil.cons (by simp [markTokens])
  | name => exact encloses_nil.cons (by simp [markTokens])
  | call _ args => exact (args.between (by decide) (by decide)).cons (by simp [markTokens])
  | group _ inner | computedKey _ inner | array _ inner =>
    exact inner.between (by decide) (by decide)
  | mapping _ inner => exact inner.mapping
  | key isKey => exact encloses_nil.cons (notMem_markTokens_of_isKey isKey)
  | entry _ _ key value => exact key.append (value.cons (by decide))
  | cons _ _ first others => exact first.append (others.cons (by decide))

end Stencil.Grammar
