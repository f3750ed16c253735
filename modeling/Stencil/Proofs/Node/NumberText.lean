import Stencil.Proofs.Node.Completeness
import Stencil.Proofs.Node.Writing
import Stencil.Proofs.Number.Canonical
import Stencil.Template

/-! The text of a number is read back by everything that reads numbers: the coercion of strings, and
the template that prints it. -/
namespace Stencil

open Grammar Segment

variable {inside : List Char} {s : String} {ts : List Token} {e : Expr} {k : Nat}

theorem Segment.split_output (closes : Closes .output 0 (inside ++ ['\x7d', '\x7d']) inside [])
    (trimBlocks : Bool) :
    split (String.ofList ('\x7b' :: '\x7b' :: inside ++ ['\x7d', '\x7d'])) trimBlocks =
      .ok [⟨.tag .output, String.ofList inside, 2⟩] := by
  have opens : findOpen ([] ++ '\x7b' :: Tag.output.openMark :: (inside ++ ['\x7d', '\x7d'])) =
      ([], some (.output, inside ++ ['\x7d', '\x7d'])) :=
    findOpen_tag (isText_of_notMem (by simp)) (by simp)
  rw [List.nil_append, Tag.openMark] at opens
  have closed := closes 0 0 2 fun _ => rfl
  have rest (position : Nat) : splitChars trimBlocks position [] = .ok [] := by
    rw [splitChars]
    rfl
  rw [split, String.toList_ofList, List.cons_append, List.cons_append, splitChars]
  split
  · next none => simp [opens] at none
  · next found =>
    rw [opens] at found
    cases found
    dsimp only [Text.byteLength_nil]
    split
    · next failed => simp [closed] at failed
    · next ok =>
      rw [closed] at ok
      cases ok
      simp [dropped, trims, rest, Except.map, ofText]

/-- With any settings, an expression between double braces is a template that prints it. -/
theorem Node.ofSource_output (spells : Spells false s.toList ts) (derived : Derives .expression ts e k)
    (config : Config) (bound : k ≤ config.maxDepth) :
    Node.ofSource ("\x7b\x7b" ++ s ++ "\x7d\x7d") config = .ok [.output e] := by
  have closes : Closes .output 0 (s.toList ++ ['\x7d', '\x7d']) s.toList [] :=
    closes_of_delimited spells derived.delimited (by simp)
  have source : "\x7b\x7b" ++ s ++ "\x7d\x7d" =
      String.ofList ('\x7b' :: '\x7b' :: s.toList ++ ['\x7d', '\x7d']) := by
    simp [← String.toList_inj]
  have reads : Segment.Reads config.maxDepth ⟨.tag .output, String.ofList s.toList, 2⟩ (.output e) := by
    rw [String.ofList_toList]
    exact .output (Expr.ofSource_of_spells spells derived bound)
  rw [Node.ofSource, source, split_output closes]
  exact Node.ofSegments_of_derives (.cons reads .nil) (.output e)

theorem Env.render_output {σ : Type} {env : Env σ} {v : Value} {state : σ}
    (deep : 0 < env.config.maxDepth)
    (gives : env.eval [[]] e ⟨[], state⟩ = (.ok v, ⟨[], state⟩)) :
    env.render [.output e] (.initial state) = (.ok v.text, .initial state) := by
  have evaluated : env.evaluate e ⟨[[]], 1, 0, ⟨[], state⟩⟩ = (.ok v, ⟨[[]], 1, 0, ⟨[], state⟩⟩) := by
    simp only [evaluate, gives]
  have node : env.renderNode (.output e) ⟨[[]], 1, 0, ⟨[], state⟩⟩ =
      (.ok v.text, ⟨[[]], 1, 0, ⟨[], state⟩⟩) := by
    rw [renderNode, Action.bind_apply, evaluated]
    rfl
  have nodes : env.renderNodes [.output e] ⟨[[]], 1, 0, ⟨[], state⟩⟩ =
      (.ok v.text, ⟨[[]], 1, 0, ⟨[], state⟩⟩) := by
    rw [renderNodes, Action.bind_apply, node]
    simp [renderNodes, Action.pure_apply]
  have shallow : ¬ env.config.maxDepth ≤ 0 := by omega
  simp [render, deeper, Evaluator.initial, shallow, nodes]

namespace Number

variable {n : Number}

/-- What stands for a number in a template: a literal, under a minus sign if it is negative. -/
def toExpr (n : Number) : Expr :=
  if n.isMinus then .unary .negate (.literal (.number n.abs)) else .literal (.number n.abs)

def tokens (n : Number) : List Token :=
  if n.isMinus then [.symbol .minus, .number n.abs] else [.number n.abs]

/-- A minus sign takes a level of nesting. -/
def nesting (n : Number) : Nat := if n.isMinus then 2 else 1

theorem spells_tokens (finite : n.IsFinite) : Spells false n.text.toList n.tokens := by
  have unsigned : Spells false n.abs.text.toList [.number n.abs] :=
    spells_text ⟨isNegative_abs n, finite.abs⟩
  rw [text_eq finite, tokens]
  cases n.isMinus
  · simpa using unsigned
  · rw [if_pos rfl, String.toList_append]
    exact .symbol (fun _ => rfl) rfl unsigned

theorem derives_toExpr (n : Number) : Derives .expression n.tokens n.toExpr n.nesting := by
  have literal : Derives .suffixed [.number n.abs] (.literal (.number n.abs)) 0 :=
    .bare (.literal (.number n.abs))
  unfold tokens toExpr nesting
  cases n.isMinus
  · exact literal.whole
  · have negated : Derives .unary [.symbol .minus, .number n.abs]
        (.unary .negate (.literal (.number n.abs))) 1 :=
      .unary (by simp [UnaryOp.spellings]) (.unsigned literal)
    exact .plain (.looser (by omega) (Nat.le_refl 7) (.operand negated))

theorem neg_abs (finite : n.IsFinite) (minus : n.isMinus = true) : -n.abs = n := by
  rw [neg_eq finite.abs.ordered, isNegative_abs, magnitude_abs finite.ordered]
  have self := ofMagnitude_self finite.ordered
  rwa [(magnitude_ne_zero_of_isMinus minus).1] at self

theorem eval_toExpr {σ : Type} (env : Env σ) (scopes : Scopes) (finite : n.IsFinite) (m : Memory σ) :
    ∃ r : Number, env.eval scopes n.toExpr m = (.ok (.number r), m) ∧ r.text = n.text := by
  unfold toExpr
  cases minus : n.isMinus
  · refine ⟨n.abs, rfl, ?_⟩
    rw [text_eq finite, minus]
    simp
  · refine ⟨n, ?_, rfl⟩
    have negated : UnaryOp.negate.apply (.number n.abs) = .number n := congrArg _ (neg_abs finite minus)
    simp [Env.eval, Action.bind_apply, Action.pure_apply, Literal.toValue, negated]

theorem nesting_pos (n : Number) : 0 < n.nesting := by
  unfold nesting
  split <;> omega

/-- The template that prints the text of a number prints it unchanged. -/
theorem template_prints_text {σ : Type} (finite : n.IsFinite) (config : Config)
    (bound : n.nesting ≤ config.maxDepth) (context : Context) (host : Host σ) (state : σ) :
    ∃ t, Template.compile ("\x7b\x7b " ++ n.text ++ " \x7d\x7d") config = .ok t ∧
      t.render context host state = (.ok n.text, state) := by
  have spells : Spells false (" " ++ n.text ++ " ").toList n.tokens := by
    simpa using (spells_tokens finite).blank.space_end
  have compiled := Node.ofSource_output spells (derives_toExpr n) config bound
  have source : "\x7b\x7b " ++ n.text ++ " \x7d\x7d" =
      "\x7b\x7b" ++ (" " ++ n.text ++ " ") ++ "\x7d\x7d" := by
    simp [← String.toList_inj]
  have deep : 0 < config.maxDepth := n.nesting_pos.trans_le bound
  obtain ⟨r, gives, same⟩ := eval_toExpr ⟨context, config, host⟩ [[]] finite ⟨[], state⟩
  have rendered := Env.render_output deep gives
  refine ⟨⟨[.output n.toExpr], config⟩, ?_, ?_⟩
  · rw [Template.compile, source, compiled]
    rfl
  · simp only [Template.render, Template.renderWith, rendered, Value.text, same]
    rfl

/-- The canonical text of a finite number denotes the shortest decimal that is read as the number,
without an exponent exactly in the plain range and without a zero too many. Strings are coerced back
to the number, the template that prints the text prints it unchanged, and no other number has it. -/
theorem text_canonical (finite : n.IsFinite) :
    n.shortestDecimal.IsShortest n ∧
    (∃ l : Numeral, l.Valid ∧ l.Tidy ∧ n.text.toList = n.signChars ++ l.chars ∧
      l.decimal.value = n.shortestDecimal.value ∧ (l.exponent = none ↔ n.IsPlain)) ∧
    (Value.string n.text).toNumber.equal n = true ∧
    (∀ (σ : Type) (config : Config) (context : Context) (host : Host σ) (state : σ),
      n.nesting ≤ config.maxDepth →
      ∃ t, Template.compile ("\x7b\x7b " ++ n.text ++ " \x7d\x7d") config = .ok t ∧
        t.render context host state = (.ok n.text, state)) ∧
    ∀ n' : Number, n'.IsFinite → (n.text = n'.text ↔ n.equal n' = true) := by
  refine ⟨isShortest_shortestDecimal finite, ?_, equal_of_text finite, ?_, ?_⟩
  · exact ⟨.ofDecimal n.shortestDecimal, Numeral.valid_ofDecimal _, tidy_shortestDecimal finite,
      toList_text finite, Numeral.value_ofDecimal _, exponent_shortestDecimal finite⟩
  · intro σ config context host state bound
    exact template_prints_text finite config bound context host state
  · intro n' finite'
    exact text_eq_iff finite finite'

/-- A negative number below the plain range. -/
theorem text_canonical_of_small :
    ((Decimal.mk 15 (-8)).toNumber true).text = "-1.5e-7" ∧
    (Value.string "-1.5e-7").toNumber.equal ((Decimal.mk 15 (-8)).toNumber true) = true := by
  have text : ((Decimal.mk 15 (-8)).toNumber true).text = "-1.5e-7" := by decide +kernel
  have whole := text_canonical (n := (Decimal.mk 15 (-8)).toNumber true)
    ⟨0x1421F5F40D8376, -75, by decide +kernel⟩
  rw [text] at whole
  exact ⟨text, whole.2.2.1⟩

end Number

end Stencil
