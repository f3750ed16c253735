import Stencil.Proofs.Eval.Sequence
import Stencil.Proofs.Node.Verbatim
import Stencil.Proofs.Segment.Seam

/-! One template behind another: two sources that compile can be joined, and what they make together
renders as the two do in turn. Only the texts that meet become one node. -/
namespace Stencil

open Segment

variable {ps qs : List Part} {ns forest : List Node} {source text : String} {config : Config}
  {cs : List Char}

theorem Node.exists_parts (compiled : Node.ofSource source config = .ok forest)
    (keeps : config.trimBlocks = false) :
    ∃ segments ps, splitChars false 0 source.toList = .ok segments ∧
      List.Forall₂ (Segment.Reads config.maxDepth) segments ps ∧ Block.Derives ps forest := by
  rw [Node.ofSource, keeps] at compiled
  obtain ⟨segments, cut, assembled⟩ := bind_eq_ok_iff.1 compiled
  obtain ⟨b, run, -⟩ := bind_eq_ok_iff.1 assembled
  obtain ⟨ps, reads⟩ := Assembly.exists_reads_run run
  exact ⟨segments, ps, cut, reads, Node.derives_of_ofSegments reads assembled⟩

namespace Block

theorem Derives.eq_nil (derived : Derives ps ns) (empty : ps = []) : ns = [] := by
  induction derived with
  | nil => rfl
  | append _ _ first second =>
    obtain ⟨rfl, rfl⟩ := List.append_eq_nil_iff.1 empty
    rw [first rfl, second rfl]
    rfl
  | _ => simp at empty

theorem Derives.exists_of_last (derived : Derives ps ns) (last : ps.getLast? = some (.text text)) :
    ∃ qs ms, ps = qs ++ [.text text] ∧ ns = ms ++ [.text text] ∧ Derives qs ms := by
  induction derived with
  | nil => cases last
  | @append ps qs ns ms first second ih ih' =>
    cases behind : qs.getLast? with
    | none =>
      obtain rfl := List.getLast?_eq_none_iff.1 behind
      obtain rfl := second.eq_nil rfl
      simpa using ih (by simpa using last)
    | some p =>
      obtain ⟨qs, ms, rfl, rfl, others⟩ := ih' (by simpa [List.getLast?_append, behind] using last)
      exact ⟨ps ++ qs, ns ++ ms, by simp, by simp, first.append others⟩
  | text s =>
    obtain rfl : s = text := by simpa using last
    exact ⟨[], [], rfl, rfl, .nil⟩
  | comment | output | set => cases last
  | capture | loop | loopElse | branch | branchElse =>
    rw [List.getLast?_concat] at last
    cases last

theorem Derives.exists_of_first (derived : Derives ps ns) (first : ps.head? = some (.text text)) :
    ∃ qs ms, ps = .text text :: qs ∧ ns = .text text :: ms ∧ Derives qs ms := by
  induction derived with
  | nil => cases first
  | @append ps qs ns ms front behind ih ih' =>
    cases ps with
    | nil =>
      obtain rfl := front.eq_nil rfl
      exact ih' (by simpa using first)
    | cons p ps =>
      obtain ⟨rs, ls, same, rfl, others⟩ := ih (by simpa using first)
      exact ⟨rs ++ qs, ls ++ ms, by simp [same], by simp, others.append behind⟩
  | text s =>
    obtain rfl : s = text := by simpa using first
    exact ⟨[], [], rfl, rfl, .nil⟩
  | comment | output | set | capture | loop | loopElse | branch | branchElse => cases first

theorem Derives.exists_of_texts_last (derived : Derives (ps ++ textParts cs) ns) :
    ∃ ms, ns = ms ++ Node.texts (String.ofList cs) ∧ Derives ps ms := by
  unfold textParts at derived
  split at derived
  · next empty =>
    obtain rfl := List.isEmpty_iff.1 empty
    exact ⟨ns, by simp [Node.texts], by simpa using derived⟩
  · next nonempty =>
    obtain ⟨qs, ms, same, rfl, others⟩ := derived.exists_of_last List.getLast?_concat
    obtain ⟨rfl, -⟩ := List.append_inj' same rfl
    have more : cs ≠ [] := by simpa using nonempty
    exact ⟨ms, by simp [Node.texts, more], others⟩

theorem Derives.exists_of_texts_first (derived : Derives (textParts cs ++ ps) ns) :
    ∃ ms, ns = Node.texts (String.ofList cs) ++ ms ∧ Derives ps ms := by
  unfold textParts at derived
  split at derived
  · next empty =>
    obtain rfl := List.isEmpty_iff.1 empty
    exact ⟨ns, by simp [Node.texts], by simpa using derived⟩
  · next nonempty =>
    obtain ⟨qs, ms, same, rfl, others⟩ := derived.exists_of_first rfl
    obtain ⟨-, rfl⟩ := List.cons.inj same
    have more : cs ≠ [] := by simpa using nonempty
    exact ⟨ms, by simp [Node.texts, more], others⟩

end Block

/-- Behind each other two sources compile to the two forests, but for the texts that meet. -/
theorem Node.exists_ofSource_append {s₁ s₂ : String} {ns₁ ns₂ : List Node}
    (keeps : config.trimBlocks = false) (first : Node.ofSource s₁ config = .ok ns₁)
    (second : Node.ofSource s₂ config = .ok ns₂) (meets : Meets s₁.toList s₂.toList) :
    ∃ ms ms' t t', ns₁ = ms ++ texts t ∧ ns₂ = texts t' ++ ms' ∧
      Node.ofSource (s₁ ++ s₂) config = .ok (ms ++ (texts (t ++ t') ++ ms')) := by
  obtain ⟨segments, ps, cut, reads, derived⟩ := exists_parts first keeps
  obtain ⟨segments', qs, cut', reads', derived'⟩ := exists_parts second keeps
  obtain ⟨before, text, text', behind, rfl, rfl, splits⟩ := exists_seam cut reads cut' reads' meets
  obtain ⟨ms, rfl, front⟩ := derived.exists_of_texts_last
  obtain ⟨ms', rfl, back⟩ := derived'.exists_of_texts_first
  refine ⟨ms, ms', String.ofList text, String.ofList text', rfl, rfl, ?_⟩
  have middle := derives_textParts (String.ofList text ++ String.ofList text')
  rw [← String.toList_append] at splits
  refine ofSource_of_splitsInto splits (front.append (Block.Derives.append ?_ back)) keeps
  simpa using middle

/-- Texts that meet render as one. -/
theorem Env.render_seam {σ : Type} (env : Env σ) (ns ms : List Node) (s t : String) :
    env.render (ns ++ (Node.texts (s ++ t) ++ ms)) =
      env.render ((ns ++ Node.texts s) ++ (Node.texts t ++ ms)) := by
  simp only [render, renderNodes_append, renderNodes_texts, bind_assoc, pure_bind,
    String.append_assoc]

namespace Template

/-- Renders two templates one after the other. What the first one leaves in the evaluator is there
for the second one. -/
def renderInTurn {σ : Type} (t₁ t₂ : Template) (env : Env σ) : Action (Evaluator σ) String := do
  let text ← env.render t₁.nodes
  let rest ← env.render t₂.nodes
  pure (text ++ rest)

/-- Templates can be put one behind the other, unless an opening delimiter comes about where they
meet: if both compile, so does the whole, and it renders as the two do in turn on one evaluator, from
whatever state that begins, with the same text, the same error and the same state in the end. -/
theorem compile_append (s₁ s₂ : String) (config : Config) (t₁ t₂ : Template)
    (keeps : config.trimBlocks = false) (first : compile s₁ config = .ok t₁)
    (second : compile s₂ config = .ok t₂)
    (apart : ¬ (s₁.toList.getLast? = some '\x7b' ∧
      ∃ tag : Tag, s₂.toList.head? = some tag.openMark)) :
    ∃ t, compile (s₁ ++ s₂) config = .ok t ∧
      ∀ (σ : Type) (context : Context) (config' : Config) (host : Host σ),
        (∀ s, (Env.mk context config' host).render t.nodes s =
          renderInTurn t₁ t₂ ⟨context, config', host⟩ s) ∧
        ∀ state, t.renderWith context config' host state =
          (renderInTurn t₁ t₂ ⟨context, config', host⟩ (.initial state)).map id (·.memory.host) := by
  obtain ⟨ns₁, compiled, rfl⟩ := map_eq_ok_iff.1 first
  obtain ⟨ns₂, compiled', rfl⟩ := map_eq_ok_iff.1 second
  have meets : Meets s₁.toList s₂.toList := fun brace tag mark => apart ⟨brace, tag, mark⟩
  obtain ⟨ms, ms', t, t', rfl, rfl, whole⟩ :=
    Node.exists_ofSource_append keeps compiled compiled' meets
  have same {σ : Type} (env : Env σ) : env.render (ms ++ (Node.texts (t ++ t') ++ ms')) =
      renderInTurn ⟨ms ++ Node.texts t, config⟩ ⟨Node.texts t' ++ ms', config⟩ env := by
    rw [Env.render_seam, Env.render_append, renderInTurn]
  refine ⟨⟨_, config⟩, map_eq_ok_iff.2 ⟨_, whole, rfl⟩, fun σ context config' host => ⟨?_, ?_⟩⟩
  · exact fun s => by rw [same]
  · intro state
    rw [renderWith, same]
    rfl

set_option maxRecDepth 2000 in
theorem compile_append_of_brace :
    ∃ t, compile ("\x7b% set x = 'y' %\x7da\x7b" ++ "b\x7b\x7b x \x7d\x7d") {} = .ok t ∧
      ∀ host : Host Unit, t.renderWith .empty {} host () = (.ok "a\x7bby", ()) := by
  have first : Node.ofSource "\x7b% set x = 'y' %\x7da\x7b" {} =
      .ok [.set "x" (.literal (.string "y")), .text "a\x7b"] := by cbv
  have second : Node.ofSource "b\x7b\x7b x \x7d\x7d" {} =
      .ok [.text "b", .output (.variable "x")] := by cbv
  have apart : ¬ ("\x7b% set x = 'y' %\x7da\x7b".toList.getLast? = some '\x7b' ∧
      ∃ tag : Tag, "b\x7b\x7b x \x7d\x7d".toList.head? = some tag.openMark) := by
    rintro ⟨-, tag, mark⟩
    cases tag <;> simp [Tag.openMark] at mark
  obtain ⟨t, compiled, renders⟩ := compile_append _ _ {} _ _ rfl
    (map_eq_ok_iff.2 ⟨_, first, rfl⟩) (map_eq_ok_iff.2 ⟨_, second, rfl⟩) apart
  refine ⟨t, compiled, fun host => ?_⟩
  rw [(renders Unit .empty {} host).2]
  rfl

end Template

end Stencil
