import Stencil.Proofs.Node.Embedding
import Stencil.Proofs.Segment.Bytes
import Stencil.Template

/-! Nothing of a template is lost when it is cut, and one without tags is its own text. -/
namespace Stencil

open Segment

variable {t : String} {σ : Type}

theorem Segment.split_of_isText (plain : IsText t.toList) (trimBlocks : Bool) :
    split t trimBlocks = .ok (ofText 0 t.toList) := by
  rw [split, splitChars]
  split
  · next unopened =>
    rw [findOpen_of_isText plain] at unopened
    cases unopened
    rfl
  · next opened =>
    rw [findOpen_of_isText plain] at opened
    cases opened

theorem Node.ofSource_of_isText (plain : IsText t.toList) (config : Config) :
    Node.ofSource t config = .ok (Node.texts t) := by
  rw [Node.ofSource, split_of_isText plain]
  exact Node.ofSegments_of_derives (reads_ofText 0 t.toList) (derives_textParts t)

theorem Env.renderNodes_texts (env : Env σ) (t : String) :
    env.renderNodes (Node.texts t) = pure t := by
  unfold Node.texts
  split
  · next empty =>
    subst empty
    rfl
  · simp [Env.renderNodes, Env.renderNode]

theorem Env.render_texts (env : Env σ) (t : String) (room : 1 ≤ env.config.maxDepth) (host : σ) :
    env.render (Node.texts t) (.initial host) = (.ok t, .initial host) := by
  have shallow : ¬ env.config.maxDepth ≤ (Evaluator.initial host).depth := Nat.not_le.2 room
  rw [Env.render, renderNodes_texts, Env.deeper, if_neg shallow]
  rfl

/-- A template is cut without loss. The segments between their delimiters are the template, each
stands at the byte offset of its source, and the texts are not empty, hold no opening delimiter and
stand apart. The scan of the bytes takes all the slices that it needs and cuts the template like this,
also when line breaks are dropped. So a template without an opening delimiter is at most one text, and
renders to itself. -/
theorem Segment.split_lossless (t : String) :
    (∀ segments, split t false = .ok segments →
      writeAll segments = t ∧
      (∀ before s after, segments = before ++ s :: after →
        s.position = (writeAll before ++ s.kind.opening).utf8ByteSize) ∧
      (∀ s ∈ segments, s.kind = .text →
        s.source ≠ "" ∧ ∀ tag : Tag, ¬ ['\x7b', tag.openMark] <:+: s.source.toList) ∧
      segments.IsChain fun s s' => ¬ (s.kind = .text ∧ s'.kind = .text)) ∧
    (∀ trimBlocks, ByteScan.cut t trimBlocks 0 = some (split t trimBlocks)) ∧
    ((∀ tag : Tag, ¬ ['\x7b', tag.openMark] <:+: t.toList) → ∀ config,
      ∃ template, Template.compile t config = .ok template ∧
        template.nodes.length ≤ 1 ∧ (∀ node ∈ template.nodes, ∃ s, node = .text s) ∧
        ∀ (σ : Type) (context : Context) (config' : Config) (host : Host σ) (state : σ),
          1 ≤ config'.maxDepth →
            template.renderWith context config' host state = (.ok t, state)) := by
  refine ⟨fun segments cut => ?_, fun trimBlocks => ByteScan.cut_eq_split t trimBlocks, ?_⟩
  · have lossless := lossless_splitChars cut
    refine ⟨by simpa using lossless.whole, ?_, lossless.texts, lossless.apart⟩
    rintro before s after rfl
    simpa using lossless.located.position_eq
  · intro plain config
    refine ⟨⟨Node.texts t, config⟩, ?_, ?_, ?_, ?_⟩
    · rw [Template.compile, Node.ofSource_of_isText plain]
      rfl
    · unfold Node.texts
      split <;> simp
    · unfold Node.texts
      split <;> simp
    · intro σ context config' host state room
      rw [Template.renderWith, Env.render_texts _ t room]
      rfl

theorem Segment.split_lossless_of_escape :
    split "é\x7b\x7b'\\é\x7d\x7d'\x7d\x7d." false = .ok [⟨.text, "é", 0⟩,
        ⟨.tag .output, "'\\é\x7d\x7d'", 4⟩, ⟨.text, ".", 13⟩] ∧
      writeAll [⟨.text, "é", 0⟩, ⟨.tag .output, "'\\é\x7d\x7d'", 4⟩, ⟨.text, ".", 13⟩] =
        "é\x7b\x7b'\\é\x7d\x7d'\x7d\x7d." ∧
      ∃ template, Template.compile "é\x7b" {} = .ok template ∧
        ∀ (context : Context) (host : Host Unit),
          template.renderWith context {} host () = (.ok "é\x7b", ()) := by
  have cut : split "é\x7b\x7b'\\é\x7d\x7d'\x7d\x7d." false = .ok [⟨.text, "é", 0⟩,
      ⟨.tag .output, "'\\é\x7d\x7d'", 4⟩, ⟨.text, ".", 13⟩] := by cbv
  have plain (tag : Tag) : ¬ ['\x7b', tag.openMark] <:+: "é\x7b".toList := by
    cases tag <;> decide
  obtain ⟨template, compiled, -, -, renders⟩ := (split_lossless "é\x7b").2.2 plain {}
  refine ⟨cut, ((split_lossless _).1 _ cut).1, template, compiled, fun context host => ?_⟩
  exact renders Unit context {} host () (by decide)

end Stencil
