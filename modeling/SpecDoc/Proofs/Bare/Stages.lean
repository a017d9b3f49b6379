import SpecDoc.Annotation
import SpecDoc.Proofs.Bare
import SpecDoc.Proofs.Sweep

/-!
# Sweeps and places

No stage of an annotation looks at where nodes were read, unless it fails. So two documents that
only differ in their places are annotated in the same way.

* `Sweep.Swept.bare`: a sweep does the same to nodes without their places;
* `Sweep.Swept.unique`: what a sweep does is determined;
* `Sweep.SweptDocument.bare_eq`: so documents that are equal but for their spans are swept alike;
* `bare_eq_of_numberSections`, `bare_numberExamples` and `bare_eq_of_assignAnchors?`: they remain
  equal through the stages of an annotation.
-/

namespace SpecDoc

namespace Sweep

variable {σ ε : Type} {w : Sweep σ ε} {s s' s₁ s₂ : σ} {ns ns' ns₁ ns₂ : List Node}

/-- Whether a sweep, where it does not fail, does the same to nodes without their places. -/
structure SpanBlind (w : Sweep σ ε) : Prop where
  group : ∀ {g : Group} {span : Option Span} {contents : List Node} {s : σ} {p : Group × σ},
    w.group g span contents s = .ok p →
      w.group g (bareSpan span) (contents.map Node.bare) s = .ok p
  rule : ∀ {r : Rule} {head : Option Node} {s : σ} {p : Rule × σ},
    w.rule r head s = .ok p → w.rule r (head.map Node.bare) s = .ok p

/-- A sweep does the same to nodes without their places. -/
theorem Swept.bare (hw : w.SpanBlind) (h : Swept w s ns ns' s') :
    Swept w s (ns.map Node.bare) (ns'.map Node.bare) s' := by
  induction h with
  | nil s => exact .nil s
  | leaf hleaf _ ih =>
      rw [List.map_cons, List.map_cons, Node.bare_leaf, Node.bare_leaf]
      exact .leaf hleaf ih
  | group hgroup _ _ ihcontents ihns =>
      rw [List.map_cons, List.map_cons, Node.bare_group, Node.bare_group]
      exact .group (hw.group hgroup) ihcontents ihns
  | rule hrule _ _ _ ihhead ihbody ihns =>
      rw [List.map_cons, List.map_cons, Node.bare_rule, Node.bare_rule]
      rw [← Option.toList_map, ← Option.toList_map] at ihhead
      exact .rule (hw.rule hrule) ihhead ihbody ihns

/-- What a sweep does is determined. -/
theorem Swept.unique (h₁ : Swept w s ns ns₁ s₁) (h₂ : Swept w s ns ns₂ s₂) :
    ns₁ = ns₂ ∧ s₁ = s₂ := by
  have hnodes := nodes_of_swept h₁
  rw [nodes_of_swept h₂, Except.ok.injEq, Prod.mk.injEq] at hnodes
  exact ⟨hnodes.1.symm, hnodes.2.symm⟩

/-- Documents that are equal but for their spans are swept in the same way. -/
theorem SweptDocument.bare_eq (hw : w.SpanBlind) {d₁ d₂ d₁' d₂' : Document}
    (hd : d₁.bare = d₂.bare) (h₁ : SweptDocument w s d₁ d₁' s₁)
    (h₂ : SweptDocument w s d₂ d₂' s₂) : d₁'.bare = d₂'.bare ∧ s₁ = s₂ := by
  rw [Document.bare, Document.bare, Document.mk.injEq] at hd
  obtain ⟨htitle, hcontents, hspan⟩ := hd
  have hbare₁ := h₁.contents.bare hw
  rw [hcontents] at hbare₁
  obtain ⟨hcontents', rfl⟩ := hbare₁.unique (h₂.contents.bare hw)
  rw [Document.bare, Document.bare, h₁.title, h₂.title, htitle, h₁.span, h₂.span, hspan,
    hcontents']
  exact ⟨rfl, rfl⟩

end Sweep

/-! ## The stages of an annotation -/

/-- The span of a section only shows in the error for it. -/
theorem NumberingState.spanBlind : sweep.SpanBlind where
  group := by
    intro g span contents s p h
    cases g with
    | numberedSection sec =>
        change numberGroup (.numberedSection sec) span contents s = .ok p at h
        change numberGroup (.numberedSection sec) _ (contents.map Node.bare) s = .ok p
        unfold numberGroup at h ⊢
        dsimp only at h ⊢
        split at h
        · cases h
        · exact h
    | _ => exact h
  rule h := h

theorem ExampleNumbering.spanBlind : sweep.SpanBlind where
  group h := h
  rule h := h

/-- Anchors are made of texts and names. -/
theorem AnchorState.spanBlind (o : AnchorOptions) (slugs : List String) :
    (sweep o slugs).SpanBlind where
  group := by
    intro g span contents s p h
    change anchorGroup o slugs g span contents s = .ok p at h
    change anchorGroup o slugs g (bareSpan span) (contents.map Node.bare) s = .ok p
    cases g with
    | definitionTerm name id =>
        unfold anchorGroup at h ⊢
        rw [Node.relabels_bare.plainText_map]
        exact h
    | note id =>
        unfold anchorGroup at h ⊢
        rw [Node.relabels_bare.plainText_map]
        exact h
    | _ => exact h
  rule := by
    intro r head s p h
    change anchorRule r head s = .ok p at h
    change anchorRule r (head.map Node.bare) s = .ok p
    unfold anchorRule at h ⊢
    rw [Node.relabels_bare.name?_map]
    exact h

section Stages

variable {d₁ d₂ d₁' d₂' : Document} (hd : d₁.bare = d₂.bare)

include hd

/-- Sections are numbered in the same way. -/
theorem bare_eq_of_numberSections (h₁ : numberSections d₁ = .ok d₁')
    (h₂ : numberSections d₂ = .ok d₂') : d₁'.bare = d₂'.bare := by
  obtain ⟨s₁, hswept₁⟩ := exists_sweptDocument_of_numberSections h₁
  obtain ⟨s₂, hswept₂⟩ := exists_sweptDocument_of_numberSections h₂
  exact (hswept₁.bare_eq NumberingState.spanBlind hd hswept₂).1

/-- Examples are numbered in the same way. -/
theorem bare_numberExamples : (numberExamples d₁).bare = (numberExamples d₂).bare := by
  obtain ⟨count₁, hswept₁⟩ := exists_sweptDocument_numberExamples d₁
  obtain ⟨count₂, hswept₂⟩ := exists_sweptDocument_numberExamples d₂
  exact (hswept₁.bare_eq ExampleNumbering.spanBlind hd hswept₂).1

/-- Anchors are assigned in the same way, and the same ones are registered. -/
theorem bare_eq_of_assignAnchors? {o : AnchorOptions} {b b₁ b₂ : Biblio}
    (h₁ : assignAnchors? o b d₁ = some (d₁', b₁)) (h₂ : assignAnchors? o b d₂ = some (d₂', b₂)) :
    d₁'.bare = d₂'.bare ∧ b₁ = b₂ := by
  obtain ⟨s₁, hswept₁, rfl⟩ := exists_sweptDocument_of_assignAnchors? h₁
  obtain ⟨s₂, hswept₂, rfl⟩ := exists_sweptDocument_of_assignAnchors? h₂
  -- The sweeps share their slugs, since these are made of titles alone.
  rw [← sectionSlugs_bare, hd, sectionSlugs_bare] at hswept₁
  obtain ⟨hbare, rfl⟩ := hswept₁.bare_eq (AnchorState.spanBlind o _) hd hswept₂
  exact ⟨hbare, rfl⟩

end Stages

end SpecDoc
