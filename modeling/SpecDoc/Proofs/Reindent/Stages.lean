import SpecDoc.Proofs.Compile
import SpecDoc.Proofs.Reindent.Alike
import SpecDoc.Proofs.Sweep

/-!
# Stages on documents that differ in the layout of examples

No stage looks at the text of an example but for its normal form, and none looks into a section. So a stage
goes through alike documents in step: with the same states, to alike documents.

* `Sweep.Respects` says this of a sweep, and `Sweep.exists_alike_of_document` what follows for documents;
* `exists_alike_of_stages`: the numberings and the assignment of anchors one after the other.
-/

namespace SpecDoc

namespace Sweep

variable {σ ε : Type} {w : Sweep σ ε}

/-- Whether a sweep does the same to code whatever the layout of an example is, and to a section or
subsection whatever is in it. -/
structure Respects (w : Sweep σ ε) : Prop where
  code : ∀ {c c' : Code} {l : Leaf} {s s₁ : σ}, c.Alike c' → w.leaf (.code c) s = .ok (l, s₁) →
    ∃ d d', l = .code d ∧ w.leaf (.code c') s = .ok (.code d', s₁) ∧ d.Alike d'
  group : ∀ {g g₁ : Group} {span : Option Span} {contents : List Node} (contents' : List Node)
    {s s₁ : σ}, g.kind.isHeading = true → w.group g span contents s = .ok (g₁, s₁) →
      g₁.kind.isHeading = true ∧ w.group g span contents' s = .ok (g₁, s₁)

/-- The sweep goes through alike forests in step. -/
theorem Respects.exists_alike_of_swept (hw : w.Respects) {ns ms ns' : List Node} {s s' : σ}
    (h : Swept w s ns ms s') (hns : Node.Alike ns ns') :
    ∃ ms', Swept w s ns' ms' s' ∧ Node.Alike ms ms' := by
  -- A node that is the same in both forests is swept with the derivation that it has.
  induction h generalizing ns' with
  | nil s =>
      cases hns
      exact ⟨[], .nil s, .nil⟩
  | leaf hleaf _ ih =>
      cases hns with
      | same _ hns =>
          obtain ⟨ms', hswept, hms⟩ := ih hns
          exact ⟨_, .leaf hleaf hswept, .same _ hms⟩
      | code hcode hns =>
          obtain ⟨d, d', rfl, hleaf', hd⟩ := hw.code hcode hleaf
          obtain ⟨ms', hswept, hms⟩ := ih hns
          exact ⟨_, .leaf hleaf' hswept, .code hd hms⟩
  | group hgroup hcontents _ ihcontents ihns =>
      cases hns with
      | same _ hns =>
          obtain ⟨ms', hswept, hms⟩ := ihns hns
          exact ⟨_, .group hgroup hcontents hswept, .same _ hms⟩
      | @group _ _ _ contents' _ _ hg hcontents' hns =>
          obtain ⟨hg₁, hgroup'⟩ := hw.group contents' hg hgroup
          obtain ⟨below', hbelow, halike⟩ := ihcontents hcontents'
          obtain ⟨ms', hswept, hms⟩ := ihns hns
          exact ⟨_, .group hgroup' hbelow hswept, .group hg₁ halike hms⟩
  | rule hrule hhead hbody _ _ _ ihns =>
      cases hns with
      | same _ hns =>
          obtain ⟨ms', hswept, hms⟩ := ihns hns
          exact ⟨_, .rule hrule hhead hbody hswept, .same _ hms⟩

/-- The sweep goes through alike documents in step. -/
theorem Respects.exists_alike_of_document (hw : w.Respects) {d e d' : Document} {s s' : σ}
    (h : w.document d s = .ok (e, s')) (hd : d.Alike d') :
    ∃ e', w.document d' s = .ok (e', s') ∧ e.Alike e' := by
  have hswept := sweptDocument_of_document h
  obtain ⟨contents', hcontents', halike⟩ := hw.exists_alike_of_swept hswept.contents hd.contents
  refine ⟨{ d' with contents := contents' }, ?_, ?_⟩
  · simp only [document, nodes_of_swept hcontents']
  · exact ⟨by rw [hswept.title, ← hd.title], by rw [hswept.span, ← hd.span], halike⟩

end Sweep

/-! ## The stages -/

/-- Two blocks of code that are alike are so with the same number. -/
theorem Code.Alike.withNumber {c c' : Code} (h : c.Alike c') (number : Option UInt32) :
    Code.Alike { c with number } { c' with number } where
  isExample := h.isExample
  normalized := h.normalized
  eq_update := by rw [h.eq_update]

/-- Two blocks of code that are alike are so with the same anchor. -/
theorem Code.Alike.withId {c c' : Code} (h : c.Alike c') (id : Option String) :
    Code.Alike { c with id } { c' with id } where
  isExample := h.isExample
  normalized := h.normalized
  eq_update := by rw [h.eq_update]

/-- The numbering of sections looks at headings only. -/
theorem NumberingState.respects : NumberingState.sweep.Respects where
  code := by
    intro c c' l s s₁ hc h
    cases h
    exact ⟨c, c', rfl, rfl, hc⟩
  group := by
    intro g g₁ span contents contents' s s₁ hg h
    change numberGroup g span contents s = .ok (g₁, s₁) at h
    change _ ∧ numberGroup g span contents' s = .ok (g₁, s₁)
    cases g with
    | numberedSection sec =>
        refine ⟨?_, h⟩
        unfold numberGroup at h
        dsimp only at h
        split at h
        · cases h
        · cases h
          rfl
    | subsection sub =>
        cases h
        exact ⟨rfl, rfl⟩
    | _ => cases hg

/-- The numbering of examples looks at flags only. -/
theorem ExampleNumbering.respects : ExampleNumbering.sweep.Respects where
  code := by
    intro c c' l count count₁ hc h
    have hnumber : ∀ d : Code, d.isExample = true → ExampleNumbering.sweep.leaf (.code d) count
        = .ok (.code { d with number := some (count + 1) }, count + 1) := by
      intro d hd
      simp only [sweep, numberLeaf, hd, if_true]
    rw [hnumber c hc.isExample] at h
    cases h
    exact ⟨_, _, rfl, hnumber c' hc.symm.isExample, hc.withNumber _⟩
  group := by
    intro g g₁ span contents contents' count count₁ hg h
    cases h
    exact ⟨hg, rfl⟩

/-- The anchors look at the normal forms of examples, and at the titles of sections. -/
theorem AnchorState.respects (o : AnchorOptions) (slugs : List String) :
    (AnchorState.sweep o slugs).Respects where
  code := by
    intro c c' l s s₁ hc h
    change anchorLeaf o (.code c) s = .ok (l, s₁) at h
    change ∃ d d', l = .code d ∧ anchorLeaf o (.code c') s = .ok (.code d', s₁) ∧ d.Alike d'
    rw [anchorLeaf, if_pos hc.isExample] at h
    rw [anchorLeaf, if_pos hc.symm.isExample, hc.normalized]
    split at h
    · cases h
    · next id s₂ hid =>
      cases h
      exact ⟨_, _, rfl, rfl, hc.withId _⟩
  group := by
    intro g g₁ span contents contents' s s₁ hg h
    cases g with
    | numberedSection sec =>
        cases h
        exact ⟨rfl, rfl⟩
    | subsection sub =>
        cases h
        exact ⟨rfl, rfl⟩
    | _ => cases hg

/-! ## One stage after the other -/

variable {o : AnchorOptions} {b b' : Biblio} {d d₁ d₂ d' : Document}

/-- Documents that are alike are so after their sections were numbered. -/
theorem Document.Alike.exists_of_numberSections (hd : d.Alike d') (h : numberSections d = .ok d₁) :
    ∃ d₁', numberSections d' = .ok d₁' ∧ d₁.Alike d₁' := by
  obtain ⟨s, hsweep⟩ := numberSections_eq_ok_iff.1 h
  obtain ⟨d₁', hsweep', hd₁⟩ := NumberingState.respects.exists_alike_of_document hsweep hd
  exact ⟨d₁', numberSections_eq_ok_iff.2 ⟨s, hsweep'⟩, hd₁⟩

/-- Documents that are alike are so after their examples were numbered. -/
theorem Document.Alike.numberExamples (hd : d.Alike d') :
    (numberExamples d).Alike (numberExamples d') := by
  obtain ⟨count, hsweep⟩ := numberExamples_eq_iff.1 (rfl : SpecDoc.numberExamples d = _)
  obtain ⟨d₁', hsweep', hd₁⟩ := ExampleNumbering.respects.exists_alike_of_document hsweep hd
  rw [numberExamples_eq_iff.2 ⟨count, hsweep'⟩]
  exact hd₁

/-- Documents that are alike are so after their anchors were assigned, with the same biblio. -/
theorem Document.Alike.exists_of_assignAnchors? (hd : d.Alike d')
    (h : assignAnchors? o b d = some (d₁, b')) :
    ∃ d₁', assignAnchors? o b d' = some (d₁', b') ∧ d₁.Alike d₁' := by
  obtain ⟨s, hsweep, rfl⟩ := assignAnchors?_eq_some_iff.1 h
  have hrespects := AnchorState.respects o (sectionSlugs d)
  obtain ⟨d₁', hsweep', hd₁⟩ := hrespects.exists_alike_of_document hsweep hd
  rw [← hd.sectionSlugs_eq] at hsweep'
  exact ⟨d₁', assignAnchors?_eq_some_iff.2 ⟨s, hsweep', rfl⟩, hd₁⟩

/-- Alike documents are annotated with the same biblio to alike documents. -/
theorem Document.Alike.exists_of_stages (hd : d.Alike d') (hnumber : SpecDoc.numberSections d = .ok d₁)
    (hanchors : assignAnchors? o b (SpecDoc.numberExamples d₁) = some (d₂, b')) :
    ∃ d₁' d₂', SpecDoc.numberSections d' = .ok d₁' ∧
      assignAnchors? o b (SpecDoc.numberExamples d₁') = some (d₂', b') ∧ d₂.Alike d₂' := by
  obtain ⟨d₁', hnumber', hd₁⟩ := hd.exists_of_numberSections hnumber
  obtain ⟨d₂', hanchors', hd₂⟩ := hd₁.numberExamples.exists_of_assignAnchors? hanchors
  exact ⟨d₁', d₂', hnumber', hanchors', hd₂⟩

end SpecDoc
