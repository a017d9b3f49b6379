import SpecDoc.Annotation
import SpecDoc.Proofs.Anchors.Search
import SpecDoc.Proofs.Place
import SpecDoc.Proofs.Sweep.Recursive

/-!
# Sweeps as derivations

A sweep that succeeds turns a sequence of nodes into another one and a state into another one. `Swept`
says so by one rule for each kind of node at the head of the sequence, so that facts about sweeps can
be proved by one induction in place of three that are intertwined.

* `swept_of_nodes`: a sweep that succeeds has a derivation;
* `forall_mem_placesIn_of_swept`: what holds at each place, given an invariant of the state there;
* `SweptDocument`: what the sweep of a document changes, and what stays;
* `numberSections_eq_ok_iff`, `numberExamples_eq_iff` and `assignAnchors?_eq_some_iff`: the result of a
  stage, which traverses the document, is that of its sweep by recursion;
* `exists_sweptDocument_of_numberSections`, `exists_sweptDocument_numberExamples` and
  `exists_sweptDocument_of_assignAnchors?`: the stages of an annotation are sweeps.
-/

namespace SpecDoc

namespace Sweep

variable {σ ε : Type} {w : Sweep σ ε}

/-- `Swept w s ns ns' s'`: the sweep takes the nodes `ns` and the state `s` to `ns'` and `s'`. -/
inductive Swept (w : Sweep σ ε) : σ → List Node → List Node → σ → Prop where
  /-- There is nothing to sweep. -/
  | nil (s : σ) : Swept w s [] [] s
  /-- A leaf, and what follows it. -/
  | leaf {l l' : Leaf} {span : Option Span} {ns ns' : List Node} {s s₁ s₂ : σ}
      (hleaf : w.leaf l s = .ok (l', s₁)) (hns : Swept w s₁ ns ns' s₂) :
      Swept w s (.leaf l span :: ns) (.leaf l' span :: ns') s₂
  /-- A group, then its contents, then what follows it. -/
  | group {g g' : Group} {span : Option Span} {contents contents' ns ns' : List Node}
      {s s₁ s₂ s₃ : σ} (hgroup : w.group g span contents s = .ok (g', s₁))
      (hcontents : Swept w s₁ contents contents' s₂)
      (hns : Swept w (w.endGroup g' s₂) ns ns' s₃) :
      Swept w s (.group g span contents :: ns) (.group g' span contents' :: ns') s₃
  /-- A rule, then its head and its body, then what follows it. -/
  | rule {r r' : Rule} {span : Option Span} {head head' : Option Node}
      {body body' ns ns' : List Node} {s s₁ s₂ s₃ s₄ : σ}
      (hrule : w.rule r head s = .ok (r', s₁))
      (hhead : Swept w s₁ head.toList head'.toList s₂) (hbody : Swept w s₂ body body' s₃)
      (hns : Swept w s₃ ns ns' s₄) :
      Swept w s (.rule r span head body :: ns) (.rule r' span head' body' :: ns') s₄

mutual

/-- A swept node goes in front of a swept sequence. -/
theorem swept_cons_of_node {n n' : Node} {s s₁ : σ} (h : w.node n s = .ok (n', s₁))
    {ns ns' : List Node} {s₂ : σ} (hns : Swept w s₁ ns ns' s₂) :
    Swept w s (n :: ns) (n' :: ns') s₂ := by
  cases n with
  | leaf l span =>
      rw [node] at h
      split at h
      · cases h
      · next hleaf =>
        cases h
        exact .leaf hleaf hns
  | group g span contents =>
      rw [node] at h
      split at h
      · cases h
      · next hgroup =>
        split at h
        · cases h
        · next hcontents =>
          cases h
          exact .group hgroup (swept_of_nodes hcontents) hns
  | rule r span head body =>
      rw [node] at h
      split at h
      · cases h
      · next hrule =>
        split at h
        · cases h
        · next hhead =>
          split at h
          · cases h
          · next hbody =>
            cases h
            exact .rule hrule (swept_of_headNode hhead) (swept_of_nodes hbody) hns

/-- A sequence that was swept has a derivation. -/
theorem swept_of_nodes {ns ns' : List Node} {s s' : σ} (h : w.nodes ns s = .ok (ns', s')) :
    Swept w s ns ns' s' := by
  cases ns with
  | nil =>
      rw [nodes] at h
      cases h
      exact .nil s
  | cons n ns =>
      rw [nodes] at h
      split at h
      · cases h
      · next hn =>
        split at h
        · cases h
        · next hns =>
          cases h
          exact swept_cons_of_node hn (swept_of_nodes hns)

/-- A head that was swept has a derivation as a sequence of at most one node. -/
theorem swept_of_headNode {head head' : Option Node} {s s' : σ}
    (h : w.headNode head s = .ok (head', s')) : Swept w s head.toList head'.toList s' := by
  cases head with
  | none =>
      rw [headNode] at h
      cases h
      exact .nil s
  | some n =>
      rw [headNode] at h
      split at h
      · cases h
      · next hn =>
        cases h
        exact swept_cons_of_node hn (.nil _)

end

/-- The head of a rule is swept like a sequence of at most one node. -/
theorem headNode_eq (head : Option Node) (s : σ) :
    w.headNode head s = (w.nodes head.toList s).map fun p => (p.1.head?, p.2) := by
  cases head with
  | none => rfl
  | some n =>
      rw [headNode, Option.toList_some, nodes]
      cases w.node n s <;> rfl

/-- What has a derivation is what the sweep does. -/
theorem nodes_of_swept {ns ns' : List Node} {s s' : σ} (h : Swept w s ns ns' s') :
    w.nodes ns s = .ok (ns', s') := by
  induction h with
  | nil s => rw [nodes]
  | leaf hleaf _ ih => simp only [nodes, node, hleaf, ih]
  | group hgroup _ _ ihcontents ihns => simp only [nodes, node, hgroup, ihcontents, ihns]
  | rule hrule _ _ _ ihhead ihbody ihns =>
      simp only [nodes, node, hrule, headNode_eq, ihhead, Except.map, Option.head?_toList, ihbody,
        ihns]

/-! ## Places -/

/-- `Tracks w Inv P`: `Inv around s` is an invariant of the state `s` at a place in the nodes `around`, as
they come out of the sweep, and it gives `P` at the place. The contents of a node are not known when the
sweep comes to it. Behind the node the invariant is that of the place before it. -/
structure Tracks (w : Sweep σ ε) (Inv : List Node → σ → Prop) (P : Place → Prop) : Prop where
  leaf : ∀ {around : List Node} {l l' : Leaf} {span : Option Span} {s s' : σ}, Inv around s →
    w.leaf l s = .ok (l', s') → P ⟨around, .leaf l' span⟩ ∧ Inv around s'
  group : ∀ {around : List Node} {g g' : Group} {span : Option Span} {contents contents' : List Node}
    {s s' : σ}, Inv around s → w.group g span contents s = .ok (g', s') →
      P ⟨around, .group g' span contents'⟩ ∧ Inv (.group g' span contents' :: around) s'
  endGroup : ∀ {around : List Node} {g : Group} {span : Option Span} {contents : List Node}
    {s s' : σ}, Inv around s → Inv (.group g span contents :: around) s' →
      Inv around (w.endGroup g s')
  rule : ∀ {around : List Node} {r r' : Rule} {span : Option Span} {head head' : Option Node}
    {body' : List Node} {s s' : σ}, Inv around s → w.rule r head s = .ok (r', s') →
      P ⟨around, .rule r' span head' body'⟩ ∧ Inv (.rule r' span head' body' :: around) s'
  endRule : ∀ {around : List Node} {r : Rule} {span : Option Span} {head : Option Node}
    {body : List Node} {s s' : σ}, Inv around s → Inv (.rule r span head body :: around) s' →
      Inv around s'

/-- The invariant holds behind the nodes if it does before them, and then all their places have the
property. -/
theorem forall_mem_placesIn_of_swept {Inv : List Node → σ → Prop} {P : Place → Prop}
    (hw : w.Tracks Inv P) {ns ns' : List Node} {s s' : σ} (h : Swept w s ns ns' s') :
    ∀ around, Inv around s → Inv around s' ∧ ∀ p ∈ Node.placesIn around ns', P p := by
  induction h with
  | nil s =>
      intro around hs
      exact ⟨hs, by simp [Node.placesIn]⟩
  | leaf hleaf _ ih =>
      intro around hs
      obtain ⟨hp, hs₁⟩ := hw.leaf hs hleaf
      obtain ⟨hs₂, hns⟩ := ih around hs₁
      refine ⟨hs₂, ?_⟩
      rw [Node.placesIn, Node.placesBelow, List.nil_append]
      exact List.forall_mem_cons.2 ⟨hp, hns⟩
  | group hgroup _ _ ihcontents ihns =>
      intro around hs
      obtain ⟨hp, hs₁⟩ := hw.group hs hgroup
      obtain ⟨hs₂, hcontents⟩ := ihcontents _ hs₁
      obtain ⟨hs₃, hns⟩ := ihns around (hw.endGroup hs hs₂)
      refine ⟨hs₃, ?_⟩
      rw [Node.placesIn, Node.placesBelow]
      exact List.forall_mem_cons.2 ⟨hp, List.forall_mem_append.2 ⟨hcontents, hns⟩⟩
  | rule hrule _ _ _ ihhead ihbody ihns =>
      intro around hs
      obtain ⟨hp, hs₁⟩ := hw.rule hs hrule
      obtain ⟨hs₂, hhead⟩ := ihhead _ hs₁
      obtain ⟨hs₃, hbody⟩ := ihbody _ hs₂
      obtain ⟨hs₄, hns⟩ := ihns around (hw.endRule hs hs₃)
      refine ⟨hs₄, ?_⟩
      rw [Node.placesIn, Node.placesBelow, Node.placesOfHead_eq]
      have hbelow := List.forall_mem_append.2 ⟨hhead, hbody⟩
      exact List.forall_mem_cons.2 ⟨hp, List.forall_mem_append.2 ⟨hbelow, hns⟩⟩

/-! ## Documents -/

/-- A document that was swept has a derivation for its contents. -/
theorem swept_of_document {d d' : Document} {s s' : σ} (h : w.document d s = .ok (d', s')) :
    Swept w s d.contents d'.contents s' := by
  unfold document at h
  split at h
  · cases h
  · next hcontents =>
    cases h
    exact swept_of_nodes hcontents

/-- Whether a sweep turns a document into another one: it only changes the contents. -/
structure SweptDocument (w : Sweep σ ε) (s : σ) (d d' : Document) (s' : σ) : Prop where
  title : d'.title = d.title
  span : d'.span = d.span
  contents : Swept w s d.contents d'.contents s'

/-- The sweep of a document, where it succeeds, turns it into the result. -/
theorem sweptDocument_of_document {d d' : Document} {s s' : σ}
    (h : w.document d s = .ok (d', s')) : SweptDocument w s d d' s' := by
  have hcontents := swept_of_document h
  unfold document at h
  split at h
  · cases h
  · cases h
    exact ⟨rfl, rfl, hcontents⟩

end Sweep

/-! ## Stages -/

section Stages

variable {o : AnchorOptions} {b b' : Biblio} {d d' : Document}

/-- Numbering a section does not change which node it is. -/
theorem NumberingState.keepsShape_sweep : NumberingState.sweep.KeepsShape where
  document _ _ _ _ := rfl
  endDocument _ _ := rfl
  group := by
    intro g g' span contents s s' h
    cases g with
    | numberedSection sec =>
        simp only [sweep, numberGroup] at h
        split at h
        · cases h
        · cases h
          rfl
    | _ =>
        cases h
        rfl
  rule := by
    intro r r' head s s' h
    cases h
    exact ⟨rfl, rfl⟩

/-- Numbering an example does not change which node it is. -/
theorem ExampleNumbering.keepsShape_sweep : ExampleNumbering.sweep.KeepsShape where
  document _ _ _ _ := rfl
  endDocument _ _ := rfl
  group := by
    intro g g' span contents s s' h
    cases h
    rfl
  rule := by
    intro r r' head s s' h
    cases h
    exact ⟨rfl, rfl⟩

/-- An anchor does not change which node has it. -/
theorem AnchorState.keepsShape_sweep (o : AnchorOptions) (slugs : List String) :
    (AnchorState.sweep o slugs).KeepsShape where
  document _ _ _ _ := rfl
  endDocument _ _ := rfl
  group := by
    intro g g' span contents s s' h
    cases g with
    | definitionTerm name old =>
        obtain ⟨id, -, rfl, -⟩ := anchorGroup_definitionTerm_eq_ok h
        rfl
    | note old =>
        obtain ⟨id, -, rfl⟩ := anchorGroup_note_eq_ok h
        rfl
    | _ =>
        cases h
        rfl
  rule := by
    intro r r' head s s' h
    simp only [sweep, anchorRule] at h
    split at h
    · cases h
      exact ⟨rfl, rfl⟩
    · cases r <;> cases h <;> exact ⟨rfl, rfl⟩

/-- What the numbering of sections gives is what its sweep gives. -/
theorem numberSections_eq_ok_iff :
    numberSections d = .ok d' ↔ ∃ s, NumberingState.sweep.document d .start = .ok (d', s) := by
  rw [numberSections, NumberingState.keepsShape_sweep.run_eq]
  cases NumberingState.sweep.document d .start with
  | error e => simp
  | ok p => simp [Prod.ext_iff]

/-- The numbering of sections fails where its sweep fails. -/
theorem numberSections_eq_error_iff {e : NumberingError} :
    numberSections d = .error e ↔ NumberingState.sweep.document d .start = .error e := by
  rw [numberSections, NumberingState.keepsShape_sweep.run_eq]
  cases NumberingState.sweep.document d .start <;> simp

/-- What the numbering of examples gives is what its sweep gives. -/
theorem numberExamples_eq_iff :
    numberExamples d = d' ↔ ∃ count, ExampleNumbering.sweep.document d 0 = .ok (d', count) := by
  rw [numberExamples, ExampleNumbering.keepsShape_sweep.run_eq]
  cases ExampleNumbering.sweep.document d 0 with
  | error e => exact e.elim
  | ok p => simp [Prod.ext_iff]

/-- What the assignment of anchors gives is what its sweep gives. -/
theorem assignAnchors?_eq_some_iff :
    assignAnchors? o b d = some (d', b') ↔
      ∃ s, (AnchorState.sweep o (sectionSlugs d)).document d ⟨b, [], []⟩ = .ok (d', s) ∧
        s.biblio = b' := by
  rw [assignAnchors?, (AnchorState.keepsShape_sweep o (sectionSlugs d)).run_eq]
  cases (AnchorState.sweep o (sectionSlugs d)).document d ⟨b, [], []⟩ with
  | error e => simp
  | ok p => simp [Prod.ext_iff, and_assoc]

/-- There are no anchors where the sweep for them fails. -/
theorem assignAnchors?_eq_none_iff :
    assignAnchors? o b d = none ↔
      (AnchorState.sweep o (sectionSlugs d)).document d ⟨b, [], []⟩ = .error () := by
  rw [assignAnchors?, (AnchorState.keepsShape_sweep o (sectionSlugs d)).run_eq]
  cases (AnchorState.sweep o (sectionSlugs d)).document d ⟨b, [], []⟩ <;> simp

/-- Numbering the sections is a sweep. -/
theorem exists_sweptDocument_of_numberSections (h : numberSections d = .ok d') :
    ∃ s, Sweep.SweptDocument NumberingState.sweep .start d d' s := by
  obtain ⟨s, hsweep⟩ := numberSections_eq_ok_iff.1 h
  exact ⟨s, Sweep.sweptDocument_of_document hsweep⟩

/-- Numbering the examples is a sweep, and it always succeeds. -/
theorem exists_sweptDocument_numberExamples (d : Document) :
    ∃ count, Sweep.SweptDocument ExampleNumbering.sweep 0 d (numberExamples d) count := by
  obtain ⟨count, hsweep⟩ := numberExamples_eq_iff.1 (rfl : numberExamples d = numberExamples d)
  exact ⟨count, Sweep.sweptDocument_of_document hsweep⟩

/-- Assigning the anchors is a sweep that starts with the given biblio and ends with the result. -/
theorem exists_sweptDocument_of_assignAnchors? (h : assignAnchors? o b d = some (d', b')) :
    ∃ s, Sweep.SweptDocument (AnchorState.sweep o (sectionSlugs d)) ⟨b, [], []⟩ d d' s ∧
      s.biblio = b' := by
  obtain ⟨s, hsweep, hs⟩ := assignAnchors?_eq_some_iff.1 h
  exact ⟨s, Sweep.sweptDocument_of_document hsweep, hs⟩

end Stages

end SpecDoc
