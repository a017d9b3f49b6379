import SpecDoc.Proofs.Erasure
import SpecDoc.Proofs.Numbering

/-!
# Sweeps that annotate

Each stage of an annotation sweeps a document for one annotation. It writes this one and nothing else,
it looks at none of the others, and where it was before it writes what is already there.

* `Sweep.Annotates` says so of a sweep, in terms of what it does at one node;
* `Sweep.erase_eq_of_document`, `Sweep.document_erase` and `Sweep.document_again`: what follows for documents;
* `Sweep.exists_document_of_document`: sweeps for different annotations can be made in any order.
-/

namespace SpecDoc

namespace Sweep

open Node

variable {σ τ ε δ : Type} {w : Sweep σ ε} {v : Sweep τ δ} {a b : Annotation}

/-! ## One node -/

/-- Whether a sweep writes nothing but an annotation. -/
structure Writes (w : Sweep σ ε) (a : Annotation) : Prop where
  leaf : ∀ {l l' : Leaf} {s s' : σ}, w.leaf l s = .ok (l', s') → l'.erase a = l.erase a
  group : ∀ {g g' : Group} {span : Option Span} {contents : List Node} {s s' : σ},
    w.group g span contents s = .ok (g', s') → g'.erase a = g.erase a
  rule : ∀ {r r' : Rule} {head : Option Node} {s s' : σ},
    w.rule r head s = .ok (r', s') → r'.erase a = r.erase a

/-- Whether a sweep neither reads nor writes an annotation: what it does to nodes without the annotation
is what it does to the nodes, without the annotation. -/
structure Ignores (w : Sweep σ ε) (a : Annotation) : Prop where
  leaf : ∀ (l : Leaf) (s : σ),
    w.leaf (l.erase a) s = (w.leaf l s).map fun p => (p.1.erase a, p.2)
  group : ∀ (g : Group) (span : Option Span) (contents : List Node) (s : σ),
    w.group (g.erase a) span (contents.map (erase a)) s
      = (w.group g span contents s).map fun p => (p.1.erase a, p.2)
  endGroup : ∀ (g : Group) (s : σ), w.endGroup (g.erase a) s = w.endGroup g s
  rule : ∀ (r : Rule) (head : Option Node) (s : σ),
    w.rule (r.erase a) (head.map (erase a)) s = (w.rule r head s).map fun p => (p.1.erase a, p.2)

/-- Whether a sweep does not change what it wrote before, even if the nodes below got or lost an
annotation since. -/
structure Settles (w : Sweep σ ε) (a : Annotation) : Prop where
  leaf : ∀ {l l' : Leaf} {s s' : σ}, w.leaf l s = .ok (l', s') → w.leaf l' s = .ok (l', s')
  group : ∀ {g g' : Group} {span : Option Span} {contents contents' : List Node} {s s' : σ},
    w.group g span contents s = .ok (g', s') →
      contents'.map (erase a) = contents.map (erase a) →
        w.group g' span contents' s = .ok (g', s')
  rule : ∀ {r r' : Rule} {head head' : Option Node} {s s' : σ}, w.rule r head s = .ok (r', s') →
    head'.map (erase a) = head.map (erase a) → w.rule r' head' s = .ok (r', s')

/-- Whether a sweep is one for an annotation. -/
structure Annotates (w : Sweep σ ε) (a : Annotation) : Prop where
  writes : w.Writes a
  ignores : ∀ b, b ≠ a → w.Ignores b
  settles : w.Settles a

/-! ## Forests -/

/-- A sweep changes a forest in nothing but its annotation. -/
theorem Swept.map_erase_eq (hw : w.Writes a) {ns ns' : List Node} {s s' : σ}
    (h : Swept w s ns ns' s') : ns'.map (erase a) = ns.map (erase a) := by
  induction h with
  | nil s => rfl
  | leaf hleaf _ ih => simp only [List.map_cons, erase_leaf, hw.leaf hleaf, ih]
  | group hgroup _ _ ihcontents ihns =>
      simp only [List.map_cons, erase_group, hw.group hgroup, ihcontents, ihns]
  | rule hrule _ _ _ ihhead ihbody ihns =>
      rw [← Option.toList_map, ← Option.toList_map] at ihhead
      simp only [List.map_cons, erase_rule, hw.rule hrule, head_eq_of_toList_eq ihhead, ihbody, ihns]

/-- The head of a rule gives the same names after it was swept. -/
theorem Swept.name?_eq (hw : w.Writes a) {head head' : Option Node} {s s' : σ}
    (h : Swept w s head.toList head'.toList s') (r : Rule) : r.name? head' = r.name? head := by
  have heq := h.map_erase_eq hw
  rw [← Option.toList_map, ← Option.toList_map] at heq
  rw [← (relabels_erase a).name?_map, head_eq_of_toList_eq heq, (relabels_erase a).name?_map]

/-- A sweep does the same to a forest without an annotation that it ignores. -/
theorem nodes_map_erase (hw : w.Ignores a) (ns : List Node) (s : σ) :
    w.nodes (ns.map (erase a)) s = (w.nodes ns s).map fun p => (p.1.map (erase a), p.2) := by
  induction ns using forestInduction generalizing s with
  | nil => rfl
  | leaf l span ns ih =>
      simp only [List.map_cons, erase_leaf, nodes, node, hw.leaf]
      cases w.leaf l s with
      | error e => rfl
      | ok p =>
          simp only [Except.map, ih]
          cases w.nodes ns p.2 <;> simp
  | group g span contents ns ihcontents ihns =>
      simp only [List.map_cons, erase_group, nodes, node, hw.group]
      cases w.group g span contents s with
      | error e => rfl
      | ok p =>
          simp only [Except.map, ihcontents, hw.endGroup]
          cases w.nodes contents p.2 with
          | error e => rfl
          | ok q =>
              simp only [Except.map, ihns]
              cases w.nodes ns (w.endGroup p.1 q.2) <;> simp
  | rule r span head body ns ihhead ihbody ihns =>
      simp only [List.map_cons, erase_rule, nodes, node, hw.rule, headNode_eq, Option.toList_map]
      cases w.rule r head s with
      | error e => rfl
      | ok p =>
          simp only [Except.map, ihhead]
          cases w.nodes head.toList p.2 with
          | error e => rfl
          | ok q =>
              simp only [Except.map, ihbody]
              cases w.nodes body q.2 with
              | error e => rfl
              | ok q' =>
                  simp only [Except.map, ihns]
                  cases w.nodes ns q'.2 <;> simp

/-- A sweep of what it wrote before does the same again. -/
theorem Swept.again (hw : w.Annotates a) {ns ns' : List Node} {s s' : σ}
    (h : Swept w s ns ns' s') : Swept w s ns' ns' s' := by
  induction h with
  | nil s => exact .nil s
  | leaf hleaf _ ih => exact .leaf (hw.settles.leaf hleaf) ih
  | group hgroup hcontents _ ihcontents ihns =>
      have hsettled := hw.settles.group hgroup (hcontents.map_erase_eq hw.writes)
      exact .group hsettled ihcontents ihns
  | rule hrule hhead _ _ ihhead ihbody ihns =>
      have heq := hhead.map_erase_eq hw.writes
      rw [← Option.toList_map, ← Option.toList_map] at heq
      exact .rule (hw.settles.rule hrule (head_eq_of_toList_eq heq)) ihhead ihbody ihns

/-! ## Documents -/

variable {d d' d₁ d₂ : Document} {s s' : σ} {t t' : τ}

/-- A sweep changes a document in nothing but its annotation. -/
theorem erase_eq_of_document (hw : w.Writes a) (h : w.document d s = .ok (d', s')) :
    d'.erase a = d.erase a := by
  obtain ⟨htitle, hspan, hcontents⟩ := sweptDocument_of_document h
  rw [Document.erase, Document.erase, htitle, hspan, hcontents.map_erase_eq hw]

/-- A sweep does the same to a document without an annotation that it ignores. -/
theorem document_erase (hw : w.Ignores a) (d : Document) (s : σ) :
    w.document (d.erase a) s = (w.document d s).map fun p => (p.1.erase a, p.2) := by
  rw [document, document, Document.erase, nodes_map_erase hw]
  cases w.nodes d.contents s <;> rfl

/-- A sweep of a document that it went over before does the same again. -/
theorem document_again (hw : w.Annotates a) (h : w.document d s = .ok (d', s')) :
    w.document d' s = .ok (d', s') := by
  have hagain := Swept.again hw (swept_of_document h)
  rw [document, nodes_of_swept hagain]

/-! ### Documents that differ in an annotation -/

/-- A sweep that ignores what two documents differ in fails for both of them or for none. -/
theorem document_eq_error_of_erase_eq (hw : w.Ignores b) (hd : d₂.erase b = d.erase b) {e : ε}
    (h : w.document d s = .error e) : w.document d₂ s = .error e := by
  have hmap := document_erase hw d₂ s
  rw [hd, document_erase hw, h] at hmap
  cases h₂ : w.document d₂ s with
  | error e₂ =>
      rw [h₂] at hmap
      cases hmap
      rfl
  | ok p =>
      rw [h₂] at hmap
      cases hmap

/-- A sweep that ignores what two documents differ in leaves documents that differ in nothing else. -/
theorem exists_document_of_erase_eq (hw : w.Ignores b) (hd : d₂.erase b = d.erase b)
    (h : w.document d s = .ok (d₁, s')) :
    ∃ d₃, w.document d₂ s = .ok (d₃, s') ∧ d₃.erase b = d₁.erase b := by
  have hmap := document_erase hw d₂ s
  rw [hd, document_erase hw, h] at hmap
  cases h₂ : w.document d₂ s with
  | error e =>
      rw [h₂] at hmap
      cases hmap
  | ok p =>
      obtain ⟨d₃, s₃⟩ := p
      rw [h₂] at hmap
      simp only [Except.map, Except.ok.injEq, Prod.mk.injEq] at hmap
      obtain ⟨hd₃, rfl⟩ := hmap
      exact ⟨d₃, rfl, hd₃.symm⟩

/-- What a sweep leaves as it is, it leaves as it is when another annotation is changed. -/
theorem document_fixed (hw : w.Annotates a) (hba : b ≠ a) (hd : d'.erase b = d.erase b)
    (h : w.document d s = .ok (d, s')) : w.document d' s = .ok (d', s') := by
  obtain ⟨d₃, h₃, herase⟩ := exists_document_of_erase_eq (hw.ignores b hba) hd h
  have heq : d₃ = d' :=
    Document.eq_of_erase_eq hba (herase.trans hd.symm) (erase_eq_of_document hw.writes h₃)
  rw [← heq] at h₃ ⊢
  exact h₃

/-- **Sweeps in any order.** Of two sweeps for different annotations, each does after the other what it
does by itself, and both orders end with the same document. -/
theorem exists_document_of_document (hw : w.Annotates a) (hv : v.Annotates b) (hab : a ≠ b)
    (h₁ : w.document d s = .ok (d₁, s')) (h₂ : v.document d t = .ok (d₂, t')) :
    ∃ d₃, v.document d₁ t = .ok (d₃, t') ∧ w.document d₂ s = .ok (d₃, s') := by
  have hd₁ := erase_eq_of_document hw.writes h₁
  have hd₂ := erase_eq_of_document hv.writes h₂
  obtain ⟨x, hx, hxb⟩ := exists_document_of_erase_eq (hw.ignores b hab.symm) hd₂ h₁
  obtain ⟨y, hy, hya⟩ := exists_document_of_erase_eq (hv.ignores a hab) hd₁ h₂
  have hxa := erase_eq_of_document hw.writes hx
  have hyb := erase_eq_of_document hv.writes hy
  -- Without one annotation both are what the other sweep made of the document.
  have hxy : x = y :=
    Document.eq_of_erase_eq hab (hxa.trans hya.symm) (hxb.trans hyb.symm)
  exact ⟨x, hxy ▸ hy, hx⟩

end Sweep

/-! ## The sweeps of an annotation -/

/-- The numbering of sections writes their ids and numbers. -/
theorem NumberingState.writes : sweep.Writes .sectionNumber where
  leaf h := by
    cases h
    rfl
  group := by
    intro g g' span contents s s' h
    cases g with
    | numberedSection sec =>
        rcases numberGroup_cases h with ⟨_, part, heq, -, rfl, -⟩ | ⟨hno, -⟩
        · cases heq
          rfl
        · exact absurd rfl (hno sec)
    | _ =>
        cases h
        rfl
  rule h := by
    cases h
    rfl

/-- The numbering of sections reads their titles and tokens and no annotation but its own. -/
theorem NumberingState.ignores {b : Annotation} (hb : b ≠ .sectionNumber) : sweep.Ignores b where
  leaf l s := rfl
  group g span contents s := by
    change numberGroup (g.erase b) span (contents.map (Node.erase b)) s
      = (numberGroup g span contents s).map _
    cases b with
    | sectionNumber => exact absurd rfl hb
    | _ =>
        cases g with
        | numberedSection sec =>
            simp only [Group.erase, Section.erase, numberGroup]
            cases SectionPart.resolve s.previous sec.override <;> rfl
        | _ => rfl
  endGroup g s := by cases g <;> rfl
  rule r head s := rfl

/-- The numbering of sections gives a section the same id again. -/
theorem NumberingState.settles : sweep.Settles .sectionNumber where
  leaf h := by
    cases h
    rfl
  group := by
    intro g g' span contents contents' s s' h _
    change numberGroup g span contents s = _ at h
    change numberGroup g' span contents' s = _
    cases g with
    | numberedSection sec =>
        unfold numberGroup at h
        dsimp only at h
        split at h
        · cases h
        · next hpart =>
          cases h
          simp only [numberGroup, hpart]
    | _ =>
        cases h
        rfl
  rule h _ := by
    cases h
    rfl

theorem NumberingState.annotates : sweep.Annotates .sectionNumber :=
  ⟨writes, fun _ => ignores, settles⟩

/-- The numbering of examples writes their numbers. -/
theorem ExampleNumbering.writes : sweep.Writes .exampleNumber where
  leaf := by
    intro l l' count count' h
    cases l with
    | code c =>
        change Except.ok (numberLeaf (.code c) count) = _ at h
        unfold numberLeaf at h
        dsimp only at h
        split at h <;> cases h <;> rfl
    | _ =>
        cases h
        rfl
  group h := by
    cases h
    rfl
  rule h := by
    cases h
    rfl

/-- The numbering of examples reads which code is an example and no annotation but its own. -/
theorem ExampleNumbering.ignores {b : Annotation} (hb : b ≠ .exampleNumber) : sweep.Ignores b where
  leaf l count := by
    change Except.ok (numberLeaf (l.erase b) count) = Except.ok _
    cases b with
    | exampleNumber => exact absurd rfl hb
    | _ =>
        cases l with
        | code c =>
            simp only [Leaf.erase, Code.erase, numberLeaf]
            split <;> rfl
        | _ => rfl
  group g span contents count := rfl
  endGroup g count := rfl
  rule r head count := rfl

/-- The numbering of examples gives an example the same number again. -/
theorem ExampleNumbering.settles : sweep.Settles .exampleNumber where
  leaf := by
    intro l l' count count' h
    cases l with
    | code c =>
        change Except.ok (numberLeaf (.code c) count) = _ at h
        change Except.ok (numberLeaf l' count) = _
        unfold numberLeaf at h
        dsimp only at h
        split at h
        · next hexample =>
          cases h
          simp only [numberLeaf, if_pos hexample]
        · next hexample =>
          cases h
          simp only [numberLeaf, if_neg hexample]
    | _ =>
        cases h
        rfl
  group h _ := by
    cases h
    rfl
  rule h _ := by
    cases h
    rfl

theorem ExampleNumbering.annotates : sweep.Annotates .exampleNumber :=
  ⟨writes, fun _ => ignores, settles⟩

namespace AnchorState

variable (o : AnchorOptions) (slugs : List String)

/-- Anchoring writes ids. -/
theorem writes : (sweep o slugs).Writes .anchor where
  leaf := by
    intro l l' s s' h
    change anchorLeaf o l s = _ at h
    cases l with
    | code c =>
        unfold anchorLeaf at h
        dsimp only at h
        split at h
        · split at h
          · cases h
          · cases h
            rfl
        · cases h
          rfl
    | _ =>
        cases h
        rfl
  group := by
    intro g g' span contents s s' h
    cases g with
    | definitionTerm name old =>
        obtain ⟨id, -, rfl, rfl⟩ := anchorGroup_definitionTerm_eq_ok h
        rfl
    | note old =>
        obtain ⟨id, -, rfl⟩ := anchorGroup_note_eq_ok h
        rfl
    | _ =>
        cases h
        rfl
  rule := by
    intro r r' head s s' h
    change anchorRule r head s = _ at h
    unfold anchorRule at h
    split at h
    · cases h
      rfl
    · cases r <;> cases h <;> rfl

/-- Anchoring reads titles, names, codes and the texts of nodes. -/
theorem ignores {b : Annotation} (hb : b ≠ .anchor) : (sweep o slugs).Ignores b where
  leaf l s := by
    change anchorLeaf o (l.erase b) s = (anchorLeaf o l s).map _
    cases b with
    | anchor => exact absurd rfl hb
    | _ =>
        cases l with
        | code c =>
            simp only [Leaf.erase, Code.erase, anchorLeaf]
            split
            · cases contentAnchor? o "example-" (ContentHash.normalizeCode c.text) s <;> rfl
            · rfl
        | _ => rfl
  group g span contents s := by
    change anchorGroup o slugs (g.erase b) span (contents.map (Node.erase b)) s
      = (anchorGroup o slugs g span contents s).map _
    have htext := (Node.relabels_erase b).plainText_map contents
    cases b with
    | anchor => exact absurd rfl hb
    | _ =>
        cases g with
        | definitionTerm name id =>
            simp only [Group.erase, Annotation.eraseId, anchorGroup, htext]
            split <;> rfl
        | note id =>
            simp only [Group.erase, Annotation.eraseId, anchorGroup, htext]
            split <;> rfl
        | _ => rfl
  endGroup g s := by cases g <;> rfl
  rule r head s := by
    change anchorRule (r.erase b) (head.map (Node.erase b)) s = (anchorRule r head s).map _
    unfold anchorRule
    rw [(Node.relabels_erase b).name?_map, Rule.name?_erase]
    cases b with
    | anchor => exact absurd rfl hb
    | _ => cases r.name? head <;> cases r <;> rfl

/-- Anchoring gives a node the same id again. -/
theorem settles : (sweep o slugs).Settles .anchor where
  leaf := by
    intro l l' s s' h
    change anchorLeaf o l s = _ at h
    change anchorLeaf o l' s = _
    cases l with
    | code c =>
        unfold anchorLeaf at h
        dsimp only at h
        split at h
        · next hexample =>
          split at h
          · cases h
          · next hcontent =>
            cases h
            simp only [anchorLeaf, if_pos hexample, hcontent]
        · next hexample =>
          cases h
          simp only [anchorLeaf, if_neg hexample]
    | _ =>
        cases h
        rfl
  group := by
    intro g g' span contents contents' s s' h heq
    change anchorGroup o slugs g' span contents' s = _
    have htext := Node.plainText_eq_of_map_erase_eq heq
    cases g with
    | definitionTerm name old =>
        obtain ⟨id, hid, rfl, rfl⟩ := anchorGroup_definitionTerm_eq_ok h
        simp only [anchorGroup, htext, hid]
    | note old =>
        obtain ⟨id, hcontent, rfl⟩ := anchorGroup_note_eq_ok h
        simp only [anchorGroup, htext, hcontent]
    | _ =>
        cases h
        rfl
  rule := by
    intro r r' head head' s s' h heq
    have hhead : ∀ r : Rule, r.name? head' = r.name? head := by
      intro r
      rw [← (Node.relabels_erase .anchor).name?_map, heq, (Node.relabels_erase .anchor).name?_map]
    change anchorRule r head s = _ at h
    change anchorRule r' head' s = _
    unfold anchorRule at h ⊢
    rw [hhead]
    cases hname : r.name? head with
    | none =>
        rw [hname] at h
        cases h
        rw [hname]
    | some name =>
        rw [hname] at h
        have hkind : r'.kind = r.kind := by cases r <;> cases h <;> rfl
        rw [Rule.name?_eq_of_kind hkind, hname]
        cases r <;> cases h <;> rfl

theorem annotates : (sweep o slugs).Annotates .anchor :=
  ⟨writes o slugs, fun _ => ignores o slugs, settles o slugs⟩

end AnchorState

end SpecDoc
