import SpecDoc.Proofs.Anchors.Hashed
import SpecDoc.Proofs.Anchors.Subsections
import SpecDoc.Proofs.Anchors.Terms
import SpecDoc.Proofs.Annotated
import SpecDoc.Proofs.Outline.Fits
import SpecDoc.Proofs.Text.Margins

/-!
# What an outline shows of a compiled document

Files are put together and annotated after they were read. The nodes still fit into an outline then, and
what the stages write fits, too: numbers of sections are digits and capital letters with points between
them, and ids are made of slugs.

* `Library.everywhere_fitsOutline_of_resolve`: files that are put together;
* `Node.fitsOutline_erase`: whether a node fits does not depend on annotations;
* `everywhere_numberOnLine_of_numberSections` and `idOnLine_of_assignAnchors?`: what the stages write;
* `Node.IsShowable` and `isShowable_of_compile`: what is true of all nodes in the end.
-/

namespace SpecDoc

open Node Text

/-! ## Files that are put together -/

/-- Hidden nodes are no imports, so they expand to themselves or to nodes like them. -/
theorem Expands.isHidden {load : Path → Document → Prop} {path : Path} {ns ns' : List Node}
    (h : Expands load path ns ns') (hns : ∀ n ∈ ns, n.kind.isHidden = true) :
    ∀ n ∈ ns', n.kind.isHidden = true := by
  induction h with
  | nil path => exact hns
  | importLink _ _ _ _ _ =>
      have hlink := hns _ List.mem_cons_self
      cases hlink
  | leaf _ _ ih =>
      obtain ⟨hl, hns⟩ := List.forall_mem_cons.1 hns
      exact List.forall_mem_cons.2 ⟨hl, ih hns⟩
  | group _ _ _ ih =>
      obtain ⟨hg, hns⟩ := List.forall_mem_cons.1 hns
      exact List.forall_mem_cons.2 ⟨hg, ih hns⟩
  | rule _ _ _ _ _ ih =>
      obtain ⟨hr, hns⟩ := List.forall_mem_cons.1 hns
      exact List.forall_mem_cons.2 ⟨hr, ih hns⟩

/-- A group fits into an outline when the imports below it give way. -/
theorem Expands.fitsOutline_group {load : Path → Document → Prop} {path : Path} {g : Group}
    {span : Option Span} {contents contents' : List Node}
    (hcontents : Expands load path contents contents')
    (h : FitsOutline (.group g span contents)) : FitsOutline (.group g span contents') where
  not_document := h.not_document
  hides hhidden := hcontents.isHidden (h.hides hhidden)
  label hshown _ := h.label hshown (Node.isImport_group g span contents)
  lang := h.lang

/-- A rule, which is never hidden, fits into an outline when the imports below it give way. -/
theorem Node.FitsOutline.of_rule {r : Rule} {span : Option Span} {head : Option Node}
    {body : List Node} (h : FitsOutline (.rule r span head body)) (body' : List Node) :
    FitsOutline (.rule r span head body') where
  not_document := h.not_document
  hides hhidden := by cases r <;> cases hhidden
  label hshown _ := h.label hshown (Node.isImport_rule r span head body)
  lang := h.lang

/-- All nodes of a document that was resolved fit into an outline. -/
theorem Library.everywhere_fitsOutline_of_resolve {lib : Library} {c : Cancellation} {entry : String}
    {d : Document} {reads : ℕ} (h : lib.resolve c entry = some (.ok d, reads)) :
    Everywhere FitsOutline d.contents := by
  refine Library.everywhere_of_resolve ?_ ?_ ?_ h
  · exact Document.everywhere_fitsOutline_of_parse
  · exact fun hcontents hg => hcontents.fitsOutline_group hg
  · exact fun hr => hr.of_rule _

/-- The title of a document that was resolved is on one line. -/
theorem Library.newline_notMem_title_of_resolve {lib : Library} {c : Cancellation} {entry : String}
    {d : Document} {reads : ℕ} (h : lib.resolve c entry = some (.ok d, reads)) :
    ∀ title, d.title = some title → '\n' ∉ title.toList := by
  obtain ⟨d₀, ⟨source, -, hparse⟩, -, htitle, -⟩ := Library.expands_of_resolve h
  rw [htitle]
  exact Document.newline_notMem_title_of_parse hparse

/-! ## What does not depend on annotations -/

namespace Node

/-- What is asked of a node that fits into an outline depends on kinds and on what it is called. -/
theorem FitsOutline.congr {n n' : Node} (h : n.FitsOutline) (hkind : n'.kind = n.kind)
    (hlabel : n'.label? = n.label?) (hchildren : n'.children.map kind = n.children.map kind) :
    n'.FitsOutline where
  not_document := by
    rw [hkind]
    exact h.not_document
  hides hhidden := by
    rw [hkind] at hhidden
    have hkinds : ∀ k ∈ n.children.map kind, k.isHidden = true :=
      List.forall_mem_map.2 (h.hides hhidden)
    rw [← hchildren] at hkinds
    exact List.forall_mem_map.1 hkinds
  label hshown himport := by
    rw [hkind] at hshown
    rw [isImport, hkind] at himport
    rw [hlabel]
    exact h.label hshown himport
  lang hcode := by
    rw [hkind] at hcode
    rw [hlabel]
    exact h.lang hcode

/-- Whether a node fits into an outline does not depend on annotations. -/
theorem fitsOutline_erase (a : Annotation) (n : Node) : (n.erase a).FitsOutline ↔ n.FitsOutline := by
  have hchildren : (n.erase a).children.map kind = n.children.map kind := by
    rw [children_erase, List.map_map]
    exact List.map_congr_left fun m _ => kind_erase a m
  constructor
  · exact fun h => h.congr (kind_erase a n).symm (label?_erase a n).symm hchildren.symm
  · exact fun h => h.congr (kind_erase a n) (label?_erase a n) hchildren

end Node

/-! ## Numbers -/

/-- A shown id is on one line. -/
theorem SectionId.newline_notMem_dotted {id : SectionId} (hid : id.WellFormed) :
    '\n' ∉ id.dotted.toList := by
  rw [SectionId.dotted, String.toList_intercalate, List.map_map, intercalate_eq_join]
  refine not_mem_join (by decide) ?_
  intro part hpart
  obtain ⟨p, hp, rfl⟩ := List.mem_map.1 hpart
  exact mt (SectionPart.isDigit_or_isUpper_of_mem_toString (hid p hp)) (by decide)

/-- A section whose number, if it has one, is on one line. -/
def Node.NumberOnLine (n : Node) : Prop :=
  ∀ sec, n.section? = some sec → ∀ number, sec.number = some number → '\n' ∉ number.toList

/-- The number of a section is no number of an example, and no anchor. -/
theorem Node.numberOnLine_erase {a : Annotation} (ha : a ≠ .sectionNumber) (n : Node) :
    (n.erase a).NumberOnLine ↔ n.NumberOnLine := by
  rw [NumberOnLine, NumberOnLine, Node.section?_erase]
  have hnumber : ∀ sec : Section, (sec.erase a).number = sec.number := by
    intro sec
    cases a with
    | sectionNumber => exact absurd rfl ha
    | _ => rfl
  simp [hnumber]

/-- The numbers of numbered sections are on one line. -/
theorem everywhere_numberOnLine_of_numberSections {d d' : Document}
    (h : numberSections d = .ok d') : Everywhere NumberOnLine d'.contents := by
  obtain ⟨s, hswept⟩ := exists_sweptDocument_of_numberSections h
  obtain ⟨last, -, -, hnumbered⟩ := numbered_of_swept hswept.contents [] none [] rfl (by simp)
  have hshown := hnumbered.shown (by simp [SectionId.WellFormed])
  intro n hn sec hsec number hnumber
  obtain ⟨hwf, -, hdotted⟩ := hshown sec (List.mem_filterMap.2 ⟨n, hn, hsec⟩)
  rw [hdotted, Option.some.injEq] at hnumber
  rw [← hnumber]
  exact SectionId.newline_notMem_dotted hwf

/-! ## Ids -/

/-- A slug is on one line. -/
theorem newline_notMem_slug (s : String) : '\n' ∉ (slug s).toList := notMem_slug (by decide) s

/-- A name behind another one is on one line if the other one is. -/
theorem newline_notMem_qualified {parent : Option String} {name : String}
    (hparent : ∀ p, parent = some p → '\n' ∉ p.toList) (hname : '\n' ∉ name.toList) :
    '\n' ∉ (qualified parent name).toList := by
  cases parent with
  | none => exact hname
  | some p =>
      rw [toList_qualified_some, List.mem_append, List.mem_cons, not_or, not_or]
      exact ⟨hparent p rfl, by decide, hname⟩

/-- The name of a section is on one line if those of the sections around it are. -/
theorem newline_notMem_nameWithin {slugs names : List String}
    (hnames : ∀ name ∈ names, '\n' ∉ name.toList) (title : String) :
    '\n' ∉ (nameWithin slugs names (slug title)).toList := by
  apply newline_notMem_qualified
  · intro parent hparent
    split at hparent
    · exact hnames parent (List.mem_of_mem_head? hparent)
    · cases hparent
  · exact newline_notMem_slug title

/-- The names of all sections around a place are on one line. -/
theorem newline_notMem_namesAmong (slugs : List String) (around : List Node) :
    ∀ name ∈ namesAmong slugs around, '\n' ∉ name.toList := by
  induction around with
  | nil => simp [namesAmong]
  | cons n around ih =>
      rw [namesAmong]
      split
      · exact ih
      · exact List.forall_mem_cons.2 ⟨newline_notMem_nameWithin ih _, ih⟩

/-- The id of a node that is no part of a heading is on one line. -/
def Node.IdOnLine (n : Node) : Prop :=
  n.section? = none → n.subsection? = none → ∀ id, n.id? = some id → '\n' ∉ id.toList

namespace AnchorState

/-- The anchor of a term is on one line. -/
theorem newline_notMem_termAnchor {b : Biblio} {term id : String} (h : termAnchor? b term = some id) :
    '\n' ∉ id.toList :=
  (isLed_of_termAnchor? h).notMem (by decide) (by decide)

/-- The anchor of a content is on one line if its lead is a slug. -/
theorem newline_notMem_contentAnchor {o : AnchorOptions} {lead normalized id : String}
    {s s' : AnchorState} (hlead : ∀ c ∈ lead.toList, isSlugChar c = true)
    (h : contentAnchor? o lead normalized s = some (id, s')) : '\n' ∉ id.toList :=
  (isLed_of_contentAnchor? hlead h).notMem (by decide) (mt (hlead '\n') (by decide))

/-- The anchor of a rule is a slug, with brackets if it is an algorithm. -/
theorem newline_notMem_of_anchorRule {r r' : Rule} {head : Option Node} {s s' : AnchorState}
    (h : anchorRule r head s = .ok (r', s')) (hno : r.id? = none) :
    ∀ id, r'.id? = some id → '\n' ∉ id.toList := by
  unfold anchorRule at h
  cases hname : r.name? head with
  | none =>
      rw [hname] at h
      cases h
      simp [hno]
  | some name =>
      rw [hname] at h
      have hslug := newline_notMem_slug name
      cases r with
      | algorithm id =>
          cases h
          rintro _ ⟨⟩
          rw [String.toList_append, List.mem_append, not_or]
          exact ⟨hslug, by decide⟩
      | production defType id =>
          cases h
          rintro _ ⟨⟩
          exact hslug
      | oneOfProduction defType id =>
          cases h
          rintro _ ⟨⟩
          exact hslug

/-- Anchoring gives nodes that are no parts of headings ids on one line. -/
theorem establishes_idOnLine (o : AnchorOptions) (slugs : List String) :
    (sweep o slugs).Establishes Node.IsCounted Node.IdOnLine where
  names := (establishes o slugs).names
  leaf := by
    intro l l' span s s' h hl _ _ id hid
    cases l with
    | code c =>
        rcases anchorLeaf_code_cases h with ⟨-, id', hcontent, rfl⟩ | ⟨-, rfl⟩
        · cases hid
          exact newline_notMem_contentAnchor (List.all_eq_true.1 (by decide)) hcontent
        · rw [hl.id?_eq_none] at hid
          cases hid
    | _ =>
        cases h
        cases hid
  group := by
    intro g g' span contents contents' s s' h hg hsection hsubsection id hid
    cases g with
    | numberedSection sec =>
        cases h
        cases hsection
    | subsection sub =>
        cases h
        cases hsubsection
    | definitionTerm name old =>
        obtain ⟨id', hterm, rfl, rfl⟩ := anchorGroup_definitionTerm_eq_ok h
        cases hid
        exact newline_notMem_termAnchor hterm
    | note old =>
        obtain ⟨id', hcontent, rfl⟩ := anchorGroup_note_eq_ok h
        cases hid
        exact newline_notMem_contentAnchor (List.all_eq_true.1 (by decide)) hcontent
    | _ =>
        cases h
        cases hid
  rule := by
    intro r r' span head head' body body' s s' h _ hr _ _ id hid
    exact newline_notMem_of_anchorRule h hr.1 id hid

end AnchorState

/-- All ids of an anchored document are on one line if the prefix of those of sections is. -/
theorem idOnLine_of_assignAnchors? {o : AnchorOptions} {b b' : Biblio} {d d' : Document}
    (h : assignAnchors? o b d = some (d', b')) (hlead : '\n' ∉ o.sectionPrefix.toList)
    (hd : Everywhere Node.IsCounted d.contents) :
    Everywhere (fun n => ∀ id, n.id? = some id → '\n' ∉ id.toList) d'.contents := by
  have hled : ∀ name : String, '\n' ∉ name.toList → '\n' ∉ (o.sectionPrefix ++ name).toList := by
    intro name hname
    rw [String.toList_append, List.mem_append, not_or]
    exact ⟨hlead, hname⟩
  obtain ⟨s, hswept, -⟩ := exists_sweptDocument_of_assignAnchors? h
  have hothers := Sweep.everywhere_of_swept (AnchorState.establishes_idOnLine o _) hswept.contents hd
  intro n hn id hid
  obtain ⟨p, hp, rfl⟩ := (Node.mem_preorder_iff []).1 hn
  have hnames := newline_notMem_namesAmong (sectionSlugs d') p.around
  cases hsection : p.node.section? with
  | some sec =>
      rw [Node.id?_of_section? hsection, (isNamed_of_assignAnchors? h p hp).anchor sec hsection,
        Option.some.injEq] at hid
      subst hid
      exact hled _ (newline_notMem_nameWithin hnames _)
  | none =>
      cases hsubsection : p.node.subsection? with
      | some sub =>
          rw [Node.id?_of_subsection? hsubsection,
            (isNamedBelow_of_assignAnchors? h p hp).anchor sub hsubsection, Option.some.injEq] at hid
          subst hid
          refine hled _ (newline_notMem_qualified ?_ (newline_notMem_slug _))
          exact fun parent hparent => hnames parent (List.mem_of_mem_head? hparent)
      | none => exact hothers p.node hn hsection hsubsection id hid

/-! ## Compiled documents -/

/-- A node that an outline can show. All that is shown of it is on one line, and if it has no id, it is
called by a single word, if by anything. Below a node that is hidden all nodes are. -/
structure Node.IsShowable (n : Node) : Prop where
  not_document : n.kind ≠ .document
  hides : n.kind.isHidden = true → ∀ m ∈ n.children, m.kind.isHidden = true
  number : ∀ number, n.outlineNumber? = some number → '\n' ∉ number.toList
  label : n.kind.isHidden = false → ∀ label, n.label? = some label → '\n' ∉ label.toList
  id : ∀ id, n.id? = some id → '\n' ∉ id.toList
  plain : n.kind.isHidden = false → n.id? = none →
    n.outlineNumber? = none ∧ ∀ label, n.label? = some label → Markup.IsWord label.toList

/-- The number that is shown of a node is that of a section or that of an example. -/
theorem Node.NumberOnLine.outlineNumber? {n : Node} (h : n.NumberOnLine) :
    ∀ number, n.outlineNumber? = some number → '\n' ∉ number.toList := by
  intro number hnumber
  cases n with
  | leaf l span =>
      cases l with
      | code c =>
          obtain ⟨k, -, rfl⟩ := Option.map_eq_some_iff.1 hnumber
          exact mt isDigit_of_mem_repr (by decide)
      | _ => cases hnumber
  | group g span contents =>
      cases g with
      | numberedSection sec => exact h sec rfl number hnumber
      | _ => cases hnumber
  | rule r span head body => cases hnumber

/-- An annotated node without an id has no number, and only code can be called by something then. -/
theorem Node.IsAnnotated.plain {n : Node} (h : n.IsAnnotated) (hfits : n.FitsOutline)
    (hshown : n.kind.isHidden = false) (hid : n.id? = none) :
    n.outlineNumber? = none ∧ ∀ label, n.label? = some label → Markup.IsWord label.toList := by
  cases n with
  | leaf l span =>
      cases l with
      | importLink raw => exact h.elim
      | code c =>
          refine ⟨?_, hfits.lang rfl⟩
          have hid : c.id = none := hid
          change if c.isExample then c.number.isSome ∧ c.id.isSome else c.number = none ∧ c.id = none at h
          split at h
          · rw [hid] at h
            cases h.2
          · rw [Node.outlineNumber?, h.1]
            rfl
      | _ => cases hshown
  | group g span contents =>
      cases g with
      | document title => exact absurd rfl hfits.not_document
      | numberedSection sec =>
          have hsome : sec.id.isSome := h.2.2
          rw [show sec.id = none from hid] at hsome
          cases hsome
      | subsection sub =>
          have hsome : sub.id.isSome := h
          rw [show sub.id = none from hid] at hsome
          cases hsome
      | definitionTerm name id =>
          obtain rfl : id = none := hid
          cases h
      | note id =>
          obtain rfl : id = none := hid
          cases h
      | link url => cases hshown
      | _ => exact ⟨rfl, nofun⟩
  | rule r span head body =>
      have hsome : r.id?.isSome := h
      rw [show r.id? = none from hid] at hsome
      cases hsome

/-- An annotated node is no import. -/
theorem Node.IsAnnotated.isImport {n : Node} (h : n.IsAnnotated) : n.isImport = false := by
  cases n with
  | leaf l span =>
      cases l with
      | importLink raw => exact h.elim
      | _ => rfl
  | group g span contents => exact isImport_group g span contents
  | rule r span head body => exact isImport_rule r span head body

/-- What an outline can show of a document: its title, which is on one line, and its nodes. -/
structure Document.IsShowable (d : Document) : Prop where
  title : ∀ title, d.title = some title → '\n' ∉ title.toList
  nodes : Everywhere Node.IsShowable d.contents

/-- The node at a place of a document that an outline can show can be shown. -/
theorem Document.IsShowable.node {d : Document} (h : d.IsShowable) {p : Place} (hp : p ∈ d.places) :
    p.node.IsShowable := h.nodes p.node ((Node.mem_preorder_iff []).2 ⟨p, hp, rfl⟩)

/-- An outline can show a document that was compiled. -/
theorem isShowable_of_compile {lib : Library} {o : CompileOptions} {entry : String} {a : Annotated}
    (hlead : '\n' ∉ o.annotate.anchors.sectionPrefix.toList)
    (h : (compile lib o entry).run = some (.ok a)) : a.document.IsShowable := by
  obtain ⟨d, d₁, reads, hresolve, hnumber, hanchors⟩ := exists_of_run_eq_ok h
  obtain ⟨htitle₁, hsectioned⟩ := isSectioned_of_numberSections hnumber (isResolved_of_resolve hresolve)
  obtain ⟨htitle₂, hcounted⟩ := isCounted_numberExamples hsectioned
  obtain ⟨htitle₃, hannotated⟩ := isAnnotated_of_assignAnchors? hanchors hcounted
  -- What was true before a stage remains true unless it depends on what the stage writes.
  have hfits : Everywhere FitsOutline a.document.contents := by
    have hresolved := Library.everywhere_fitsOutline_of_resolve hresolve
    have hnumbered := everywhere_of_erase_eq (fitsOutline_erase _)
      (erase_eq_of_numberSections hnumber) hresolved
    have hexamples := everywhere_of_erase_eq (fitsOutline_erase _) (erase_numberExamples d₁) hnumbered
    exact everywhere_of_erase_eq (fitsOutline_erase _) (erase_eq_of_assignAnchors? hanchors) hexamples
  have hnumbers : Everywhere NumberOnLine a.document.contents := by
    have hnumbered := everywhere_numberOnLine_of_numberSections hnumber
    have hexamples := everywhere_of_erase_eq (numberOnLine_erase (by simp)) (erase_numberExamples d₁)
      hnumbered
    exact everywhere_of_erase_eq (numberOnLine_erase (by simp)) (erase_eq_of_assignAnchors? hanchors)
      hexamples
  have hids := idOnLine_of_assignAnchors? hanchors hlead hcounted
  constructor
  · rw [htitle₃, htitle₂, htitle₁]
    exact Library.newline_notMem_title_of_resolve hresolve
  · intro n hn
    have hn' := hannotated n hn
    exact
      { not_document := (hfits n hn).not_document
        hides := (hfits n hn).hides
        number := (hnumbers n hn).outlineNumber?
        label := fun hshown => (hfits n hn).label hshown hn'.isImport
        id := hids n hn
        plain := hn'.plain (hfits n hn) }

end SpecDoc
