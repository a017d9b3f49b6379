import SpecDoc.Proofs.Anchors.Sections

/-!
# Anchors of subsections

The name of a subsection is the slug of its title behind the name of the section around it, whether other
headings have this slug or not. The name of a section is made in the same way as soon as there are several
sections of its slug. So a section can get the anchor of a subsection that stands beside it, although the two
have nothing in common but their titles.

* `Place.IsNamedBelow`: what anchoring says about the subsection at a place;
* `section_id_eq_subsection_id_iff`: which section and which subsection share an anchor;
* `not_keepsSubsectionsApart_coercionFiles`: a document in which two of them do.
-/

namespace SpecDoc

open Text

/-! ## Names -/

/-- The name that anchoring gives to a subsection is made of the names that it has come across. -/
theorem AnchorState.subsectionName_eq (s : AnchorState) (slug : String) :
    s.subsectionName slug = qualified s.around.head? slug := by
  obtain ⟨b, around, digests⟩ := s
  cases around <;> rfl

/-- What anchoring says about the subsection at a place: it is named behind the nearest section. -/
structure Place.IsNamedBelow (o : AnchorOptions) (slugs : List String) (p : Place) : Prop where
  around : IsNamedAround o slugs p.around
  anchor : ∀ sub, p.node.subsection? = some sub →
    sub.id = some (o.sectionPrefix ++ qualified (p.namesAround slugs).head? (slug sub.title))

namespace AnchorState

variable {o : AnchorOptions} {slugs : List String} {s s' : AnchorState}

/-- What anchoring does with a group that comes out as a subsection. -/
theorem id_of_anchorGroup_subsection {g : Group} {sub : Subsection} {span : Option Span}
    {contents : List Node}
    (h : (sweep o slugs).group g span contents s = .ok (.subsection sub, s')) :
    sub.id = some (o.sectionPrefix ++ qualified s.around.head? (slug sub.title)) := by
  cases g with
  | subsection sub =>
      cases h
      exact congrArg some (by rw [subsectionName_eq])
  | definitionTerm name old =>
      obtain ⟨_, _, hg, _⟩ := anchorGroup_definitionTerm_eq_ok h
      cases hg
  | note old =>
      obtain ⟨_, _, hg⟩ := anchorGroup_note_eq_ok h
      cases hg
  | _ => cases h

/-- Anchoring gives subsections their names while it keeps track of those of sections. -/
theorem tracks_subsections (o : AnchorOptions) (slugs : List String) :
    (sweep o slugs).Tracks (NamesPlace o slugs) (Place.IsNamedBelow o slugs) where
  leaf := by
    intro around l l' span s s' hs hleaf
    have hnames : Place.IsNamed o slugs ⟨around, .leaf l' span⟩ ∧ NamesPlace o slugs around s' :=
      (tracks_names o slugs).leaf hs hleaf
    exact ⟨⟨hs.named, by simp [Node.subsection?]⟩, hnames.2⟩
  group := by
    intro around g g' span contents contents' s s' hs hgroup
    refine ⟨⟨hs.named, ?_⟩, ((tracks_names o slugs).group hs hgroup).2⟩
    intro sub hsub
    obtain rfl : g' = .subsection sub := Node.eq_of_subsection?_group hsub
    have hid := id_of_anchorGroup_subsection hgroup
    rw [hs.names] at hid
    exact hid
  endGroup := (tracks_names o slugs).endGroup
  rule hs hrule :=
    ⟨⟨hs.named, by simp [Node.subsection?]⟩, ((tracks_names o slugs).rule hs hrule).2⟩
  endRule := (tracks_names o slugs).endRule

end AnchorState

/-! ## Documents -/

/-- Anchoring gives the subsections at all places of a document their names. -/
theorem isNamedBelow_of_assignAnchors? {o : AnchorOptions} {b b' : Biblio} {d d' : Document}
    (h : assignAnchors? o b d = some (d', b')) :
    ∀ p ∈ d'.places, p.IsNamedBelow o (sectionSlugs d') := by
  rw [sectionSlugs_eq_of_erase_eq (erase_eq_of_assignAnchors? h)]
  obtain ⟨s, hsweep, -⟩ := assignAnchors?_eq_some_iff.1 h
  have hswept := Sweep.swept_of_document hsweep
  exact (Sweep.forall_mem_placesIn_of_swept (AnchorState.tracks_subsections o _) hswept []
    ⟨rfl, rfl⟩).2

/-- A section and a subsection at named places have the same anchor iff their names are put together from the same
slugs. -/
theorem Place.IsNamed.id_eq_subsection_id_iff {o : AnchorOptions} {slugs : List String}
    {p q : Place} {sec : Section} {sub : Subsection} (hp : p.IsNamed o slugs)
    (hq : q.IsNamedBelow o slugs) (hsec : p.node.section? = some sec)
    (hsub : q.node.subsection? = some sub) :
    sec.id = sub.id ↔
      slug sec.title = slug sub.title ∧
        (if 1 < slugs.count (slug sec.title) then p.enclosing?.map Section.id else none)
          = q.enclosing?.map Section.id := by
  have hinj := prefixed_injective o.sectionPrefix
  -- The anchors of the sections around the places say as much as their names.
  have haround : (if 1 < slugs.count (slug sec.title) then p.enclosing?.map Section.id else none)
        = q.enclosing?.map Section.id ↔
      (if 1 < slugs.count (slug sec.title) then (p.namesAround slugs).head? else none)
        = (q.namesAround slugs).head? := by
    rw [show p.enclosing?.map Section.id = _ from hp.around,
      show q.enclosing?.map Section.id = _ from hq.around, ← (Option.map_injective hinj).eq_iff]
    split <;> rfl
  rw [hp.anchor sec hsec, hq.anchor sub hsub, haround, hinj.eq_iff, nameWithin,
    qualified_inj (dot_notMem_slug _) (dot_notMem_slug _), and_comm]

/-- Whether no section of a document has the anchor of a subsection. -/
def Document.KeepsSubsectionsApart (d : Document) : Prop :=
  ∀ n ∈ d.descendants, ∀ m ∈ d.descendants, ∀ sec sub, n.section? = some sec →
    m.subsection? = some sub → sec.id ≠ sub.id

/-- **Sections and subsections with one anchor.** In a document that was compiled, a section shares its
anchor with a subsection where their titles have the same slug, and the section that the subsection stands
in, if there is one, has the anchor of the section that the other one is qualified by, if it is. A section is
qualified only if there are several sections of its slug. -/
theorem section_id_eq_subsection_id_iff {lib : Library} {o : CompileOptions} {entry : String}
    {a : Annotated} (h : (compile lib o entry).run = some (.ok a)) :
    ∀ p ∈ a.document.places, ∀ q ∈ a.document.places, ∀ sec sub, p.node.section? = some sec →
      q.node.subsection? = some sub →
        (sec.id = sub.id ↔
          slug sec.title = slug sub.title ∧
            (if 1 < (sectionSlugs a.document).count (slug sec.title) then
              p.enclosing?.map Section.id else none) = q.enclosing?.map Section.id) := by
  obtain ⟨d, d₁, reads, -, -, hanchors⟩ := exists_of_run_eq_ok h
  intro p hp q hq sec sub hsec hsub
  have hp := isNamed_of_assignAnchors? hanchors p hp
  have hq := isNamedBelow_of_assignAnchors? hanchors q hq
  exact hp.id_eq_subsection_id_iff hq hsec hsub

/-- A document with a subsection and a section of one title in one section, and another section of this
title elsewhere. -/
def coercionFiles : List (String × Except ReadFailure String) :=
  [("spec.md", .ok ("# Specification\n\n# Types\n\n**Coercion**\n\nHow values are coerced.\n\n" ++
    "## Coercion\n\nWhen they are.\n\n# Coercion\n"))]

/-- The subsection on coercion shares its anchor with the section beside it, and with no other one. -/
theorem section_id_eq_subsection_id_iff_coercionFiles :
    ∃ a, (compile (Library.ofFiles coercionFiles) .standard "spec.md").run = some (.ok a) ∧
      a.document.descendants.filterMap (fun n => n.subsection?.map Subsection.id)
        = [some "sec-Types.Coercion"] ∧
      a.document.sections.map Section.id
        = [some "sec-Types", some "sec-Types.Coercion", some "sec-Coercion"] ∧
      ∀ p ∈ a.document.places, ∀ q ∈ a.document.places, ∀ sec sub, p.node.section? = some sec →
        q.node.subsection? = some sub →
          (sec.id = sub.id ↔
            slug sec.title = slug sub.title ∧
              (if 1 < (sectionSlugs a.document).count (slug sec.title) then
                p.enclosing?.map Section.id else none) = q.enclosing?.map Section.id) := by
  have hids : (compile (Library.ofFiles coercionFiles) .standard "spec.md").run.map
      (fun r => r.toOption.map fun a =>
        (a.document.descendants.filterMap (fun n => n.subsection?.map Subsection.id),
          a.document.sections.map Section.id))
        = some (some ([some "sec-Types.Coercion"],
          [some "sec-Types", some "sec-Types.Coercion", some "sec-Coercion"])) := by
    decide +kernel
  obtain ⟨r, hrun, hr⟩ := Option.map_eq_some_iff.1 hids
  cases r with
  | error e => cases hr
  | ok a =>
      obtain ⟨hsubsections, hsections⟩ := Prod.mk.inj (Option.some.inj hr)
      exact ⟨a, hrun, hsubsections, hsections, section_id_eq_subsection_id_iff hrun⟩

/-- Anchors do not keep sections and subsections apart. -/
theorem not_keepsSubsectionsApart_coercionFiles :
    ¬∀ (files : List (String × Except ReadFailure String)) (o : CompileOptions) (entry : String)
      (a : Annotated), (compile (Library.ofFiles files) o entry).run = some (.ok a) →
        a.document.KeepsSubsectionsApart := by
  intro hclaim
  have hshared : (compile (Library.ofFiles coercionFiles) .standard "spec.md").run.map
      (fun r => r.toOption.any fun a => a.document.descendants.any fun n =>
        a.document.descendants.any fun m => n.section?.any fun sec =>
          m.subsection?.any fun sub => sec.id == sub.id) = some true := by
    decide +kernel
  obtain ⟨r, hrun, hr⟩ := Option.map_eq_some_iff.1 hshared
  cases r with
  | error e => cases hr
  | ok a =>
      have hapart := hclaim coercionFiles .standard "spec.md" a hrun
      simp only [Except.toOption, Option.any_some, List.any_eq_true, Option.any_eq_true_iff_get,
        beq_iff_eq] at hr
      obtain ⟨n, hn, m, hm, hsec, hsub, hid⟩ := hr
      exact hapart n hn m hm _ _ (Option.some_get hsec).symm (Option.some_get hsub).symm hid

end SpecDoc
