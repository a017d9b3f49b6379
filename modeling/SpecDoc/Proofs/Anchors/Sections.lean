import Mathlib.Data.List.Duplicate
import SpecDoc.Proofs.Anchors.Registered
import SpecDoc.Proofs.Erasure.Stages

/-!
# Anchors of sections

The anchor of a section is made of its name, and the name is the slug of its title, behind the name of
the section around it if there are several such slugs. A slug has no dot, so a name tells what it is
made of.

* `qualified_inj`: names are put together in one way;
* `Place.namesAround`: the names around a place, as they follow from the titles of the sections there;
* `AnchorState.tracks_names`: anchoring gives all sections their names;
* `namesSections_of_assignAnchors?`: which sections share an anchor.
-/

namespace SpecDoc

open Text

/-! ## Names -/

/-- A slug has no dot. -/
theorem dot_notMem_slug (s : String) : '.' ∉ (slug s).toList := notMem_slug (by decide) s

/-- A name behind another one, if there is one. -/
def qualified (parent : Option String) (slug : String) : String :=
  match parent with
  | none => slug
  | some parent => parent ++ "." ++ slug

/-- Texts are divided in one way at their last dot. -/
theorem append_dot_cons_inj {x x' a a' : List Char} (ha : '.' ∉ a) (ha' : '.' ∉ a') :
    x ++ '.' :: a = x' ++ '.' :: a' ↔ x = x' ∧ a = a' := by
  constructor
  · intro h
    rcases List.append_eq_append_iff.1 h with ⟨y, rfl, hy⟩ | ⟨y, rfl, hy⟩
    · cases y with
      | nil => simpa using hy
      | cons c y =>
          rw [List.cons_append, List.cons.injEq] at hy
          exact absurd (hy.2 ▸ by simp) ha
    · cases y with
      | nil => simpa [eq_comm] using hy
      | cons c y =>
          rw [List.cons_append, List.cons.injEq] at hy
          exact absurd (hy.2 ▸ by simp) ha'
  · rintro ⟨rfl, rfl⟩
    rfl

theorem toList_qualified_some (parent slug : String) :
    (qualified (some parent) slug).toList = parent.toList ++ '.' :: slug.toList := by
  simp [qualified]

/-- A name that stands alone has no dot, and one behind another has. -/
theorem qualified_none_ne_some {parent a a' : String} (ha : '.' ∉ a.toList) :
    qualified none a ≠ qualified (some parent) a' := by
  intro h
  have htoList : a.toList = parent.toList ++ '.' :: a'.toList := by
    rw [← toList_qualified_some, ← h, qualified]
  exact ha (by simp [htoList])

/-- Names are put together in one way. -/
theorem qualified_inj {parent parent' : Option String} {a a' : String} (ha : '.' ∉ a.toList)
    (ha' : '.' ∉ a'.toList) :
    qualified parent a = qualified parent' a' ↔ parent = parent' ∧ a = a' := by
  cases parent with
  | none =>
      cases parent' with
      | none => simp [qualified]
      | some p' => exact iff_of_false (qualified_none_ne_some ha) (by simp)
  | some p =>
      cases parent' with
      | none => exact iff_of_false (qualified_none_ne_some ha').symm (by simp)
      | some p' =>
          rw [← String.toList_inj, toList_qualified_some, toList_qualified_some,
            append_dot_cons_inj ha ha', String.toList_inj, String.toList_inj, Option.some.injEq]

/-- The name of a section with a slug, where the sections around it have the given names. -/
def nameWithin (slugs names : List String) (slug : String) : String :=
  qualified (if 1 < slugs.count slug then names.head? else none) slug

/-- The name that anchoring gives is made of the names that it has come across. -/
theorem AnchorState.sectionName_eq (slugs : List String) (s : AnchorState) (slug : String) :
    s.sectionName slugs slug = nameWithin slugs s.around slug := by
  obtain ⟨b, around, digests⟩ := s
  cases around with
  | nil => simp [sectionName, nameWithin, qualified]
  | cons parent around =>
      rw [sectionName, nameWithin]
      dsimp only [List.head?_cons]
      split <;> rfl

/-- Sections are named alike if they have the same slug and stand in sections that are named alike,
provided that a slug that they share counts twice. -/
theorem nameWithin_inj {slugs names names' : List String} {a a' : String} (ha : '.' ∉ a.toList)
    (ha' : '.' ∉ a'.toList) (hcount : a = a' → 1 < slugs.count a) :
    nameWithin slugs names a = nameWithin slugs names' a' ↔
      a = a' ∧ names.head? = names'.head? := by
  rw [nameWithin, nameWithin, qualified_inj ha ha', and_comm, and_congr_right_iff]
  rintro rfl
  rw [if_pos (hcount rfl), if_pos (hcount rfl)]

/-! ## Places -/

/-- The nearest of the sections around a place. -/
def Place.enclosing? (p : Place) : Option Section := p.around.findSome? Node.section?

/-- The names of the sections among nodes of which each one stands in those behind it. -/
def namesAmong (slugs : List String) : List Node → List String
  | [] => []
  | n :: around =>
    match n.section? with
    | none => namesAmong slugs around
    | some sec =>
      nameWithin slugs (namesAmong slugs around) (slug sec.title) :: namesAmong slugs around

/-- The names of the sections around a place, the innermost first. -/
def Place.namesAround (slugs : List String) (p : Place) : List String := namesAmong slugs p.around

/-- What is no section has no name. -/
theorem namesAmong_of_section?_eq_none {slugs : List String} {n : Node} (h : n.section? = none)
    (around : List Node) : namesAmong slugs (n :: around) = namesAmong slugs around := by
  rw [namesAmong, h]

/-- A section has its name in front of those around it. -/
theorem namesAmong_section (slugs : List String) (sec : Section) (span : Option Span)
    (contents around : List Node) :
    namesAmong slugs (.group (.numberedSection sec) span contents :: around)
      = nameWithin slugs (namesAmong slugs around) (slug sec.title) :: namesAmong slugs around :=
  rfl

/-- What anchoring says about what is around a place: the nearest section has the first of the names. -/
def IsNamedAround (o : AnchorOptions) (slugs : List String) (around : List Node) : Prop :=
  (around.findSome? Node.section?).map Section.id
    = (namesAmong slugs around).head?.map fun name => some (o.sectionPrefix ++ name)

/-- What anchoring says about a place: what is around it is named, and a section there has its own name as
an anchor. -/
structure Place.IsNamed (o : AnchorOptions) (slugs : List String) (p : Place) : Prop where
  around : IsNamedAround o slugs p.around
  anchor : ∀ sec, p.node.section? = some sec →
    sec.id = some (o.sectionPrefix ++ nameWithin slugs (p.namesAround slugs) (slug sec.title))

section Around

variable {o : AnchorOptions} {slugs : List String} {around : List Node}

/-- What is no section changes nothing for the places in it. -/
theorem IsNamedAround.cons_of_section?_eq_none (h : IsNamedAround o slugs around) {n : Node}
    (hn : n.section? = none) : IsNamedAround o slugs (n :: around) := by
  rw [IsNamedAround, namesAmong_of_section?_eq_none hn, List.findSome?_cons, hn]
  exact h

/-- A section with its name as an anchor is the nearest one for the places in it. -/
theorem isNamedAround_section {sec : Section} {span : Option Span} {contents : List Node}
    (hid : sec.id = some (o.sectionPrefix ++
      nameWithin slugs (namesAmong slugs around) (slug sec.title))) :
    IsNamedAround o slugs (.group (.numberedSection sec) span contents :: around) :=
  congrArg some hid

end Around

namespace AnchorState

variable {o : AnchorOptions} {slugs : List String} {s s' : AnchorState}

/-! ## What the sweep does with names -/

/-- No leaf is a section. -/
theorem around_anchorLeaf {l l' : Leaf} (h : anchorLeaf o l s = .ok (l', s')) :
    s'.around = s.around := by
  cases l with
  | code c =>
      unfold anchorLeaf at h
      dsimp only at h
      split at h
      · split at h
        · cases h
        · next hcontent =>
          cases h
          exact (contentAnchor?_eq_some hcontent).2.2
      · cases h
        rfl
  | _ =>
      cases h
      rfl

/-- To anchor a rule leaves the sections around it. -/
theorem around_anchorRule {r r' : Rule} {head : Option Node}
    (h : anchorRule r head s = .ok (r', s')) : s'.around = s.around := by
  rcases anchorRule_cases h with ⟨-, -, rfl⟩ | ⟨-, -, id, -, rfl⟩ <;> rfl

/-- What anchoring does with a group: a section gets its name, which then is the innermost one, and for
any other group the names around it stay as they are. -/
theorem anchorGroup_cases {g g' : Group} {span : Option Span} {contents : List Node}
    (h : (sweep o slugs).group g span contents s = .ok (g', s')) :
    (∃ sec, g' = .numberedSection sec ∧
      sec.id = some (o.sectionPrefix ++ nameWithin slugs s.around (slug sec.title)) ∧
      s'.around = nameWithin slugs s.around (slug sec.title) :: s.around) ∨
    ((∀ sec, g' ≠ .numberedSection sec) ∧ s'.around = s.around) := by
  cases g with
  | numberedSection sec =>
      left
      cases h
      exact ⟨_, rfl, by rw [sectionName_eq], by rw [sectionName_eq]⟩
  | definitionTerm name old =>
      right
      obtain ⟨id, -, rfl, rfl⟩ := anchorGroup_definitionTerm_eq_ok h
      exact ⟨by simp, rfl⟩
  | note old =>
      right
      obtain ⟨id, hcontent, rfl⟩ := anchorGroup_note_eq_ok h
      exact ⟨by simp, (contentAnchor?_eq_some hcontent).2.2⟩
  | _ =>
      right
      cases h
      exact ⟨by simp, rfl⟩

/-- Names are left only where a section ends. -/
theorem endGroup_eq_self_of_ne {g : Group} (hg : ∀ sec, g ≠ .numberedSection sec)
    (s : AnchorState) : endGroup g s = s := by
  cases g with
  | numberedSection sec => exact absurd rfl (hg sec)
  | _ => rfl

/-- Whether the names at a place are those of the nodes around it, which have them as anchors. -/
structure NamesPlace (o : AnchorOptions) (slugs : List String) (around : List Node)
    (s : AnchorState) : Prop where
  names : s.around = namesAmong slugs around
  named : IsNamedAround o slugs around

/-- The names at a place are those of a place in a node there that is no section. -/
theorem NamesPlace.cons_of_section?_eq_none {around : List Node}
    (h : NamesPlace o slugs around s) (hs : s'.around = s.around) {n : Node}
    (hn : n.section? = none) : NamesPlace o slugs (n :: around) s' where
  names := by rw [namesAmong_of_section?_eq_none hn, hs, h.names]
  named := h.named.cons_of_section?_eq_none hn

/-- The names of a place in a node that is no section are those of the place behind the node. -/
theorem NamesPlace.of_section?_eq_none {around : List Node} (h : NamesPlace o slugs around s)
    {n : Node} (hn : n.section? = none) (hs : NamesPlace o slugs (n :: around) s') :
    NamesPlace o slugs around s' where
  names := by rw [hs.names, namesAmong_of_section?_eq_none hn]
  named := h.named

/-- Anchoring keeps track of the names, and gives sections theirs. -/
theorem tracks_names (o : AnchorOptions) (slugs : List String) :
    (sweep o slugs).Tracks (NamesPlace o slugs) (Place.IsNamed o slugs) where
  leaf hs hleaf :=
    ⟨⟨hs.named, by simp [Node.section?]⟩, (around_anchorLeaf hleaf).trans hs.names, hs.named⟩
  group := by
    intro around g g' span contents contents' s s' hs hgroup
    rcases anchorGroup_cases hgroup with ⟨sec, rfl, hid, haround⟩ | ⟨hg, haround⟩
    · rw [hs.names] at hid haround
      refine ⟨⟨hs.named, ?_⟩, ?_, isNamedAround_section hid⟩
      · rintro sec' hsec
        cases hsec
        exact hid
      · rw [namesAmong_section, haround]
    · have hsection := Node.section?_group hg span contents'
      exact ⟨⟨hs.named, by simp [hsection]⟩, hs.cons_of_section?_eq_none haround hsection⟩
  endGroup := by
    intro around g span contents s s' hs hend
    by_cases hg : ∃ sec, g = .numberedSection sec
    · obtain ⟨sec, rfl⟩ := hg
      have hnames := hend.names
      rw [namesAmong_section] at hnames
      refine ⟨?_, hs.named⟩
      change s'.around.tail = namesAmong slugs around
      rw [hnames, List.tail_cons]
    · have hne : ∀ sec, g ≠ .numberedSection sec := fun sec heq => hg ⟨sec, heq⟩
      change NamesPlace o slugs around (AnchorState.endGroup g s')
      rw [endGroup_eq_self_of_ne hne]
      exact hs.of_section?_eq_none (Node.section?_group hne span contents) hend
  rule hs hrule :=
    ⟨⟨hs.named, by simp [Node.section?]⟩,
      hs.cons_of_section?_eq_none (around_anchorRule hrule) rfl⟩
  endRule hs hend := hs.of_section?_eq_none rfl hend

end AnchorState

/-- Anchors with a prefix are the same if the names are. -/
theorem prefixed_injective (lead : String) :
    Function.Injective fun name : String => some (lead ++ name) := by
  intro name name' h
  rw [Option.some.injEq, ← String.toList_inj, String.toList_append, String.toList_append] at h
  exact String.toList_inj.1 (List.append_cancel_left h)

/-- Which sections at named places have the same anchor, provided that a slug that they share counts
twice. -/
theorem Place.IsNamed.id_eq_iff {o : AnchorOptions} {slugs : List String} {p q : Place}
    {sec sec' : Section} (hp : p.IsNamed o slugs) (hq : q.IsNamed o slugs)
    (hsec : p.node.section? = some sec) (hsec' : q.node.section? = some sec')
    (hcount : slug sec.title = slug sec'.title → 1 < slugs.count (slug sec.title)) :
    sec.id = sec'.id ↔
      slug sec.title = slug sec'.title ∧
        p.enclosing?.map Section.id = q.enclosing?.map Section.id := by
  have hinj := prefixed_injective o.sectionPrefix
  have haround : p.enclosing?.map Section.id = q.enclosing?.map Section.id ↔
      (p.namesAround slugs).head? = (q.namesAround slugs).head? := by
    rw [show p.enclosing?.map Section.id = _ from hp.around,
      show q.enclosing?.map Section.id = _ from hq.around]
    exact (Option.map_injective hinj).eq_iff
  rw [hp.anchor sec hsec, hq.anchor sec' hsec', haround,
    ← nameWithin_inj (dot_notMem_slug _) (dot_notMem_slug _) hcount]
  exact hinj.eq_iff

/-! ## Documents -/

/-- Anchoring gives the sections at all places of a document their names. -/
theorem isNamed_of_assignAnchors? {o : AnchorOptions} {b b' : Biblio} {d d' : Document}
    (h : assignAnchors? o b d = some (d', b')) :
    ∀ p ∈ d'.places, p.IsNamed o (sectionSlugs d') := by
  rw [sectionSlugs_eq_of_erase_eq (erase_eq_of_assignAnchors? h)]
  obtain ⟨s, hsweep, -⟩ := assignAnchors?_eq_some_iff.1 h
  have hswept := Sweep.swept_of_document hsweep
  exact (Sweep.forall_mem_placesIn_of_swept (AnchorState.tracks_names o _) hswept [] ⟨rfl, rfl⟩).2

/-- The slugs of sections are those of their titles, place by place. -/
theorem sectionSlugs_eq_filterMap (d : Document) :
    sectionSlugs d = d.places.filterMap fun p => p.node.section?.map fun sec => slug sec.title := by
  rw [sectionSlugs_eq_map, Document.sections, Node.sectionsIn, ← Node.map_node_placesIn [],
    List.filterMap_map, List.map_filterMap]
  rfl

/-- A slug that sections at two places share counts twice. -/
theorem one_lt_count_sectionSlugs {d : Document} {p q : Place} {sec sec' : Section}
    (hpq : [p, q].Sublist d.places) (hsec : p.node.section? = some sec)
    (hsec' : q.node.section? = some sec') (hslug : slug sec.title = slug sec'.title) :
    1 < (sectionSlugs d).count (slug sec.title) := by
  have hsublist := hpq.filterMap fun p => p.node.section?.map fun sec => slug sec.title
  rw [← sectionSlugs_eq_filterMap] at hsublist
  simp only [List.filterMap_cons, hsec, hsec', Option.map_some, List.filterMap_nil, ← hslug]
    at hsublist
  exact List.duplicate_iff_two_le_count.1 (List.duplicate_iff_sublist.2 hsublist)

/-- What anchoring says about the sections of a document: all of them have anchors, and two have the same
one exactly if their titles have the same slug and the sections that they stand in, if any, have the same
anchor. So sections with different slugs, or one that stands in a section and one that does not, have
different anchors. -/
structure Document.NamesSections (d : Document) : Prop where
  anchored : ∀ p ∈ d.places, ∀ sec, p.node.section? = some sec → ∃ id, sec.id = some id
  shared : d.places.Pairwise fun p q => ∀ sec sec', p.node.section? = some sec →
    q.node.section? = some sec' →
      (sec.id = sec'.id ↔
        slug sec.title = slug sec'.title ∧
          p.enclosing?.map Section.id = q.enclosing?.map Section.id)
  apart : d.places.Pairwise fun p q => ∀ sec sec', p.node.section? = some sec →
    q.node.section? = some sec' →
      slug sec.title ≠ slug sec'.title ∨ p.enclosing?.isSome ≠ q.enclosing?.isSome →
        sec.id ≠ sec'.id

/-- A document whose places are named has the anchors of its sections from their names. -/
theorem namesSections_of_isNamed {o : AnchorOptions} {d : Document}
    (h : ∀ p ∈ d.places, p.IsNamed o (sectionSlugs d)) : d.NamesSections := by
  have hshared : ∀ {p q : Place}, [p, q].Sublist d.places → ∀ sec sec',
      p.node.section? = some sec → q.node.section? = some sec' →
        (sec.id = sec'.id ↔ slug sec.title = slug sec'.title ∧
          p.enclosing?.map Section.id = q.enclosing?.map Section.id) := by
    intro p q hpq sec sec' hsec hsec'
    have hp := h p (hpq.subset (by simp))
    have hq := h q (hpq.subset (by simp))
    exact hp.id_eq_iff hq hsec hsec' (one_lt_count_sectionSlugs hpq hsec hsec')
  refine ⟨fun p hp sec hsec => ⟨_, (h p hp).anchor sec hsec⟩,
    List.pairwise_iff_forall_sublist.2 hshared, List.pairwise_iff_forall_sublist.2 ?_⟩
  intro p q hpq sec sec' hsec hsec' hapart heq
  obtain ⟨hslug, hid⟩ := (hshared hpq sec sec' hsec hsec').1 heq
  rcases hapart with hne | hne
  · exact hne hslug
  · exact hne (by simpa using congrArg Option.isSome hid)

/-- **Sections with one anchor.** Where anchoring returns, all sections have anchors, and which of them are
the same follows from the slugs of the titles and the sections around them. The document is the one that
was given, but for its anchors. -/
theorem namesSections_of_assignAnchors? {o : AnchorOptions} {b b' : Biblio} {d d' : Document}
    (h : assignAnchors? o b d = some (d', b')) :
    d'.NamesSections ∧ d'.erase .anchor = d.erase .anchor :=
  ⟨namesSections_of_isNamed (isNamed_of_assignAnchors? h), erase_eq_of_assignAnchors? h⟩

/-- A document with sections of one title at different places, two of them in one section. -/
def chaptersDocument : Document :=
  Build.document "Specification"
    [Build.numberedSection none "Objects"
      [Build.numberedSection none "Type Validation" [Build.numberedSection none "Rules" []],
        Build.numberedSection none "Type: Validation" [Build.list ["one"]]],
      Build.numberedSection none "Enums"
        [Build.numberedSection none "Type Validation" [Build.numberedSection none "Rules" []]],
      Build.numberedSection none "Objects" [Build.numberedSection none "Values" []]]

/-- The sections of one title share an anchor where the sections around them do. -/
theorem namesSections_chaptersDocument :
    ∃ d b, assignAnchors? .standard (Biblio.seeded Table.empty) chaptersDocument = some (d, b) ∧
      d.sections.map Section.id
        = [some "sec-Objects", some "sec-Objects.Type-Validation",
          some "sec-Objects.Type-Validation.Rules", some "sec-Objects.Type-Validation",
          some "sec-Enums", some "sec-Enums.Type-Validation",
          some "sec-Enums.Type-Validation.Rules", some "sec-Objects", some "sec-Values"] ∧
      d.NamesSections ∧ d.erase .anchor = chaptersDocument.erase .anchor := by
  have hids : (assignAnchors? .standard (Biblio.seeded Table.empty) chaptersDocument).map
        (fun r => r.1.sections.map Section.id)
      = some [some "sec-Objects", some "sec-Objects.Type-Validation",
          some "sec-Objects.Type-Validation.Rules", some "sec-Objects.Type-Validation",
          some "sec-Enums", some "sec-Enums.Type-Validation",
          some "sec-Enums.Type-Validation.Rules", some "sec-Objects", some "sec-Values"] := by
    decide +kernel
  obtain ⟨⟨d, b⟩, hrun, hsections⟩ := Option.map_eq_some_iff.1 hids
  exact ⟨d, b, hrun, hsections, namesSections_of_assignAnchors? hrun⟩

end SpecDoc
