import SpecDoc.Annotation.Numbering
import SpecDoc.Build
import SpecDoc.Proofs.Place
import SpecDoc.Proofs.SectionId.Ascends
import SpecDoc.Proofs.Sweep

/-!
# Numbered documents

Numbering gives every section the id of the section around it and one part more, and the ids increase
in document order.

* `Numbered` says by rules what it means that nodes are numbered, without the state of the numbering;
* `numbered_of_swept`: the numbering makes nodes numbered;
* `Numbered.ascends`: the ids of numbered nodes increase;
* `wellNumbered_of_numberSections`: what holds of a whole document.
-/

namespace SpecDoc

open SectionPart

/-! ## Parts -/

/-- Two parts of one kind are compared. -/
theorem compare?_of_objection? {p q : SectionPart} (hkind : p.isLetters = q.isLetters)
    (h : objection? p q = none) : q.compare? p = some .gt := by
  rw [objection?_of_kind hkind] at h
  by_contra hgt
  rw [if_neg hgt] at h
  cases h

/-- A part without objection comes after the part before it. -/
theorem before_of_objection? {p q : SectionPart} (hp : p.WellFormed) (hq : q.WellFormed)
    (h : objection? p q = none) : Before p q := by
  cases p with
  | number m =>
      cases q with
      | letters t => trivial
      | number n => exact before_of_compare? hp hq (compare?_of_objection? rfl h)
  | letters s =>
      cases q with
      | number n => cases h
      | letters t => exact before_of_compare? hp hq (compare?_of_objection? rfl h)

/-- The part that a token asks for is well-formed. -/
theorem wellFormed_of_ofToken {token : String} {part : SectionPart}
    (h : ofToken token = .ok part) : part.WellFormed := by
  unfold ofToken at h
  dsimp only at h
  split at h
  · next hparse =>
    cases h
    exact wellFormed_of_parse? hparse
  · split at h <;> cases h

/-- The part of a section is well-formed and comes after that of the section before it. -/
theorem before_of_resolve {previous : Option SectionPart} {token : Option String}
    {part : SectionPart} (h : resolve previous token = .ok part)
    (hprevious : ∀ p ∈ previous, p.WellFormed) :
    part.WellFormed ∧ ∀ p ∈ previous, Before p part := by
  cases token with
  | none =>
      unfold resolve at h
      dsimp only at h
      split at h
      · next hauto =>
        cases h
        cases previous with
        | none =>
            cases hauto
            exact ⟨trivial, by simp⟩
        | some p =>
            obtain ⟨hwf, hbefore⟩ := before_next? (hprevious p rfl) hauto
            exact ⟨hwf, by simpa using hbefore⟩
      · cases h
  | some token =>
      unfold resolve at h
      dsimp only at h
      cases htoken : ofToken token with
      | error problem =>
          rw [htoken] at h
          cases h
      | ok q =>
          rw [htoken] at h
          have hq := wellFormed_of_ofToken htoken
          cases previous with
          | none =>
              cases h
              exact ⟨hq, by simp⟩
          | some p =>
              dsimp only at h
              split at h
              · next hobjection =>
                cases h
                refine ⟨hq, ?_⟩
                simpa using before_of_objection? (hprevious p rfl) hq hobjection
              · cases h

/-! ## Numbered nodes -/

/-- `Numbered id last ns last'`: the nodes `ns` are numbered. They stand in the section with the id `id`
behind a section whose last part is `last`, if there is one, and behind them it is `last'`. -/
inductive Numbered : SectionId → Option SectionPart → List Node → Option SectionPart → Prop where
  | nil (id : SectionId) (last : Option SectionPart) : Numbered id last [] last
  | leaf {id : SectionId} {last last' : Option SectionPart} {l : Leaf} {span : Option Span}
      {ns : List Node} (hns : Numbered id last ns last') :
      Numbered id last (.leaf l span :: ns) last'
  /-- A section opens a level of its own for its contents. -/
  | numberedSection {id : SectionId} {last inner last' : Option SectionPart} {sec : Section}
      {part : SectionPart} {span : Option Span} {contents ns : List Node}
      (hpart : part.WellFormed) (hlast : ∀ p ∈ last, Before p part)
      (hid : sec.secId = id ++ [part]) (hnumber : sec.number = some sec.secId.dotted)
      (hcontents : Numbered sec.secId none contents inner)
      (hns : Numbered id (some part) ns last') :
      Numbered id last (.group (.numberedSection sec) span contents :: ns) last'
  /-- The contents of any other group belong to the level of the group. -/
  | group {id : SectionId} {last mid last' : Option SectionPart} {g : Group}
      {span : Option Span} {contents ns : List Node}
      (hg : ∀ sec, g ≠ .numberedSection sec) (hid : ∀ sub, g = .subsection sub → sub.secId = id)
      (hcontents : Numbered id last contents mid) (hns : Numbered id mid ns last') :
      Numbered id last (.group g span contents :: ns) last'
  | rule {id : SectionId} {last mid mid' last' : Option SectionPart} {r : Rule}
      {span : Option Span} {head : Option Node} {body ns : List Node}
      (hhead : Numbered id last head.toList mid) (hbody : Numbered id mid body mid')
      (hns : Numbered id mid' ns last') :
      Numbered id last (.rule r span head body :: ns) last'

/-- What the numbering does with a group: a section gets the next id, a subsection the id of its
section, and any other group stays as it is. -/
theorem numberGroup_cases {g g' : Group} {span : Option Span} {contents : List Node}
    {s s' : NumberingState} (h : NumberingState.sweep.group g span contents s = .ok (g', s')) :
    (∃ sec part, g = .numberedSection sec ∧ resolve s.previous sec.override = .ok part ∧
      g' = .numberedSection { sec with
        secId := s.secId ++ [part], number := some (SectionId.dotted (s.secId ++ [part])) } ∧
      s' = s.enter part) ∨
    ((∀ sec, g ≠ .numberedSection sec) ∧ (∀ sec, g' ≠ .numberedSection sec) ∧
      (∀ sub, g' = .subsection sub → sub.secId = s.secId) ∧ s' = s) := by
  cases g with
  | numberedSection sec =>
      left
      change NumberingState.numberGroup (.numberedSection sec) span contents s = _ at h
      unfold NumberingState.numberGroup at h
      dsimp only at h
      split at h
      · cases h
      · next part hpart =>
        cases h
        refine ⟨sec, part, rfl, hpart, ?_, rfl⟩
        simp [NumberingState.secId, NumberingState.enter]
  | subsection sub =>
      right
      cases h
      refine ⟨by simp, by simp, ?_, rfl⟩
      rintro sub' hsub
      cases hsub
      rfl
  | _ =>
      right
      cases h
      exact ⟨by simp, by simp, by simp, rfl⟩

/-- The numbering leaves a level only where a section ends. -/
theorem endGroup_eq_self {g : Group} (hg : ∀ sec, g ≠ .numberedSection sec) (s : NumberingState) :
    NumberingState.sweep.endGroup g s = s := by
  cases g with
  | numberedSection sec => exact absurd rfl (hg sec)
  | _ => rfl

/-- The numbering makes nodes numbered. On the way it comes back to the level from which it started,
and only the part that was last used there may have changed. -/
theorem numbered_of_swept {s s' : NumberingState} {ns ns' : List Node}
    (h : NumberingState.sweep.Swept s ns ns' s') :
    ∀ (around : List SectionPart) (last : Option SectionPart) (levels : List (Option SectionPart)),
      s = ⟨around, last :: levels⟩ → (∀ p ∈ last, p.WellFormed) →
        ∃ last', s' = ⟨around, last' :: levels⟩ ∧ (∀ p ∈ last', p.WellFormed) ∧
          Numbered around.reverse last ns' last' := by
  induction h with
  | nil s =>
      intro around last levels hs hlast
      exact ⟨last, hs, hlast, .nil _ _⟩
  | leaf hleaf _ ih =>
      intro around last levels hs hlast
      cases hleaf
      obtain ⟨last', hs', hlast', hns⟩ := ih around last levels hs hlast
      exact ⟨last', hs', hlast', .leaf hns⟩
  | group hgroup _ _ ihcontents ihns =>
      intro around last levels hs hlast
      subst hs
      rcases numberGroup_cases hgroup with ⟨sec, part, rfl, hpart, rfl, rfl⟩ | ⟨-, hg, hid, rfl⟩
      · obtain ⟨hwf, hbefore⟩ := before_of_resolve hpart hlast
        obtain ⟨inner, rfl, -, hcontents⟩ :=
          ihcontents (part :: around) none (some part :: levels) rfl (by simp)
        obtain ⟨last', hs', hlast', hns⟩ := ihns around (some part) levels rfl (by simpa using hwf)
        rw [List.reverse_cons] at hcontents
        exact ⟨last', hs', hlast', .numberedSection hwf hbefore rfl rfl hcontents hns⟩
      · obtain ⟨mid, rfl, hmid, hcontents⟩ := ihcontents around last levels rfl hlast
        rw [endGroup_eq_self hg] at ihns
        obtain ⟨last', hs', hlast', hns⟩ := ihns around mid levels rfl hmid
        exact ⟨last', hs', hlast', .group hg hid hcontents hns⟩
  | rule hrule _ _ _ ihhead ihbody ihns =>
      intro around last levels hs hlast
      cases hrule
      obtain ⟨mid, rfl, hmid, hhead⟩ := ihhead around last levels hs hlast
      obtain ⟨mid', rfl, hmid', hbody⟩ := ihbody around mid levels rfl hmid
      obtain ⟨last', hs', hlast', hns⟩ := ihns around mid' levels rfl hmid'
      exact ⟨last', hs', hlast', .rule hhead hbody hns⟩

/-! ## Ids and places -/

/-- The ids of numbered nodes increase. -/
theorem Numbered.ascends {id : SectionId} {last last' : Option SectionPart} {ns : List Node}
    (h : Numbered id last ns last') :
    Ascends id last ((Node.sectionsIn ns).map Section.secId) last' := by
  induction h with
  | nil id last => exact Ascends.nil id last
  | leaf _ ih =>
      rw [Node.sectionsIn_leaf]
      exact ih
  | numberedSection _ hlast hid _ _ _ ihcontents ihns =>
      rw [hid] at ihcontents
      rw [Node.sectionsIn_section, List.map_cons, List.map_append, hid]
      exact (Ascends.section hlast ihcontents).append ihns
  | group hg _ _ _ ihcontents ihns =>
      rw [Node.sectionsIn_group hg, List.map_append]
      exact ihcontents.append ihns
  | rule _ _ _ ihhead ihbody ihns =>
      rw [Node.sectionsIn_rule, List.map_append, List.map_append]
      exact (ihhead.append ihbody).append ihns

/-- The ids of numbered nodes are well-formed and not empty, and they are shown. -/
theorem Numbered.shown {id : SectionId} {last last' : Option SectionPart} {ns : List Node}
    (h : Numbered id last ns last') (hwf : id.WellFormed) :
    ∀ sec ∈ Node.sectionsIn ns, sec.secId.WellFormed ∧ sec.secId ≠ [] ∧
      sec.number = some sec.secId.dotted := by
  induction h with
  | nil id last => simp
  | leaf _ ih =>
      rw [Node.sectionsIn_leaf]
      exact ih hwf
  | @numberedSection id _ _ _ sec part _ _ _ hpart _ hid hnumber _ _ ihcontents ihns =>
      have hsec : sec.secId.WellFormed := by
        intro p hp
        rw [hid, List.mem_append, List.mem_singleton] at hp
        rcases hp with hp | rfl
        · exact hwf p hp
        · exact hpart
      intro s hs
      rw [Node.sectionsIn_section, List.mem_cons, List.mem_append] at hs
      rcases hs with rfl | hs | hs
      · exact ⟨hsec, by simp [hid], hnumber⟩
      · exact ihcontents hsec s hs
      · exact ihns hwf s hs
  | group hg _ _ _ ihcontents ihns =>
      intro s hs
      rw [Node.sectionsIn_group hg, List.mem_append] at hs
      rcases hs with hs | hs
      · exact ihcontents hwf s hs
      · exact ihns hwf s hs
  | rule _ _ _ ihhead ihbody ihns =>
      intro s hs
      rw [Node.sectionsIn_rule, List.mem_append, List.mem_append] at hs
      rcases hs with (hs | hs) | hs
      · exact ihhead hwf s hs
      · exact ihbody hwf s hs
      · exact ihns hwf s hs

/-- What numbering says about one place: a section has the id of the section around it and one part
more, and is shown with it; a subsection has the id of the section around it. -/
def Place.IsNumbered (p : Place) : Prop :=
  (∀ sec, p.node.section? = some sec →
    (∃ part, sec.secId = p.enclosingId ++ [part]) ∧ sec.number = some sec.secId.dotted) ∧
  (∀ sub, p.node.subsection? = some sub → sub.secId = p.enclosingId)

/-- The places of numbered nodes are numbered. -/
theorem Numbered.places {id : SectionId} {last last' : Option SectionPart} {ns : List Node}
    (h : Numbered id last ns last') :
    ∀ around, Place.nearestId around = id → ∀ p ∈ Node.placesIn around ns, p.IsNumbered := by
  induction h with
  | nil id last => simp [Node.placesIn]
  | leaf _ ih =>
      intro around haround p hp
      rw [Node.placesIn, Node.placesBelow, List.nil_append, List.mem_cons] at hp
      rcases hp with rfl | hp
      · exact ⟨by simp [Node.section?], by simp [Node.subsection?]⟩
      · exact ih around haround p hp
  | numberedSection _ _ hid hnumber _ _ ihcontents ihns =>
      intro around haround p hp
      rw [Node.placesIn, Node.placesBelow, List.mem_cons, List.mem_append] at hp
      rcases hp with rfl | hp | hp
      · refine ⟨?_, by simp [Node.subsection?]⟩
        rintro sec' hsec
        cases hsec
        exact ⟨⟨_, by rw [hid, ← haround]; rfl⟩, hnumber⟩
      · exact ihcontents _ (Place.nearestId_section _ _ _ around) p hp
      · exact ihns around haround p hp
  | group hg hid _ _ ihcontents ihns =>
      intro around haround p hp
      rw [Node.placesIn, Node.placesBelow, List.mem_cons, List.mem_append] at hp
      have hsection := Node.section?_group hg
      rcases hp with rfl | hp | hp
      · refine ⟨by simp [hsection], ?_⟩
        intro sub hsub
        rw [hid sub (Node.eq_of_subsection?_group hsub), ← haround]
        rfl
      · refine ihcontents _ ?_ p hp
        rw [Place.nearestId_of_section?_eq_none (hsection _ _), haround]
      · exact ihns around haround p hp
  | rule _ _ _ ihhead ihbody ihns =>
      intro around haround p hp
      rw [Node.placesIn, Node.placesBelow, Node.placesOfHead_eq, List.mem_cons, List.mem_append,
        List.mem_append] at hp
      have haround' : ∀ n : Node, n.section? = none → Place.nearestId (n :: around) = _ :=
        fun n hn => (Place.nearestId_of_section?_eq_none hn around).trans haround
      rcases hp with rfl | (hp | hp) | hp
      · exact ⟨by simp [Node.section?], by simp [Node.subsection?]⟩
      · exact ihhead _ (haround' _ rfl) p hp
      · exact ihbody _ (haround' _ rfl) p hp
      · exact ihns around haround p hp

/-- The numbering keeps the sections and their titles. -/
theorem map_title_of_swept {s s' : NumberingState} {ns ns' : List Node}
    (h : NumberingState.sweep.Swept s ns ns' s') :
    (Node.sectionsIn ns').map Section.title = (Node.sectionsIn ns).map Section.title := by
  induction h with
  | nil s => rfl
  | leaf _ _ ih =>
      rw [Node.sectionsIn_leaf, Node.sectionsIn_leaf, ih]
  | group hgroup _ _ ihcontents ihns =>
      rcases numberGroup_cases hgroup with ⟨sec, part, rfl, -, rfl, -⟩ | ⟨hg, hg', -, -⟩
      · rw [Node.sectionsIn_section, Node.sectionsIn_section, List.map_cons, List.map_cons,
          List.map_append, List.map_append, ihcontents, ihns]
      · rw [Node.sectionsIn_group hg, Node.sectionsIn_group hg', List.map_append, List.map_append,
          ihcontents, ihns]
  | rule _ _ _ _ ihhead ihbody ihns =>
      simp only [Node.sectionsIn_rule, List.map_append, ihhead, ihbody, ihns]

/-! ## Documents -/

/-- What numbering says about a document: all its places are numbered, its ids increase in document
order, and no two sections have the same id or are shown with the same number. -/
structure Document.WellNumbered (d : Document) : Prop where
  places : ∀ p ∈ d.places, p.IsNumbered
  sorted : (d.sections.map Section.secId).Pairwise SectionId.Before
  ids_nodup : (d.sections.map Section.secId).Nodup
  numbers_nodup : (d.sections.map Section.number).Nodup

/-- Sections whose ids are different and well-formed are shown with different numbers. -/
theorem nodup_map_number {secs : List Section} (hids : (secs.map Section.secId).Nodup)
    (hshown : ∀ sec ∈ secs, sec.secId.WellFormed ∧ sec.secId ≠ [] ∧
      sec.number = some sec.secId.dotted) : (secs.map Section.number).Nodup := by
  rw [List.Nodup, List.pairwise_map] at hids ⊢
  refine hids.imp_of_mem ?_
  intro a b ha hb hne heq
  obtain ⟨hwfa, hnea, hnumbera⟩ := hshown a ha
  obtain ⟨hwfb, hneb, hnumberb⟩ := hshown b hb
  rw [hnumbera, hnumberb, Option.some.injEq] at heq
  exact hne (SectionId.dotted_injective hwfa hwfb hnea hneb heq)

/-- Numbered nodes are the contents of a well-numbered document. -/
theorem Numbered.wellNumbered {d : Document} {last : Option SectionPart}
    (h : Numbered [] none d.contents last) : d.WellNumbered where
  places := h.places [] rfl
  sorted := h.ascends.sorted
  ids_nodup := SectionId.nodup_of_pairwise h.ascends.sorted
  numbers_nodup := nodup_map_number (SectionId.nodup_of_pairwise h.ascends.sorted)
    (h.shown (by simp [SectionId.WellFormed]))

/-- **Numbering a document.** Where it succeeds, the sections are those of the document in their order,
each has the id of the section around it and one part of its own, and the ids increase. -/
theorem wellNumbered_of_numberSections {d d' : Document} (h : numberSections d = .ok d') :
    d'.WellNumbered ∧ d'.sections.map Section.title = d.sections.map Section.title := by
  obtain ⟨s, hsweep⟩ := numberSections_eq_ok_iff.1 h
  have hswept := Sweep.swept_of_document hsweep
  obtain ⟨last, -, -, hnumbered⟩ := numbered_of_swept hswept [] none [] rfl (by simp)
  exact ⟨hnumbered.wellNumbered, map_title_of_swept hswept⟩

/-- A document in which tokens skip numbers and go over to letters. -/
def appendixDocument : Document :=
  Build.document "Specification"
    [Build.numberedSection none "Scope"
      [Build.numberedSection (some "1.5") "Terms" [],
        Build.list ["one"],
        Build.subsection "Remarks" [Build.numberedSection none "Notation" []]],
      Build.numberedSection (some "A.") "Grammar" [Build.numberedSection none "Symbols" []],
      Build.numberedSection (some "Z") "Tables" [],
      Build.numberedSection none "Index" []]

/-- The sections of the appendix are numbered, with letters after the numbers and `AA` after `Z`. -/
theorem wellNumbered_appendixDocument :
    ∃ d, numberSections appendixDocument = .ok d ∧
      d.sections.map Section.number
        = [some "1", some "1.5", some "1.6", some "A", some "A.1", some "Z", some "AA"] ∧
      d.WellNumbered ∧ d.sections.map Section.title = appendixDocument.sections.map Section.title :=
  have hnumber : numberSections appendixDocument = .ok _ := numberSections_eq_ok_iff.2 ⟨_, rfl⟩
  ⟨_, hnumber, by decide, wellNumbered_of_numberSections hnumber⟩

end SpecDoc
