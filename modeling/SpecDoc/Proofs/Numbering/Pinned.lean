import SpecDoc.Proofs.Forest
import SpecDoc.Proofs.Numbering
import SpecDoc.Proofs.SectionId.Shown

/-!
# Pinned numbers

The numbers that a document was given can be written as tokens into the headings of its sections. Then
nothing is left to be counted, and every number is checked against the section before it instead. The two
ways agree at each section, so the pinned document has the same numbers.

* `Document.pinned` writes the numbers of a numbered document into a document;
* `numberGroup_pinned`: a section gets its part again from its number;
* `swept_pinned`: the numbering takes pinned nodes to pinned nodes;
* `numberSections_pinned`: a pinned document is numbered as the document was.
-/

namespace SpecDoc

open SectionPart

/-! ## Writing numbers as tokens -/

/-- A section with the number of another one as its token; any other group stays as it is. -/
def Group.pinned : Group → Group → Group
  | .numberedSection sec, .numberedSection numbered =>
    .numberedSection { sec with override := numbered.number }
  | g, _ => g

/-- Only the numbers of sections are written. -/
theorem Group.pinned_of_ne {g g' : Group} (hg' : ∀ sec, g' ≠ .numberedSection sec) :
    g.pinned g' = g := by
  unfold pinned
  split
  · exact absurd rfl (hg' _)
  · rfl

namespace Node

mutual

/-- A node with the numbers of a numbered node of the same shape as the tokens of its sections. -/
def pinned : Node → Node → Node
  | .group g span contents, .group g' _ contents' => .group (g.pinned g') span (pinnedAll contents contents')
  | .rule r span head body, .rule _ _ head' body' =>
    .rule r span (pinnedHead head head') (pinnedAll body body')
  | n, _ => n

/-- The nodes of a sequence with the numbers of those of a numbered sequence. -/
def pinnedAll : List Node → List Node → List Node
  | n :: ns, n' :: ns' => n.pinned n' :: pinnedAll ns ns'
  | ns, _ => ns

/-- The head of a rule with the numbers of a numbered head. -/
def pinnedHead : Option Node → Option Node → Option Node
  | some n, some n' => some (n.pinned n')
  | head, _ => head

end

/-- A head is pinned like a sequence of at most one node. -/
theorem toList_pinnedHead (head head' : Option Node) :
    (pinnedHead head head').toList = pinnedAll head.toList head'.toList := by
  cases head <;> cases head' <;> simp [pinnedHead, pinnedAll]

end Node

namespace Document

/-- A document with the numbers of a numbered document as the tokens of its sections. -/
def pinned (d numbered : Document) : Document :=
  { d with contents := Node.pinnedAll d.contents numbered.contents }

/-- The subsections of a document, in order. -/
def subsections (d : Document) : List Subsection := d.descendants.filterMap Node.subsection?

end Document

/-! ## The numbering of pinned nodes -/

/-- A numbering whose parts are well-formed. -/
structure NumberingState.WellFormed (s : NumberingState) : Prop where
  around : ∀ p ∈ s.around, p.WellFormed
  lastUsed : ∀ last ∈ s.lastUsed, ∀ p ∈ last, p.WellFormed

namespace NumberingState

variable {s : NumberingState} {part : SectionPart}

theorem WellFormed.previous (hs : s.WellFormed) : ∀ p ∈ s.previous, p.WellFormed := by
  intro p hp
  obtain ⟨around, _ | ⟨last, levels⟩⟩ := s
  · cases hp
  · exact hs.lastUsed last List.mem_cons_self p hp

theorem WellFormed.secId (hs : s.WellFormed) : s.secId.WellFormed :=
  fun p hp => hs.around p (List.mem_reverse.1 hp)

theorem WellFormed.enter (hs : s.WellFormed) (hpart : part.WellFormed) :
    (s.enter part).WellFormed where
  around := List.forall_mem_cons.2 ⟨hpart, hs.around⟩
  lastUsed := by
    refine List.forall_mem_cons.2 ⟨by simp, List.forall_mem_cons.2 ⟨by simpa using hpart, ?_⟩⟩
    exact fun last hlast => hs.lastUsed last (List.mem_of_mem_tail hlast)

theorem WellFormed.leave (hs : s.WellFormed) : s.leave.WellFormed where
  around := fun p hp => hs.around p (List.mem_of_mem_tail hp)
  lastUsed := fun last hlast => hs.lastUsed last (List.mem_of_mem_tail hlast)

end NumberingState

/-- A section that got a part gets the same part and the same number from its number as the token. -/
theorem numberGroup_pinned {s : NumberingState} {sec : Section} {part : SectionPart}
    (hs : s.WellFormed) (hpart : resolve s.previous sec.override = .ok part) {numbered : Section}
    (hnumbered : numbered = { sec with
      secId := s.secId ++ [part], number := some (SectionId.dotted (s.secId ++ [part])) })
    (span : Option Span) (contents : List Node) :
    NumberingState.sweep.group ((Group.numberedSection sec).pinned (.numberedSection numbered)) span
        contents s
      = .ok ((Group.numberedSection numbered).pinned (.numberedSection numbered), s.enter part) := by
  have hwf := (before_of_resolve hpart hs.previous).1
  have hsecId : (s.enter part).secId = s.secId ++ [part] := by
    simp [NumberingState.secId, NumberingState.enter]
  subst hnumbered
  rw [Group.pinned, Group.pinned]
  unfold NumberingState.sweep NumberingState.numberGroup
  dsimp only
  rw [resolve_dotted hs.previous hs.secId hwf hpart]
  dsimp only
  rw [hsecId]

/-- The numbering takes nodes with the numbers it gives as their tokens to the numbered nodes with these
tokens, and its state goes the same way. -/
theorem swept_pinned {s s' : NumberingState} {ns ns' : List Node}
    (h : NumberingState.sweep.Swept s ns ns' s') (hs : s.WellFormed) :
    NumberingState.sweep.Swept s (Node.pinnedAll ns ns') (Node.pinnedAll ns' ns') s' ∧
      s'.WellFormed := by
  induction h with
  | nil s => exact ⟨.nil s, hs⟩
  | leaf hleaf _ ih =>
      cases hleaf
      obtain ⟨hns, hs'⟩ := ih hs
      refine ⟨?_, hs'⟩
      rw [Node.pinnedAll, Node.pinnedAll, Node.pinned]
      · exact .leaf rfl hns
      all_goals simp
  | @group g g' span contents contents' ns ns' s s₁ s₂ s₃ hgroup _ _ ihcontents ihns =>
      rcases numberGroup_cases hgroup with ⟨sec, part, rfl, hpart, rfl, rfl⟩ | ⟨hg, hg', -, rfl⟩
      · -- The part is well-formed, and so are all parts that the contents are numbered with.
        have hwf := (before_of_resolve hpart hs.previous).1
        obtain ⟨hcontents, hs₂⟩ := ihcontents (hs.enter hwf)
        obtain ⟨hns, hs'⟩ := ihns hs₂.leave
        refine ⟨?_, hs'⟩
        rw [Node.pinnedAll, Node.pinnedAll, Node.pinned, Node.pinned]
        exact .group (numberGroup_pinned hs hpart rfl span _) hcontents hns
      · obtain ⟨hcontents, hs₂⟩ := ihcontents hs
        rw [endGroup_eq_self hg'] at ihns
        obtain ⟨hns, hs'⟩ := ihns hs₂
        refine ⟨?_, hs'⟩
        rw [Node.pinnedAll, Node.pinnedAll, Node.pinned, Node.pinned, Group.pinned_of_ne hg',
          Group.pinned_of_ne hg']
        -- The numbering does not look at the contents of a group.
        refine .group hgroup hcontents ?_
        rwa [endGroup_eq_self hg']
  | rule hrule _ _ _ ihhead ihbody ihns =>
      cases hrule
      obtain ⟨hhead, hs₂⟩ := ihhead hs
      obtain ⟨hbody, hs₃⟩ := ihbody hs₂
      obtain ⟨hns, hs'⟩ := ihns hs₃
      refine ⟨.rule rfl ?_ hbody hns, hs'⟩
      rwa [Node.toList_pinnedHead, Node.toList_pinnedHead]

/-! ## What is pinned -/

/-- Pinned sections have the numbers of the numbered ones as their tokens. -/
theorem map_override_pinnedAll {s s' : NumberingState} {ns ns' : List Node}
    (h : NumberingState.sweep.Swept s ns ns' s') :
    (Node.sectionsIn (Node.pinnedAll ns ns')).map Section.override
      = (Node.sectionsIn ns').map Section.number := by
  induction h with
  | nil s => rfl
  | leaf hleaf _ ih =>
      cases hleaf
      rw [Node.pinnedAll, Node.pinned, Node.sectionsIn_leaf, Node.sectionsIn_leaf, ih]
      all_goals simp
  | group hgroup _ _ ihcontents ihns =>
      rcases numberGroup_cases hgroup with ⟨sec, part, rfl, -, rfl, -⟩ | ⟨hg, hg', -, -⟩
      · rw [Node.pinnedAll, Node.pinned, Group.pinned, Node.sectionsIn_section,
          Node.sectionsIn_section, List.map_cons, List.map_cons, List.map_append, List.map_append,
          ihcontents, ihns]
      · rw [Node.pinnedAll, Node.pinned, Group.pinned_of_ne hg', Node.sectionsIn_group hg,
          Node.sectionsIn_group hg', List.map_append, List.map_append, ihcontents, ihns]
  | rule _ _ _ _ ihhead ihbody ihns =>
      rw [Node.pinnedAll, Node.pinned, Node.sectionsIn_rule, Node.sectionsIn_rule,
        Node.toList_pinnedHead]
      simp only [List.map_append, ihhead, ihbody, ihns]

namespace Node

/-- The nodes of a forest with its own numbers are those of the forest, each with its own number. -/
theorem preorder_pinnedAll_self (ns : List Node) :
    preorder (pinnedAll ns ns) = (preorder ns).map fun n => n.pinned n := by
  induction ns using forestInduction with
  | nil => rfl
  | leaf l span ns ih =>
      simp [pinnedAll, pinned, preorder, preorderBelow, ih]
  | group g span contents ns ihcontents ihns =>
      simp [pinnedAll, pinned, preorder, preorderBelow, ihcontents, ihns]
  | rule r span head body ns ihhead ihbody ihns =>
      simp [pinnedAll, pinned, preorder, preorderBelow, preorderHead_eq, toList_pinnedHead, ihhead,
        ihbody, ihns]

/-- The sections of nodes that are pinned to themselves have their own numbers as their tokens. -/
theorem sectionsIn_pinnedAll_self (ns : List Node) :
    sectionsIn (pinnedAll ns ns)
      = (sectionsIn ns).map fun sec => { sec with override := sec.number } := by
  rw [sectionsIn, preorder_pinnedAll_self, List.filterMap_map, sectionsIn, List.map_filterMap]
  congr 1
  funext n
  rcases n with _ | ⟨_ | _, _, _⟩ | _ <;> rfl

end Node

/-! ## Documents -/

/-- The subsections of a document remain when its own numbers are written into it. -/
theorem subsections_pinned_self (d : Document) : (d.pinned d).subsections = d.subsections := by
  rw [Document.subsections, Document.descendants_eq, Document.pinned, Node.preorder_pinnedAll_self,
    List.filterMap_map, Document.subsections, Document.descendants_eq]
  congr 1
  funext n
  rcases n with _ | ⟨_ | _, _, _⟩ | _ <;> rfl

/-- **Pinned numbers.** Where the numbering of a document succeeds, its sections can have their numbers as
tokens: the numbering succeeds again, and all sections and subsections have the ids and the numbers that
they had. -/
theorem numberSections_pinned {d d' : Document} (h : numberSections d = .ok d') :
    (d.pinned d').sections.map Section.override = d'.sections.map Section.number ∧
    ∃ d'', numberSections (d.pinned d') = .ok d'' ∧
      d''.sections = d'.sections.map (fun sec => { sec with override := sec.number }) ∧
      d''.subsections = d'.subsections := by
  obtain ⟨s, htitle, hspan, hswept⟩ := exists_sweptDocument_of_numberSections h
  have hstart : NumberingState.start.WellFormed :=
    ⟨by simp [NumberingState.start], by simp [NumberingState.start]⟩
  have hpinned := Sweep.nodes_of_swept (swept_pinned hswept hstart).1
  refine ⟨map_override_pinnedAll hswept, d'.pinned d', ?_, Node.sectionsIn_pinnedAll_self _,
    subsections_pinned_self d'⟩
  refine numberSections_eq_ok_iff.2 ⟨s, ?_⟩
  simp only [Sweep.document, Document.pinned, hpinned, htitle, hspan]

/-- In the appendix letters and the part after `Z` are read back from the numbers. -/
theorem numberSections_pinned_appendixDocument :
    ∃ d', numberSections appendixDocument = .ok d' ∧
      (appendixDocument.pinned d').sections.map Section.override
        = [some "1", some "1.5", some "1.6", some "A", some "A.1", some "Z", some "AA"] ∧
      ∃ d'', numberSections (appendixDocument.pinned d') = .ok d'' ∧
        d''.sections = d'.sections.map (fun sec => { sec with override := sec.number }) ∧
        d''.subsections = d'.subsections :=
  have hnumber : numberSections appendixDocument = .ok _ := numberSections_eq_ok_iff.2 ⟨_, rfl⟩
  ⟨_, hnumber, by decide, (numberSections_pinned hnumber).2⟩

end SpecDoc
