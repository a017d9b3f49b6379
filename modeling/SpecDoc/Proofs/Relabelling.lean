import SpecDoc.Annotation.Anchors
import SpecDoc.Proofs.Forest
import SpecDoc.Proofs.Place

/-!
# Relabelled trees

What a node holds and where it was read can be changed without a change to the shape of the tree or to
what the tree says. `Node.Relabels` says so of a function on nodes, in terms of what it does with one node.

* `Relabels.preorder_map`: the nodes of a relabelled tree are those of the tree, each relabelled;
* `Relabels.name?_map`, `Relabels.textPieces_map` and `Relabels.sectionSlugs_eq`: the names of rules, the
  texts of nodes and the slugs of sections remain.
-/

namespace SpecDoc

open Text

namespace Node

/-- Whether a function changes what a node holds, but neither the shape of a tree nor its texts, the names
that leaves give to rules and the titles of sections. -/
structure Relabels (f : Node → Node) : Prop where
  leaf : ∀ (l : Leaf) (span : Option Span), ∃ (l' : Leaf) (span' : Option Span),
    f (.leaf l span) = .leaf l' span' ∧
      (leaf l' span').textPiece = (leaf l span).textPiece ∧
      ∀ r : Rule, r.name? (some (.leaf l' span')) = r.name? (some (.leaf l span))
  group : ∀ (g : Group) (span : Option Span), ∃ (g' : Group) (span' : Option Span),
    ∀ contents, f (.group g span contents) = .group g' span' (contents.map f) ∧
      (group g' span' contents).textPiece = (group g span contents).textPiece ∧
      (group g' span' contents).section?.map Section.title
        = (group g span contents).section?.map Section.title
  rule : ∀ (r : Rule) (span : Option Span), ∃ (r' : Rule) (span' : Option Span),
    ∀ head body, f (.rule r span head body) = .rule r' span' (head.map f) (body.map f)

namespace Relabels

variable {f : Node → Node}

/-- The nodes of a relabelled forest are those of the forest, each relabelled. -/
theorem preorder_map (hf : Relabels f) (ns : List Node) :
    preorder (ns.map f) = (preorder ns).map f := by
  induction ns using forestInduction with
  | nil => rfl
  | leaf l span ns ih =>
      obtain ⟨l', span', hl, -⟩ := hf.leaf l span
      rw [List.map_cons, preorder, preorder, ih, hl]
      simp [preorderBelow, hl]
  | group g span contents ns ihcontents ihns =>
      obtain ⟨g', span', hg⟩ := hf.group g span
      rw [List.map_cons, preorder, preorder, ihns, (hg contents).1, preorderBelow, preorderBelow,
        ihcontents]
      simp [(hg contents).1]
  | rule r span head body ns ihhead ihbody ihns =>
      obtain ⟨r', span', hr⟩ := hf.rule r span
      rw [List.map_cons, preorder, preorder, ihns, hr, preorderBelow, preorderBelow, ihbody,
        preorderHead_eq, preorderHead_eq, Option.toList_map, ihhead]
      simp [hr]

/-- A relabelled head gives a rule the same name. -/
theorem name?_map (hf : Relabels f) (r : Rule) (head : Option Node) :
    r.name? (head.map f) = r.name? head := by
  rcases head with _ | (⟨l, span⟩ | ⟨g, span, contents⟩ | ⟨r₀, span, head, body⟩)
  · rfl
  · obtain ⟨l', span', hl, -, hname⟩ := hf.leaf l span
    rw [Option.map_some, hl, hname]
  · obtain ⟨g', span', hg⟩ := hf.group g span
    rw [Option.map_some, (hg contents).1]
    cases r <;> rfl
  · obtain ⟨r', span', hr⟩ := hf.rule r₀ span
    rw [Option.map_some, hr]
    cases r <;> rfl

/-- Relabelled nodes have the same texts. -/
theorem textPieces_map (hf : Relabels f) (ns : List Node) :
    textPieces (ns.map f) = textPieces ns := by
  induction ns using forestInduction with
  | nil => rfl
  | leaf l span ns ih =>
      obtain ⟨l', span', hl, htext, -⟩ := hf.leaf l span
      rw [List.map_cons, textPieces, textPieces, ih, hl, htext]
  | group g span contents ns ihcontents ihns =>
      obtain ⟨g', span', hg⟩ := hf.group g span
      rw [List.map_cons, textPieces, textPieces, ihns, (hg contents).1, (hg (contents.map f)).2.1,
        textPiece_group_congr ihcontents g span span]
  | rule r span head body ns ihhead ihbody ihns =>
      obtain ⟨r', span', hr⟩ := hf.rule r span
      rw [List.map_cons, textPieces, textPieces, ihns, hr, textPiece, textPiece, ihbody,
        headPieces_eq, headPieces_eq, Option.toList_map, ihhead]

/-- Relabelled nodes have the same plain text. -/
theorem plainText_map (hf : Relabels f) (ns : List Node) : plainText (ns.map f) = plainText ns := by
  rw [plainText, hf.textPieces_map, plainText]

/-- A section remains one and keeps its title, and nothing else becomes one. -/
theorem map_title_section? (hf : Relabels f) (n : Node) :
    (f n).section?.map Section.title = n.section?.map Section.title := by
  cases n with
  | leaf l span =>
      obtain ⟨l', span', hl, -⟩ := hf.leaf l span
      rw [hl]
      rfl
  | group g span contents =>
      obtain ⟨g', span', hg⟩ := hf.group g span
      rw [(hg contents).1, (hg (contents.map f)).2.2]
      cases g <;> rfl
  | rule r span head body =>
      obtain ⟨r', span', hr⟩ := hf.rule r span
      rw [hr]
      rfl

/-- The titles of sections remain. -/
theorem map_title_sectionsIn (hf : Relabels f) (ns : List Node) :
    (sectionsIn (ns.map f)).map Section.title = (sectionsIn ns).map Section.title := by
  rw [sectionsIn, sectionsIn, hf.preorder_map, List.map_filterMap, List.map_filterMap,
    List.filterMap_map]
  congr 1
  funext n
  exact hf.map_title_section? n

end Relabels

end Node

/-- The slugs of sections are those of their titles. -/
theorem sectionSlugs_eq_map (d : Document) :
    sectionSlugs d = d.sections.map fun sec => slug sec.title := by
  rw [sectionSlugs, Document.sections, Node.sectionsIn, List.map_filterMap, d.descendants_eq]
  congr 1
  funext n
  cases n with
  | leaf l span => rfl
  | group g span contents => cases g <;> rfl
  | rule r span head body => rfl

/-- A document with relabelled contents has the same slugs. -/
theorem Node.Relabels.sectionSlugs_eq {f : Node → Node} (hf : Relabels f) {d d' : Document}
    (h : d'.contents = d.contents.map f) : sectionSlugs d' = sectionSlugs d := by
  have htitles := hf.map_title_sectionsIn d.contents
  rw [← h] at htitles
  have hslugs := congrArg (List.map slug) htitles
  rw [List.map_map, List.map_map] at hslugs
  rw [sectionSlugs_eq_map, sectionSlugs_eq_map]
  exact hslugs

end SpecDoc
