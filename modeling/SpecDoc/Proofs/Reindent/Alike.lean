import SpecDoc.Annotation.Anchors
import SpecDoc.Proofs.Import.Expansion
import SpecDoc.Proofs.Markup.Parts
import SpecDoc.Proofs.Place
import SpecDoc.Proofs.Traversal.Sites

/-!
# Documents that differ in the layout of examples

Two documents are alike when they differ in nothing but the texts of examples, and these have the same
normal form. Only the examples in sections and subsections may differ, so that no note or term has another
text.

* `Node.Alike` says so of forests, `Document.Alike` of documents;
* `Node.Alike.importsIn_eq`, `Document.Alike.sectionSlugs_eq`: they have the same imports and titles;
* `Node.Marks` are what an annotation leaves at a node, and `Document.Alike.marks_eq`: they are the same.
-/

namespace SpecDoc

open Node

/-- Whether two blocks of code are examples that differ at most in their texts, and these have the same
normal form. -/
structure Code.Alike (c c' : Code) : Prop where
  isExample : c.isExample = true
  normalized : ContentHash.normalizeCode c'.text = ContentHash.normalizeCode c.text
  eq_update : c' = { c with text := c'.text }

/-- The two blocks may be exchanged. -/
theorem Code.Alike.symm {c c' : Code} (h : c.Alike c') : c'.Alike c where
  isExample := by
    rw [h.eq_update]
    exact h.isExample
  normalized := h.normalized.symm
  eq_update := by rw [h.eq_update]

namespace Node

/-- Whether two forests differ at most in the layout of examples. -/
inductive Alike : List Node → List Node → Prop where
  | nil : Alike [] []
  /-- A node that is the same in both. -/
  | same (n : Node) {ns ns' : List Node} (h : Alike ns ns') : Alike (n :: ns) (n :: ns')
  /-- An example. -/
  | code {c c' : Code} {span : Option Span} {ns ns' : List Node} (hcode : c.Alike c')
      (h : Alike ns ns') : Alike (.leaf (.code c) span :: ns) (.leaf (.code c') span :: ns')
  /-- A section or subsection. -/
  | group {g : Group} {span : Option Span} {contents contents' ns ns' : List Node}
      (hg : g.kind.isHeading = true) (hcontents : Alike contents contents') (h : Alike ns ns') :
      Alike (.group g span contents :: ns) (.group g span contents' :: ns')

namespace Alike

variable {ms ms' ns ns' : List Node}

/-- A forest differs in nothing from itself. -/
theorem refl (ns : List Node) : Alike ns ns := by
  induction ns with
  | nil => exact .nil
  | cons n ns ih => exact .same n ih

/-- Forests that are alike are so one behind the other. -/
theorem append (hms : Alike ms ms') (hns : Alike ns ns') : Alike (ms ++ ns) (ms' ++ ns') := by
  induction hms with
  | nil => exact hns
  | same n _ ih => exact .same n ih
  | code hcode _ ih => exact .code hcode ih
  | group hg hcontents _ _ ih => exact .group hg hcontents ih

/-- Forests that are alike have the same imports. -/
theorem importsIn_eq (h : Alike ns ns') : importsIn ns' = importsIn ns := by
  induction h with
  | nil => rfl
  | same n _ ih => rw [importsIn_cons, importsIn_cons, ih]
  | code _ _ ih =>
      rw [importsIn_leaf fun _ => Leaf.noConfusion, importsIn_leaf fun _ => Leaf.noConfusion, ih]
  | group _ _ _ ihcontents ih => rw [importsIn_group, importsIn_group, ihcontents, ih]

/-- Forests that are alike have the same sections. -/
theorem sectionsIn_eq (h : Alike ns ns') : sectionsIn ns' = sectionsIn ns := by
  induction h with
  | nil => rfl
  | same n _ ih => rw [sectionsIn_cons, sectionsIn_cons, ih]
  | code _ _ ih => rw [sectionsIn_leaf, sectionsIn_leaf, ih]
  | @group g span contents contents' ns ns' _ _ _ ihcontents ih =>
      rw [sectionsIn_cons, sectionsIn_cons, children, children, ihcontents, ih]
      cases g <;> rfl

end Alike

/-! ## Marks -/

/-- The id of a section, or of the section that a subsection belongs to. -/
def secId? : Node → Option SectionId
  | .group (.numberedSection s) _ _ => some s.secId
  | .group (.subsection s) _ _ => some s.secId
  | _ => none

/-- The number of a section, once it has one. -/
def sectionNumber? : Node → Option String
  | .group (.numberedSection s) _ _ => s.number
  | _ => none

/-- The number of an example, once it has one. -/
def exampleNumber? : Node → Option UInt32
  | .leaf (.code c) _ => c.number
  | _ => none

/-- What a node is and what an annotation leaves at it. -/
structure Marks where
  kind : Kind
  secId : Option SectionId
  sectionNumber : Option String
  exampleNumber : Option UInt32
  id : Option String
deriving DecidableEq

/-- The marks of a node. -/
def marks (n : Node) : Marks := ⟨n.kind, n.secId?, n.sectionNumber?, n.exampleNumber?, n.id?⟩

/-- Each of the sites with the marks of its node. -/
def mapMarks (sites : List (List Key × Node)) : List (List Key × Marks) :=
  sites.map fun p => (p.1, p.2.marks)

/-- Alike forests have the same marks at corresponding nodes. -/
theorem Alike.mapMarks_eq {ns ns' : List Node} (h : Alike ns ns') :
    ∀ path position, mapMarks (sitesFrom path position ns') = mapMarks (sitesFrom path position ns) := by
  induction h with
  | nil =>
      intro path position
      rfl
  | same n _ ih =>
      intro path position
      simp only [sitesFrom, mapMarks, List.map_append]
      exact congrArg _ (ih path (position + 1))
  | @code c c' span ns ns' hcode _ ih =>
      intro path position
      have hmarks : (leaf (.code c') span).marks = (leaf (.code c) span).marks := by
        rw [hcode.eq_update]
        rfl
      simp only [sitesFrom, sites, mapMarks, List.map_append, List.map_cons, List.map_nil, hmarks]
      exact congrArg _ (ih path (position + 1))
  | @group g span contents contents' ns ns' hg _ _ ihcontents ih =>
      intro path position
      have hmarks : (Node.group g span contents').marks = (Node.group g span contents).marks := by
        cases g <;> rfl
      have hbelow := ihcontents (path ++ [.index position] ++ [.field g.slotName]) 0
      have hbehind := ih path (position + 1)
      simp only [mapMarks] at hbelow hbehind
      simp only [sitesFrom, sites, mapMarks, List.map_append, List.map_cons, hmarks, hbelow, hbehind]

end Node

/-! ## Documents -/

namespace Document

/-- Whether two documents differ at most in the layout of examples. -/
structure Alike (d d' : Document) : Prop where
  title : d'.title = d.title
  span : d'.span = d.span
  contents : Node.Alike d.contents d'.contents

variable {d d' : Document}

/-- Documents that are alike have the same imports. -/
theorem Alike.imports_eq (h : d.Alike d') : d'.imports = d.imports := by
  rw [d'.imports_eq, d.imports_eq, h.contents.importsIn_eq]

/-- The sections of documents that are alike have the same slugs. -/
theorem Alike.sectionSlugs_eq (h : d.Alike d') : sectionSlugs d' = sectionSlugs d := by
  rw [sectionSlugs_eq_map, sectionSlugs_eq_map, sections, sections, h.contents.sectionsIn_eq]

/-- The marks of a document: those of its nodes, each with the path to the node. -/
def marks (d : Document) : List (List Key × Node.Marks) := mapMarks (Tree.node d.toNode).sites

/-- Alike documents have the same marks at corresponding nodes. -/
theorem Alike.marks_eq (h : d.Alike d') : d'.marks = d.marks := by
  have hsites : ∀ e : Document, (Tree.node e.toNode).sites
      = ([], e.toNode) :: sitesFrom [.field "contents"] 0 e.contents := by
    intro e
    rw [Tree.sites, Tree.places, sitesOf_cons]
    simp [sitesOf, toNode, sites, Group.slotName]
  have hmarks : d'.toNode.marks = d.toNode.marks := rfl
  have hcontents := h.contents.mapMarks_eq [.field "contents"] 0
  simp only [mapMarks] at hcontents
  simp only [marks, mapMarks, hsites, List.map_cons, hmarks, hcontents]

end Document

end SpecDoc
