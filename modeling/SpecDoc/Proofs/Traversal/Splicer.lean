import SpecDoc.Build
import SpecDoc.Proofs.Import.Substitution
import SpecDoc.Proofs.Traversal.Machine

/-!
# Splicing by a visitor

Imports can be spliced in by a visitor that keeps the documents that are left and, when it leaves an
import, puts the contents of the next one in its place. It does not look at where it is: the walk puts the
nodes among the neighbours of the import, and counts nothing.

* `Visitor.splicer` is the visitor;
* `walkSequence_splicer`: a forest comes out of the walk as it is spliced;
* `splice_eq_substitution`: a document is spliced by the visitor, and this is to substitute its imports.
-/

namespace SpecDoc

open Traversal

/-- The visitor that puts the contents of documents in the place of imports, in the order in which it leaves
these. An import stays where no document is left. -/
def Visitor.splicer : Visitor (List Document) Empty where
  enter _ n ds := ⟨n, ds, .ok .proceed⟩
  leave _ n ds :=
    match n, ds with
    | .leaf (.importLink _) _, d :: ds => ⟨n, ds, .ok (.replace (.sequence d.contents))⟩
    | n, ds => ⟨n, ds, .ok .proceed⟩

namespace Traversal

open Node Visitor

/-! ## The walk of the splicer -/

/-- Whether a node comes out of the walk of the splicer as what stands in its place when it is spliced. -/
def Splices (n : Node) : Prop :=
  ∀ (path : List Key) (around : List Node) (ds : List Document), ∃ t,
    splicer.walkNode path around n ds = some (.passed t (splice n ds).2) ∧ t.nodes = (splice n ds).1

/-- The splicer goes below every node that it enters. -/
theorem walkNode_splicer (path : List Key) (around : List Node) (n : Node) (ds : List Document) :
    splicer.walkNode path around n ds = splicer.walkBelow path around n ds := by
  rw [walkNode]
  rfl

/-- A sequence is spliced if its nodes are. -/
theorem walkSequence_splicer_of_forall {ns : List Node} (hns : ∀ n ∈ ns, Splices n)
    (path : List Key) (around : List Node) (position : ℕ) (ds : List Document) :
    splicer.walkSequence path around position ns ds
      = some (.passed (spliceAll ns ds).1 (spliceAll ns ds).2) := by
  induction ns generalizing position ds with
  | nil => rw [walkSequence, spliceAll_nil_left]
  | cons n ns ih =>
      obtain ⟨t, hwalk, hnodes⟩ := hns n List.mem_cons_self (path ++ [.index position]) around ds
      rw [walkSequence, hwalk]
      simp only [Option.bind_eq_bind, Option.bind_some]
      rw [ih (fun m hm => hns m (List.mem_cons_of_mem n hm)), Option.bind_some, Outcome.map, hnodes,
        spliceAll]

/-- A single slot is spliced if its node is. It keeps the first of the nodes. -/
theorem walkHead_splicer_of_forall {head : Option Node} (hhead : ∀ n ∈ head.toList, Splices n)
    (path : List Key) (around : List Node) (ds : List Document) :
    splicer.walkHead path around head ds
      = some (.passed (spliceHead head ds).1.head? (spliceHead head ds).2) := by
  cases head with
  | none =>
      rw [walkHead, spliceHead]
      rfl
  | some n =>
      obtain ⟨t, hwalk, hnodes⟩ := hhead n List.mem_cons_self path around ds
      rw [walkHead, hwalk, spliceHead, Option.bind_eq_bind, Option.bind_some, Outcome.map, hnodes]

/-- Every node of a forest is spliced. -/
theorem splices_of_mem (ns : List Node) : ∀ n ∈ ns, Splices n := by
  induction ns using importInduction with
  | nil =>
      intro n hn
      cases hn
  | importLink raw span ns hns =>
      refine List.forall_mem_cons.2 ⟨fun path around ds => ?_, hns⟩
      rw [walkNode_splicer, walkBelow]
      cases ds with
      | nil =>
          rw [splice_leaf_nil]
          exact ⟨.node (.leaf (.importLink raw) span), rfl, rfl⟩
      | cons d ds =>
          rw [splice]
          exact ⟨.sequence d.contents, rfl, rfl⟩
  | leaf l span ns hl hns =>
      refine List.forall_mem_cons.2 ⟨fun path around ds => ?_, hns⟩
      rw [walkNode_splicer, walkBelow, splice_leaf hl]
      refine ⟨.node (.leaf l span), ?_, rfl⟩
      cases l with
      | importLink raw => exact absurd rfl (hl raw)
      | _ => rfl
  | group g span contents ns hcontents hns =>
      refine List.forall_mem_cons.2 ⟨fun path around ds => ?_, hns⟩
      rw [walkNode_splicer, walkBelow, walkSequence_splicer_of_forall hcontents, splice]
      exact ⟨_, rfl, rfl⟩
  | rule r span head body ns hhead hbody hns =>
      refine List.forall_mem_cons.2 ⟨fun path around ds => ?_, hns⟩
      rw [walkNode_splicer, walkBelow, walkHead_splicer_of_forall hhead]
      simp only [Option.bind_eq_bind, Option.bind_some]
      rw [walkSequence_splicer_of_forall hbody, splice]
      exact ⟨_, rfl, rfl⟩

/-- A forest comes out as it is spliced, with the documents that are left. -/
theorem walkSequence_splicer (path : List Key) (around : List Node) (position : ℕ) (ns : List Node)
    (ds : List Document) :
    splicer.walkSequence path around position ns ds
      = some (.passed (spliceAll ns ds).1 (spliceAll ns ds).2) :=
  walkSequence_splicer_of_forall (splices_of_mem ns) path around position ds

/-- A document remains one. -/
theorem walk_splicer (d : Document) (ds : List Document) :
    (Tree.node d.toNode).walk splicer ds
      = some (.finished (.node (d.splice ds).toNode) (spliceAll d.contents ds).2) := by
  rw [Tree.walk, walkNode_splicer, Document.toNode, walkBelow, walkSequence_splicer]
  rfl

end Traversal

/-! ## Documents -/

/-- **Splicing is substitution.** To splice documents into another one, a visitor walks through it and hands
them out at the imports; the documents that are left over are those behind the number of imports. This is
to replace the import with the number `i` by the contents of the document with this number. If there are
as many documents as imports, and no imports in those, none is left. -/
theorem splice_eq_substitution (d : Document) (ds : List Document) :
    (∃ fuel, d.traverse Visitor.splicer fuel ds
      = some (.finished (.node (d.splice ds).toNode) (ds.drop d.imports.length))) ∧
    d.splice ds
      = { d with contents :=
            Node.substituteAll (fun i => ds[i]?.map Document.contents) 0 d.contents } ∧
    (d.imports.length ≤ ds.length →
      (∀ e ∈ ds.take d.imports.length, ∀ n ∈ e.descendants, n.isImport = false) →
        ∀ n ∈ (d.splice ds).descendants, n.isImport = false) := by
  have hsplice := Node.spliceAll_drop ds d.contents 0
  rw [List.drop_zero, Nat.zero_add, ← d.imports_eq] at hsplice
  have hcontents : (d.splice ds).contents
      = Node.substituteAll (fun i => ds[i]?.map Document.contents) 0 d.contents := by
    rw [Document.splice, hsplice]
  refine ⟨?_, ?_, fun hlength himports => ?_⟩
  · have hwalk := walk_splicer d ds
    rw [hsplice] at hwalk
    obtain ⟨fuel, hfuel⟩ := (exists_traverse_iff _ _ _ _).2 hwalk
    refine ⟨fuel, ?_⟩
    rw [Document.traverse, hfuel]
    rfl
  · rw [← hcontents]
    rfl
  · rw [Document.forall_descendants_iff, hcontents]
    refine Node.everywhere_substituteAll d.contents 0 fun j _ hlt => ?_
    rw [Nat.zero_add, ← d.imports_eq] at hlt
    have hlt' : j < ds.length := Nat.lt_of_lt_of_le hlt hlength
    refine ⟨ds[j].contents, by rw [List.getElem?_eq_getElem hlt', Option.map_some], ?_⟩
    have hmem : ds[j] ∈ ds.take d.imports.length :=
      List.mem_take_iff_getElem.2 ⟨j, Nat.lt_min.2 ⟨hlt, hlt'⟩, rfl⟩
    exact Document.forall_descendants_iff.1 (himports ds[j] hmem)

/-- A document with imports next to each other, in an item and at the head of a rule. -/
def tutorialDocument : Document :=
  Build.document "Tutorial" [Build.importLink "a.md", Build.importLink "b.md",
    .group (.list false) none [.group .listItem none [Build.text "see", Build.importLink "c.md"]],
    .rule (.algorithm none) none (some (Build.importLink "d.md"))
      [Build.importLink "e.md", Build.text "end"]]

/-- Documents for the imports of the tutorial, and one more. -/
def tutorialParts : List Document :=
  [Build.fragment [Build.text "a1", Build.text "a2"], Build.fragment [],
    Build.fragment [Build.text "c"], Build.fragment [Build.text "d1", Build.text "d2"],
    Build.fragment [], Build.fragment [Build.importLink "f.md"]]

/-- The last of the documents is not needed, so it does not matter that it holds an import. -/
theorem splice_eq_substitution_tutorialDocument :
    (tutorialDocument.splice tutorialParts).contents
      = [Build.text "a1", Build.text "a2",
        .group (.list false) none [.group .listItem none [Build.text "see", Build.text "c"]],
        .rule (.algorithm none) none (some (Build.text "d1")) [Build.text "end"]] ∧
    ∀ n ∈ (tutorialDocument.splice tutorialParts).descendants, n.isImport = false :=
  ⟨rfl, (splice_eq_substitution tutorialDocument tutorialParts).2.2 (by decide) (by decide)⟩

end SpecDoc
