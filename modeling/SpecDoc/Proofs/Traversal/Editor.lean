import SpecDoc.Build
import SpecDoc.Proofs.Traversal.Machine
import SpecDoc.Proofs.Traversal.Sites

/-!
# Editing by a visitor

A decision about nodes says of each node, without looking at its children, whether it is kept, taken out or
replaced by a sequence. A visitor can act on it when it enters a node, before it has seen what is below, or
when it leaves the node, after what is below has been edited. In the end this makes no difference: a node
that is not kept goes with all that is below it.

* `Node.edit` is what becomes of a node, by recursion on the tree;
* `Visitor.onEnter` and `Visitor.onLeave` are the two visitors;
* `comesOut_onEnter` and `comesOut_onLeave`: a node comes out of both walks as it is edited;
* `traverse_eq_edit`: every tree is edited by both visitors.
-/

namespace SpecDoc

open Traversal

/-! ## Edits -/

/-- What is decided about a node. -/
inductive Edit where
  /-- The node stays, and what is below it is edited. -/
  | keep
  /-- The node is taken out. -/
  | delete
  /-- Nodes that are not edited any more stand in its place. -/
  | replace (ns : List Node)

namespace Edit

/-- What a visitor answers if it has decided about a node. -/
def action : Edit → Action
  | keep => .proceed
  | delete => .delete
  | replace ns => .replace (.sequence ns)

/-- What stands in the place of a node, if below it everything has been edited. -/
def outcome : Edit → Node → Tree
  | keep, n => .node n
  | delete, _ => .sequence []
  | replace ns, _ => .sequence ns

end Edit

section Decisions

variable (decide : Node → Edit)

namespace Node

mutual

/-- What becomes of a node. The decision is about the node without its children. -/
def edit : Node → Tree
  | .leaf l span => (decide (.leaf l span)).outcome (.leaf l span)
  | .group g span contents => (decide (.group g span [])).outcome (.group g span (editAll contents))
  | .rule r span head body =>
    (decide (.rule r span none [])).outcome (.rule r span (editHead head) (editAll body))

/-- What becomes of the nodes of a sequence. The nodes in the place of one of them stand between its
neighbours. -/
def editAll : List Node → List Node
  | [] => []
  | n :: ns => (edit n).nodes ++ editAll ns

/-- What becomes of the head of a rule: of several nodes in its place only the first one is kept. -/
def editHead : Option Node → Option Node
  | none => none
  | some n => (edit n).nodes.head?

end

/-- A node with everything below it edited. -/
def editBelow : Node → Node
  | .leaf l span => .leaf l span
  | .group g span contents => .group g span (editAll decide contents)
  | .rule r span head body => .rule r span (editHead decide head) (editAll decide body)

/-- To edit a node is to edit what is below it, and then to do as was decided. -/
theorem edit_eq (n : Node) : n.edit decide = (decide n.shell).outcome (n.editBelow decide) := by
  cases n with
  | leaf l span => rw [edit, shell, editBelow]
  | group g span contents => rw [edit, shell, editBelow]
  | rule r span head body => rw [edit, shell, editBelow]

/-- The decision about a node does not change while what is below it is edited. -/
theorem shell_editBelow (n : Node) : (n.editBelow decide).shell = n.shell := by
  cases n <;> rfl

end Node

/-- What becomes of a tree. A sequence remains one, and a single node may become one. -/
def Tree.edit : Tree → Tree
  | .node n => n.edit decide
  | .sequence ns => .sequence (Node.editAll decide ns)

namespace Visitor

/-- The visitor that acts on its decision about a node when it enters the node. -/
def onEnter : Visitor Unit Empty where
  enter _ n s := ⟨n, s, .ok (decide n.shell).action⟩
  leave _ n s := ⟨n, s, .ok .proceed⟩

/-- The visitor that acts on its decision about a node when it leaves the node. -/
def onLeave : Visitor Unit Empty where
  enter _ n s := ⟨n, s, .ok .proceed⟩
  leave _ n s := ⟨n, s, .ok (decide n.shell).action⟩

end Visitor

namespace Traversal

open Visitor

/-! ## The walks -/

variable {v : Visitor Unit Empty}

/-- Whether a node comes out of the walk of a visitor as it is edited, wherever it stands. -/
def ComesOut (v : Visitor Unit Empty) (n : Node) : Prop :=
  ∀ (path : List Key) (around : List Node),
    v.walkNode path around n () = some (.passed (n.edit decide) ())

variable {decide}

/-- A sequence is edited if its nodes are. -/
theorem walkSequence_of_comesOut {ns : List Node} (hns : ∀ n ∈ ns, ComesOut decide v n)
    (path : List Key) (around : List Node) (position : ℕ) :
    v.walkSequence path around position ns () = some (.passed (Node.editAll decide ns) ()) := by
  induction ns generalizing position with
  | nil => rw [walkSequence, Node.editAll]
  | cons n ns ih =>
      have hrest := ih (fun m hm => hns m (List.mem_cons_of_mem n hm)) (position + 1)
      rw [walkSequence, hns n List.mem_cons_self]
      simp only [Option.bind_eq_bind, Option.bind_some]
      rw [hrest, Option.bind_some, Outcome.map, Node.editAll]

/-- A single slot is edited if its node is. -/
theorem walkHead_of_comesOut {head : Option Node} (hhead : ∀ n ∈ head.toList, ComesOut decide v n)
    (path : List Key) (around : List Node) :
    v.walkHead path around head () = some (.passed (Node.editHead decide head) ()) := by
  cases head with
  | none => rw [walkHead, Node.editHead]
  | some n =>
      rw [walkHead, hhead n List.mem_cons_self, Option.bind_eq_bind, Option.bind_some, Outcome.map,
        Node.editHead]

/-- A visitor that leaves a node with an answer to a decision does to it what was decided. -/
theorem walkLeave_eq_outcome {path : List Key} {around : List Node} {n : Node} (e : Edit)
    (hleave : v.leave ⟨path, around⟩ n () = ⟨n, (), .ok e.action⟩) :
    walkLeave v path around n () = .passed (e.outcome n) () := by
  rw [walkLeave, hleave]
  cases e <;> rfl

/-- If the children of a node are edited, the node is left with everything below it edited. -/
theorem walkBelow_of_comesOut {n : Node} (hn : ∀ m ∈ n.children, ComesOut decide v m)
    (path : List Key) (around : List Node) :
    v.walkBelow path around n () = some (walkLeave v path around (n.editBelow decide) ()) := by
  cases n with
  | leaf l span => rw [walkBelow, Node.editBelow]
  | group g span contents =>
      have hcontents : ∀ m ∈ contents, ComesOut decide v m := hn
      rw [walkBelow, walkSequence_of_comesOut hcontents, Node.editBelow]
      rfl
  | rule r span head body =>
      obtain ⟨hhead, hbody⟩ := List.forall_mem_append.1 hn
      rw [walkBelow, walkHead_of_comesOut hhead]
      simp only [Option.bind_eq_bind, Option.bind_some]
      rw [walkSequence_of_comesOut hbody, Node.editBelow]
      rfl

variable (decide)

/-- Every node is edited by the visitor that decides when it enters a node. It does not come to what is
below a node that is not kept, and this is not in the result either. -/
theorem comesOut_onEnter (n : Node) : ComesOut decide (onEnter decide) n := by
  induction n using Node.childrenInduction with
  | h n ih =>
      intro path around
      have hreply : (onEnter decide).enter ⟨path, around⟩ n ()
          = ⟨n, (), .ok (decide n.shell).action⟩ := rfl
      rw [Node.edit_eq, walkNode, walkEnter, hreply]
      cases decide n.shell with
      | keep =>
          have hbelow := walkBelow_of_comesOut ih path around
          rw [walkLeave_eq_outcome .keep rfl] at hbelow
          exact hbelow
      | delete => rfl
      | replace ns => rfl

/-- Every node is edited by the visitor that decides when it leaves a node. What is below a node that is not
kept has been edited by then, and is dropped with it. -/
theorem comesOut_onLeave (n : Node) : ComesOut decide (onLeave decide) n := by
  induction n using Node.childrenInduction with
  | h n ih =>
      intro path around
      have hreply : (onLeave decide).leave ⟨path, around⟩ (n.editBelow decide) ()
          = ⟨n.editBelow decide, (), .ok (decide n.shell).action⟩ := by
        rw [← Node.shell_editBelow decide n]
        rfl
      have hbelow := walkBelow_of_comesOut ih path around
      rw [walkLeave_eq_outcome (decide n.shell) hreply, ← Node.edit_eq] at hbelow
      rw [walkNode]
      exact hbelow

/-- If all nodes come out of the walk of a visitor as they are edited, so does every tree. -/
theorem walk_of_comesOut (hv : ∀ n, ComesOut decide v n) (t : Tree) :
    t.walk v () = some (.finished (t.edit decide) ()) := by
  cases t with
  | node n =>
      rw [Tree.walk, hv n [] []]
      rfl
  | sequence ns =>
      rw [Tree.walk, walkSequence_of_comesOut fun n _ => hv n]
      rfl

end Traversal

/-- **It does not matter when a decision is made.** For every tree and every decision about nodes without their
children, the traversals that act on it when a node is entered and when a node is left both end, and with
the same tree: the nodes that are not kept have been taken out or replaced, and all others are in it in
their order. -/
theorem traverse_eq_edit (t : Tree) :
    (∃ fuel, t.traverse (Visitor.onEnter decide) fuel () = some (.finished (t.edit decide) ())) ∧
    (∃ fuel, t.traverse (Visitor.onLeave decide) fuel () = some (.finished (t.edit decide) ())) := by
  have henter := walk_of_comesOut decide (comesOut_onEnter decide) t
  have hleave := walk_of_comesOut decide (comesOut_onLeave decide) t
  exact ⟨(exists_traverse_iff _ _ _ _).2 henter, (exists_traverse_iff _ _ _ _).2 hleave⟩

end Decisions

/-- Items and calls are replaced and notes are taken out. Of the two texts in the place of a call there is only
room for one, and nothing is left of the items and paragraphs below what is not kept. -/
example :
    let decide : Node → Edit := fun n =>
      if n.kind = .call then .replace [Build.text "first", Build.text "second"]
      else if n.kind = .listItem then .replace [Build.text "step", Build.note "stays"]
      else if n.kind = .note then .delete else .keep
    let t := Tree.sequence [Build.algorithm "Run" [] ["one"], Build.note "goes"]
    let t' := Tree.sequence [.rule (.algorithm none) none (some (Build.text "first"))
      [Build.text "step", Build.note "stays"]]
    t.traverse (Visitor.onEnter decide) 20 () = some (.finished t' ()) ∧
      t.traverse (Visitor.onLeave decide) 20 () = some (.finished t' ()) :=
  ⟨rfl, rfl⟩

end SpecDoc
