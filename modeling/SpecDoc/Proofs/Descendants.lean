import SpecDoc.Node.Descendants
import SpecDoc.Proofs.Forest

/-!
# Reading in order

The iterator over descendants reads a forest in the order that is defined by recursion on the forest: each
node is followed by the nodes below it.

* `Node.length_preorder`: as many nodes are read as there are;
* `Descendants.take_eq`: the iterator yields them in their order, and then it ends;
* `Node.descendants_eq` and `Document.descendants_eq`: what this means for nodes and documents.
-/

namespace SpecDoc

namespace Node

/-! ## Counting -/

/-- The nodes of two sequences are numbered together. -/
theorem sizeAll_append (xs ys : List Node) : sizeAll (xs ++ ys) = sizeAll xs + sizeAll ys := by
  induction xs with
  | nil => rw [List.nil_append, sizeAll, Nat.zero_add]
  | cons x xs ih => rw [List.cons_append, sizeAll, sizeAll, ih, Nat.add_assoc]

/-- A node is counted with the nodes below its children. -/
theorem size_eq (n : Node) : n.size = sizeAll n.children + 1 := by
  cases n with
  | leaf l span => rfl
  | group g span contents => rw [size, children]
  | rule r span head body =>
      have hhead : sizeHead head = sizeAll head.toList := by
        cases head <;> simp [sizeHead, sizeAll]
      rw [size, children, sizeAll_append, hhead]

/-- The nodes that are read off a forest in pre-order are as many as its size says. -/
theorem length_preorder (ns : List Node) : (preorder ns).length = sizeAll ns := by
  have hcons : ∀ n ns, (preorder n.children).length = sizeAll n.children →
      (preorder ns).length = sizeAll ns → (preorder (n :: ns)).length = sizeAll (n :: ns) := by
    intro n ns hn hns
    rw [preorder_cons, List.length_cons, List.length_append, hn, hns, sizeAll, size_eq]
    omega
  induction ns using forestInduction with
  | nil => rfl
  | leaf l span ns hns => exact hcons (.leaf l span) ns rfl hns
  | group g span contents ns hcontents hns => exact hcons (.group g span contents) ns hcontents hns
  | rule r span head body ns hhead hbody hns =>
      refine hcons (.rule r span head body) ns ?_ hns
      rw [children, preorder_append, List.length_append, hhead, hbody, sizeAll_append]

/-- The order of the nodes of a sequence does not matter to their number. -/
theorem sizeAll_reverse (ns : List Node) : sizeAll ns.reverse = sizeAll ns := by
  induction ns with
  | nil => rfl
  | cons n ns ih =>
      rw [List.reverse_cons, sizeAll_append, ih, sizeAll, sizeAll, sizeAll]
      omega

end Node

/-! ## The iterator -/

namespace Descendants

open Node

/-- The next node is the first that is read of the nodes that are to come, and the iterator behind it has the
others. -/
theorem preorder_of_next? {it it' : Descendants} {n : Node} (h : it.next? = some (n, it')) :
    preorder it.stack.reverse = n :: preorder it'.stack.reverse := by
  unfold next? at h
  split at h
  · cases h
  · next m hm =>
      obtain ⟨ms, hms⟩ := List.getLast?_eq_some_iff.1 hm
      cases h
      rw [hms, List.dropLast_concat, List.reverse_append, List.reverse_append, List.reverse_reverse,
        preorder_append n.children]
      exact preorder_cons n ms.reverse

/-- There is no next node if none is to come. -/
theorem stack_eq_nil_of_next? {it : Descendants} (h : it.next? = none) : it.stack = [] := by
  unfold next? at h
  split at h
  · next hm => exact List.getLast?_eq_none_iff.1 hm
  · cases h

/-- **The iterator reads in pre-order.** It yields the nodes of its stack and those below them, one after the
other in the order of their reading, and ends behind the last of them. -/
theorem take_eq (k : Nat) (it : Descendants) :
    it.take k = (preorder it.stack.reverse).take k := by
  induction k generalizing it with
  | zero => rw [take, List.take_zero]
  | succ k ih =>
      rw [take]
      cases hnext : it.next? with
      | none =>
          rw [stack_eq_nil_of_next? hnext]
          rfl
      | some next =>
          obtain ⟨n, it'⟩ := next
          rw [preorder_of_next? hnext, List.take_succ_cons, ← ih it']

/-- All nodes come. -/
theorem toList_ofNodes (roots : List Node) : (ofNodes roots).toList = preorder roots := by
  rw [toList, take_eq, ofNodes, List.reverse_reverse, sizeAll_reverse, ← length_preorder,
    List.take_length]

end Descendants

/-- The nodes below a node are read child by child. -/
theorem Node.descendants_eq (n : Node) : n.descendants = preorder n.children :=
  Descendants.toList_ofNodes n.children

/-- The nodes of a document are those of its contents. -/
theorem Document.descendants_eq (d : Document) : d.descendants = Node.preorder d.contents :=
  Descendants.toList_ofNodes d.contents

/-- A property of all nodes of a document is one of all nodes of the forest that it holds. -/
theorem Document.forall_descendants_iff {d : Document} {P : Node → Prop} :
    (∀ n ∈ d.descendants, P n) ↔ Node.Everywhere P d.contents := by
  rw [d.descendants_eq]
  rfl

end SpecDoc
