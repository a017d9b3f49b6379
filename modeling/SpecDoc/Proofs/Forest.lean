import SpecDoc.Node

/-!
# Forests

A forest is a sequence of nodes with all nodes below them. Facts about the twin functions on nodes,
sequences and heads become facts about forests, which are proved by one induction.

* `Node.forestInduction`: one case for each kind of node at the head of a forest;
* `Node.preorder`: the nodes of a forest in the order of their reading, each before those below it;
* `Node.Everywhere`: a property of all nodes of a forest.
-/

namespace SpecDoc

namespace Node

/-- Induction on a forest. What is below its first node is a forest, too; a head is one of at most
one tree. -/
@[elab_as_elim]
theorem forestInduction {motive : List Node → Prop} (nil : motive [])
    (leaf : ∀ l span ns, motive ns → motive (.leaf l span :: ns))
    (group : ∀ g span contents ns, motive contents → motive ns →
      motive (.group g span contents :: ns))
    (rule : ∀ r span head body ns, motive head.toList → motive body → motive ns →
      motive (.rule r span head body :: ns)) (ns : List Node) : motive ns := by
  match ns with
  | [] => exact nil
  | .leaf l span :: ns => exact leaf l span ns (forestInduction nil leaf group rule ns)
  | .group g span contents :: ns =>
      have hcontents := forestInduction nil leaf group rule contents
      exact group g span contents ns hcontents (forestInduction nil leaf group rule ns)
  | .rule r span none body :: ns =>
      have hbody := forestInduction nil leaf group rule body
      exact rule r span none body ns nil hbody (forestInduction nil leaf group rule ns)
  | .rule r span (some n) body :: ns =>
      have hhead := forestInduction nil leaf group rule [n]
      have hbody := forestInduction nil leaf group rule body
      exact rule r span (some n) body ns hhead hbody (forestInduction nil leaf group rule ns)
termination_by sizeOf ns

/-- A head is known from the forest that it is. -/
theorem head_eq_of_toList_eq {head head' : Option Node} (h : head.toList = head'.toList) :
    head = head' := by
  rw [← Option.head?_toList (o := head), h, Option.head?_toList]

/-! ## The order of reading -/

mutual

/-- All nodes below a node. -/
def preorderBelow : Node → List Node
  | .leaf _ _ => []
  | .group _ _ contents => preorder contents
  | .rule _ _ head body => preorderHead head ++ preorder body

/-- The nodes of a sequence, each followed by all nodes below it. -/
def preorder : List Node → List Node
  | [] => []
  | n :: ns => n :: (n.preorderBelow ++ preorder ns)

/-- The head of a rule, followed by all nodes below it. -/
def preorderHead : Option Node → List Node
  | none => []
  | some n => n :: n.preorderBelow

end

/-- The head is read like a sequence of at most one node. -/
theorem preorderHead_eq (head : Option Node) : preorderHead head = preorder head.toList := by
  cases head <;> simp [preorder, preorderHead]

/-- Of two sequences the first is read first. -/
theorem preorder_append (xs ys : List Node) :
    preorder (xs ++ ys) = preorder xs ++ preorder ys := by
  induction xs with
  | nil => simp [preorder]
  | cons x xs ih => simp [preorder, ih]

/-- The nodes below a node are its children, each followed by the nodes below it. -/
theorem preorderBelow_eq (n : Node) : n.preorderBelow = preorder n.children := by
  cases n with
  | leaf l span => simp [preorderBelow, children, preorder]
  | group g span contents => simp [preorderBelow, children]
  | rule r span head body => simp [preorderBelow, children, preorder_append, preorderHead_eq]

/-- The first node of a forest is read first, then what is below it. -/
theorem preorder_cons (n : Node) (ns : List Node) :
    preorder (n :: ns) = n :: (preorder n.children ++ preorder ns) := by
  rw [preorder, preorderBelow_eq]

/-! ## Properties of all nodes -/

/-- Whether all nodes of a forest have a property. -/
def Everywhere (P : Node → Prop) (ns : List Node) : Prop := ∀ n ∈ preorder ns, P n

variable {P : Node → Prop}

@[simp]
theorem everywhere_nil : Everywhere P [] := by simp [Everywhere, preorder]

/-- A property is true everywhere in a sequence if it is true of the first node, below it, and behind it. -/
theorem everywhere_cons {n : Node} {ns : List Node} :
    Everywhere P (n :: ns) ↔ P n ∧ Everywhere P n.children ∧ Everywhere P ns := by
  simp only [Everywhere, preorder_cons, List.mem_cons, List.mem_append, or_imp,
    forall_and, forall_eq]

@[simp]
theorem everywhere_leaf {l : Leaf} {span : Option Span} {ns : List Node} :
    Everywhere P (.leaf l span :: ns) ↔ P (.leaf l span) ∧ Everywhere P ns := by
  simp [everywhere_cons, children]

@[simp]
theorem everywhere_group {g : Group} {span : Option Span} {contents ns : List Node} :
    Everywhere P (.group g span contents :: ns) ↔
      P (.group g span contents) ∧ Everywhere P contents ∧ Everywhere P ns := by
  simp [everywhere_cons, children]

@[simp]
theorem everywhere_append {ms ns : List Node} :
    Everywhere P (ms ++ ns) ↔ Everywhere P ms ∧ Everywhere P ns := by
  simp only [Everywhere, preorder_append, List.mem_append, or_imp, forall_and]

@[simp]
theorem everywhere_rule {r : Rule} {span : Option Span} {head : Option Node}
    {body ns : List Node} :
    Everywhere P (.rule r span head body :: ns) ↔
      P (.rule r span head body) ∧ Everywhere P head.toList ∧ Everywhere P body ∧
        Everywhere P ns := by
  simp [everywhere_cons, children, and_assoc]

/-- A property is true everywhere in a single tree if it is true of its root and below it. -/
theorem everywhere_singleton {n : Node} : Everywhere P [n] ↔ P n ∧ Everywhere P n.children := by
  simp [everywhere_cons]

/-- A property is true everywhere in a forest if it is so in each of its trees. -/
theorem everywhere_iff_forall_singleton {ns : List Node} :
    Everywhere P ns ↔ ∀ n ∈ ns, Everywhere P [n] := by
  induction ns with
  | nil => simp
  | cons n ns ih =>
      rw [everywhere_cons, ih]
      simp [everywhere_singleton, and_assoc]

/-- What holds everywhere holds of the children of all nodes. -/
theorem Everywhere.children {ns : List Node} (h : Everywhere P ns) :
    Everywhere (fun n => ∀ m ∈ n.children, P m) ns := by
  have hmem : ∀ {ms : List Node}, Everywhere P ms → ∀ m ∈ ms, P m :=
    fun hms m hm => (everywhere_singleton.1 (everywhere_iff_forall_singleton.1 hms m hm)).1
  induction ns using forestInduction with
  | nil => exact everywhere_nil
  | leaf l span ns ih =>
      obtain ⟨-, hns⟩ := everywhere_leaf.1 h
      exact everywhere_leaf.2 ⟨by simp [Node.children], ih hns⟩
  | group g span contents ns ihcontents ihns =>
      obtain ⟨-, hcontents, hns⟩ := everywhere_group.1 h
      exact everywhere_group.2 ⟨hmem hcontents, ihcontents hcontents, ihns hns⟩
  | rule r span head body ns ihhead ihbody ihns =>
      obtain ⟨-, hhead, hbody, hns⟩ := everywhere_rule.1 h
      refine everywhere_rule.2 ⟨?_, ihhead hhead, ihbody hbody, ihns hns⟩
      exact List.forall_mem_append.2 ⟨hmem hhead, hmem hbody⟩

/-- What holds everywhere may be weakened. -/
theorem Everywhere.mono {Q : Node → Prop} {ns : List Node} (h : Everywhere P ns)
    (hPQ : ∀ n, P n → Q n) : Everywhere Q ns :=
  fun n hn => hPQ n (h n hn)

end Node

end SpecDoc
