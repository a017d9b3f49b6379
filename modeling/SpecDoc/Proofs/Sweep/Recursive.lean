import SpecDoc.Annotation.Sweep
import SpecDoc.Proofs.Descendants
import SpecDoc.Proofs.Traversal.Coverage

/-!
# Sweeping by recursion

The visitor of a sweep is led through the tree by the traversal machine. It goes on everywhere and leaves the
children of every node alone, so that the same can be said without the machine, by recursion on the tree.

* `Sweep.document` sweeps a document by recursion;
* `Sweep.agreesAt_of_mem`: a walk with the visitor of a sweep comes to what the recursion comes to;
* `Sweep.KeepsShape.run_eq`: the traversal ends, and it sweeps a document as the recursion does.
-/

namespace SpecDoc

namespace Sweep

open Traversal

variable {σ ε : Type}

/-! ## The recursion -/

mutual

/-- Sweeps a node and the nodes below it. -/
def node (w : Sweep σ ε) : Node → σ → Except ε (Node × σ)
  | .leaf l span, s =>
    match w.leaf l s with
    | .error e => .error e
    | .ok (l, s) => .ok (.leaf l span, s)
  | .group g span contents, s =>
    match w.group g span contents s with
    | .error e => .error e
    | .ok (g, s) =>
      match nodes w contents s with
      | .error e => .error e
      | .ok (contents, s) => .ok (.group g span contents, w.endGroup g s)
  | .rule r span head body, s =>
    match w.rule r head s with
    | .error e => .error e
    | .ok (r, s) =>
      match headNode w head s with
      | .error e => .error e
      | .ok (head, s) =>
        match nodes w body s with
        | .error e => .error e
        | .ok (body, s) => .ok (.rule r span head body, s)

/-- Sweeps a sequence of nodes from left to right. -/
def nodes (w : Sweep σ ε) : List Node → σ → Except ε (List Node × σ)
  | [], s => .ok ([], s)
  | n :: ns, s =>
    match node w n s with
    | .error e => .error e
    | .ok (n, s) =>
      match nodes w ns s with
      | .error e => .error e
      | .ok (ns, s) => .ok (n :: ns, s)

/-- Sweeps the head of a rule. -/
def headNode (w : Sweep σ ε) : Option Node → σ → Except ε (Option Node × σ)
  | none, s => .ok (none, s)
  | some n, s =>
    match node w n s with
    | .error e => .error e
    | .ok (n, s) => .ok (some n, s)

end

/-- Sweeps the contents of a document. -/
def document (w : Sweep σ ε) (d : Document) (s : σ) : Except ε (Document × σ) :=
  match w.nodes d.contents s with
  | .error e => .error e
  | .ok (contents, s) => .ok ({ d with contents }, s)

/-! ## Walks -/

/-- Whether a walk comes to the result of a recursion: it passes what the recursion gives with the same
state, or it fails with the same failure. -/
def Agrees {α β : Type} (f : α → β) (x : Except ε (α × σ)) (o : Option (Outcome β σ ε)) : Prop :=
  (∃ part s, x = .ok (part, s) ∧ o = some (.passed (f part) s)) ∨
    ∃ e s, x = .error e ∧ o = some (.failed e s)

/-- Whether the visitor of a sweep comes to what the sweep makes of a node, wherever the node is. -/
def AgreesAt (w : Sweep σ ε) (n : Node) : Prop :=
  ∀ path around s, Agrees Tree.node (w.node n s) (w.visitor.walkNode path around n s)

variable {w : Sweep σ ε}

/-- The visitor refuses the nodes that the sweep refuses. -/
theorem enter_visitor_of_error {n : Node} {s : σ} {e : ε} (h : w.enter n s = .error e) (c : Context) :
    w.visitor.enter c n s = ⟨n, s, .error e⟩ := by
  simp only [visitor, h]

/-- The visitor goes on with what the sweep makes of a node. -/
theorem enter_visitor_of_ok {n n' : Node} {s s' : σ} (h : w.enter n s = .ok (n', s')) (c : Context) :
    w.visitor.enter c n s = ⟨n', s', .ok .proceed⟩ := by
  simp only [visitor, h]

/-- A node that is refused is where the walk fails. -/
theorem walkNode_of_error {n : Node} {s : σ} {e : ε} (h : w.enter n s = .error e) (path : List Key)
    (around : List Node) : w.visitor.walkNode path around n s = some (.failed e s) := by
  rw [Visitor.walkNode, walkEnter, enter_visitor_of_error h]

/-- The walk goes below what the sweep makes of a node. -/
theorem walkNode_of_ok {n n' : Node} {s s' : σ} (h : w.enter n s = .ok (n', s')) (path : List Key)
    (around : List Node) :
    w.visitor.walkNode path around n s = w.visitor.walkBelow path around n' s' := by
  rw [Visitor.walkNode, walkEnter, enter_visitor_of_ok h]

/-- A sequence agrees if its nodes do. -/
theorem agrees_walkSequence {ns : List Node} (hns : ∀ n ∈ ns, w.AgreesAt n) (path : List Key)
    (around : List Node) (position : ℕ) (s : σ) :
    Agrees id (w.nodes ns s) (w.visitor.walkSequence path around position ns s) := by
  induction ns generalizing position s with
  | nil => exact .inl ⟨[], s, by rw [nodes], by rw [Visitor.walkSequence]; rfl⟩
  | cons n ns ih =>
      rw [nodes, Visitor.walkSequence]
      rcases hns n List.mem_cons_self (path ++ [.index position]) around s with
        ⟨n', s', hnode, hwalk⟩ | ⟨e, s', hnode, hwalk⟩
      · have hrest := ih (fun m hm => hns m (List.mem_cons_of_mem n hm)) (position + 1) s'
        rw [hnode, hwalk]
        rcases hrest with ⟨ns', s'', hnodes, hwalks⟩ | ⟨e, s'', hnodes, hwalks⟩
        · exact .inl ⟨n' :: ns', s'', by simp only [hnodes], by simp [hwalks, Outcome.map, Tree.nodes]⟩
        · exact .inr ⟨e, s'', by simp only [hnodes], by simp [hwalks, Outcome.map]⟩
      · exact .inr ⟨e, s', by rw [hnode], by rw [hwalk]; rfl⟩

/-- A head agrees if its node does. -/
theorem agrees_walkHead {head : Option Node} (hhead : ∀ n ∈ head.toList, w.AgreesAt n)
    (path : List Key) (around : List Node) (s : σ) :
    Agrees id (w.headNode head s) (w.visitor.walkHead path around head s) := by
  cases head with
  | none => exact .inl ⟨none, s, by rw [headNode], by rw [Visitor.walkHead]; rfl⟩
  | some n =>
      rw [headNode, Visitor.walkHead]
      rcases hhead n List.mem_cons_self path around s with
        ⟨n', s', hnode, hwalk⟩ | ⟨e, s', hnode, hwalk⟩
      · exact .inl ⟨some n', s', by rw [hnode], by rw [hwalk]; rfl⟩
      · exact .inr ⟨e, s', by rw [hnode], by rw [hwalk]; rfl⟩

/-- The walk agrees at every leaf. -/
theorem agreesAt_leaf (l : Leaf) (span : Option Span) : w.AgreesAt (.leaf l span) := by
  intro path around s
  cases hleaf : w.leaf l s with
  | error e =>
      have henter : w.enter (.leaf l span) s = .error e := by rw [enter, hleaf]; rfl
      rw [walkNode_of_error henter, node, hleaf]
      exact .inr ⟨e, s, rfl, rfl⟩
  | ok r =>
      have henter : w.enter (.leaf l span) s = .ok (.leaf r.1 span, r.2) := by rw [enter, hleaf]; rfl
      rw [walkNode_of_ok henter, node, hleaf, Visitor.walkBelow]
      exact .inl ⟨.leaf r.1 span, r.2, rfl, rfl⟩

/-- The walk agrees at a group if it does at its contents. -/
theorem agreesAt_group {contents : List Node} (hcontents : ∀ n ∈ contents, w.AgreesAt n) (g : Group)
    (span : Option Span) : w.AgreesAt (.group g span contents) := by
  intro path around s
  cases hgroup : w.group g span contents s with
  | error e =>
      have henter : w.enter (.group g span contents) s = .error e := by rw [enter, hgroup]; rfl
      rw [walkNode_of_error henter, node, hgroup]
      exact .inr ⟨e, s, rfl, rfl⟩
  | ok r =>
      have henter : w.enter (.group g span contents) s = .ok (.group r.1 span contents, r.2) := by
        rw [enter, hgroup]
        rfl
      rw [walkNode_of_ok henter, node, hgroup, Visitor.walkBelow]
      rcases agrees_walkSequence hcontents (path ++ [.field r.1.slotName])
        (around ++ [.group r.1 span []]) 0 r.2 with
        ⟨contents', s', hnodes, hwalk⟩ | ⟨e, s', hnodes, hwalk⟩
      · rw [hwalk]
        exact .inl ⟨.group r.1 span contents', w.endGroup r.1 s', by simp only [hnodes], rfl⟩
      · rw [hwalk]
        exact .inr ⟨e, s', by simp only [hnodes], rfl⟩

/-- The walk agrees at a rule if it does at its head and its body. -/
theorem agreesAt_rule {head : Option Node} {body : List Node} (hhead : ∀ n ∈ head.toList, w.AgreesAt n)
    (hbody : ∀ n ∈ body, w.AgreesAt n) (r : Rule) (span : Option Span) :
    w.AgreesAt (.rule r span head body) := by
  intro path around s
  cases hrule : w.rule r head s with
  | error e =>
      have henter : w.enter (.rule r span head body) s = .error e := by rw [enter, hrule]; rfl
      rw [walkNode_of_error henter, node, hrule]
      exact .inr ⟨e, s, rfl, rfl⟩
  | ok p =>
      have henter : w.enter (.rule r span head body) s = .ok (.rule p.1 span head body, p.2) := by
        rw [enter, hrule]
        rfl
      rw [walkNode_of_ok henter, node, hrule, Visitor.walkBelow]
      rcases agrees_walkHead hhead (path ++ [.field p.1.headName])
        (around ++ [.rule p.1 span none []]) p.2 with
        ⟨head', s', hnode, hwalk⟩ | ⟨e, s', hnode, hwalk⟩
      · -- The head was passed, and the body is walked with the state behind it.
        rw [hwalk]
        simp only [Option.bind_eq_bind, Option.bind_some, hnode]
        rcases agrees_walkSequence hbody (path ++ [.field p.1.bodyName])
          (around ++ [.rule p.1 span none []]) 0 s' with
          ⟨body', s'', hnodes, hwalks⟩ | ⟨e, s'', hnodes, hwalks⟩
        · rw [hnodes]
          exact .inl ⟨.rule p.1 span head' body', s'', rfl, by simp only [id, hwalks]; rfl⟩
        · rw [hnodes]
          exact .inr ⟨e, s'', rfl, by simp only [id, hwalks]; rfl⟩
      · rw [hwalk]
        exact .inr ⟨e, s', by simp only [hnode], rfl⟩

/-- The visitor of a sweep comes to what the sweep makes of each node of a forest. -/
theorem agreesAt_of_mem (ns : List Node) : ∀ n ∈ ns, w.AgreesAt n := by
  induction ns using Node.forestInduction with
  | nil =>
      intro n hn
      cases hn
  | leaf l span ns hns => exact List.forall_mem_cons.2 ⟨agreesAt_leaf l span, hns⟩
  | group g span contents ns hcontents hns =>
      exact List.forall_mem_cons.2 ⟨agreesAt_group hcontents g span, hns⟩
  | rule r span head body ns hhead hbody hns =>
      exact List.forall_mem_cons.2 ⟨agreesAt_rule hhead hbody r span, hns⟩

/-! ## Documents -/

/-- Whether a sweep passes over the document itself and does not change the names of slots, as all sweeps
do that only write into the nodes. -/
structure KeepsShape (w : Sweep σ ε) : Prop where
  document : ∀ title span contents s,
    w.group (.document title) span contents s = .ok (.document title, s)
  endDocument : ∀ title s, w.endGroup (.document title) s = s
  group : ∀ {g g' span contents s s'}, w.group g span contents s = .ok (g', s') →
    g'.slotName = g.slotName
  rule : ∀ {r r' head s s'}, w.rule r head s = .ok (r', s') →
    r'.headName = r.headName ∧ r'.bodyName = r.bodyName

/-- A value that was mapped comes from one that was not. -/
theorem exists_of_map_eq_ok {α β : Type} {x : Except ε α} {f : α → β} {b : β} (h : x.map f = .ok b) :
    ∃ a, x = .ok a ∧ f a = b := by
  cases x with
  | error e => cases h
  | ok a => exact ⟨a, rfl, Except.ok.inj h⟩

/-- The slots of a node stay as they are when a sweep that keeps the shape comes to it. -/
theorem KeepsShape.slots_enter (hw : w.KeepsShape) {n n' : Node} {s s' : σ}
    (h : w.enter n s = .ok (n', s')) : n'.slots = n.slots := by
  cases n with
  | leaf l span =>
      obtain ⟨r, -, hr⟩ := exists_of_map_eq_ok h
      cases hr
      rfl
  | group g span contents =>
      obtain ⟨r, hgroup, hr⟩ := exists_of_map_eq_ok h
      cases hr
      rw [Node.slots, Node.slots, hw.group hgroup]
  | rule r span head body =>
      obtain ⟨p, hrule, hp⟩ := exists_of_map_eq_ok h
      cases hp
      rw [Node.slots, Node.slots, (hw.rule hrule).1, (hw.rule hrule).2]

/-- The visitor of a sweep that keeps the shape keeps what is below a node. -/
theorem KeepsShape.keepsBelow (hw : w.KeepsShape) : w.visitor.KeepsBelow where
  answer := by
    intro c n s m
    cases henter : w.enter n s with
    | error e => simp [enter_visitor_of_error henter]
    | ok r => simp [enter_visitor_of_ok henter]
  slots := by
    intro c n s
    cases henter : w.enter n s with
    | error e => rw [enter_visitor_of_error henter]
    | ok r =>
        rw [enter_visitor_of_ok henter]
        exact hw.slots_enter henter

/-- To sweep a document is to sweep it as a node. -/
theorem KeepsShape.node_toNode (hw : w.KeepsShape) (d : Document) (s : σ) :
    w.node d.toNode s = (w.document d s).map fun p => (p.1.toNode, p.2) := by
  rw [Document.toNode, node, Sweep.document, hw.document]
  dsimp only
  cases w.nodes d.contents s with
  | error e => rfl
  | ok p =>
      dsimp only
      rw [hw.endDocument]
      rfl

/-- The traversal of a document with the visitor of a sweep that keeps the shape ends with the result of the
recursion. -/
theorem KeepsShape.traverse_visitor (hw : w.KeepsShape) (d : Document) (s : σ) :
    (∃ d' s', w.document d s = .ok (d', s') ∧ d.traverse w.visitor (2 * d.toNode.size + 1) s
      = some (.finished (.node d'.toNode) s')) ∨
    ∃ e s', w.document d s = .error e ∧ d.traverse w.visitor (2 * d.toNode.size + 1) s
      = some (.failed e s') := by
  obtain ⟨r, hr⟩ := exists_traverse hw.keepsBelow (.node d.toNode) s
  have hsize : Node.sizeAll (Tree.node d.toNode).nodes = d.toNode.size := Nat.add_zero _
  rw [hsize] at hr
  have hwalk := (exists_traverse_iff w.visitor (.node d.toNode) s r).1 ⟨_, hr⟩
  rw [Document.traverse, hr]
  have hnode := hw.node_toNode d s
  rw [Tree.walk] at hwalk
  rcases agreesAt_of_mem [d.toNode] d.toNode List.mem_cons_self [] [] s with
    ⟨n', s', hn, hpassed⟩ | ⟨e, s', hn, hfailed⟩
  · rw [hpassed] at hwalk
    cases hwalk
    cases hdocument : w.document d s with
    | error e =>
        rw [hn, hdocument] at hnode
        cases hnode
    | ok p =>
        rw [hn, hdocument] at hnode
        cases hnode
        exact .inl ⟨p.1, p.2, rfl, rfl⟩
  · rw [hfailed] at hwalk
    cases hwalk
    cases hdocument : w.document d s with
    | error e' =>
        rw [hn, hdocument] at hnode
        cases hnode
        exact .inr ⟨e, s', rfl, rfl⟩
    | ok p =>
        rw [hn, hdocument] at hnode
        cases hnode

/-- **A sweep is a traversal.** What the traversal of a document with the visitor of a sweep gives is what
the recursion gives. -/
theorem KeepsShape.run_eq (hw : w.KeepsShape) (d : Document) (s : σ) : w.run d s = w.document d s := by
  rw [run]
  rcases hw.traverse_visitor d s with ⟨d', s', hdocument, htraverse⟩ | ⟨e, s', hdocument, htraverse⟩
  · rw [htraverse, hdocument]
    rfl
  · rw [htraverse, hdocument]

end Sweep

end SpecDoc
