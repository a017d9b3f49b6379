import SpecDoc.Node

/-!
# Traversals

A traversal walks through a tree and asks a visitor what to do at each node: when the node is entered,
before the nodes below it, and when it is left, after them. The visitor may change the node and may
skip what is below it, delete it, put something in its place, or stop the walk.

The walk is a machine. Its stack holds a frame for each node that was entered and not yet left; the
children of such a node are detached from it and wait in the frame's cursors, and they are put back when
the last of them was visited, right before the node is left.

The machine has one path for all frames. The keys of a child are put at its end when the child is taken,
and the frame of a node only knows how many of them there were: so many are dropped from the end when the
walk is done with the node.

* `Traversal.step` is one step of the machine;
* `Traversal.run` takes as many steps as it may;
* `Tree.traverse` traverses a tree, `Document.traverse` a document.
-/

namespace SpecDoc

/-- One step of the way from the root to a node: the name of a slot, or a position in it. -/
inductive Key where
  | field (name : String)
  | index (position : Nat)
deriving DecidableEq

/-- The key as it is shown. -/
def Key.toString : Key → String
  | .field name => name
  | .index position => Nat.repr position

instance : ToString Key := ⟨Key.toString⟩

/-- What is traversed: one node or a sequence of nodes. -/
inductive Tree where
  | node (n : Node)
  | sequence (ns : List Node)

/-- The nodes of a tree. -/
def Tree.nodes : Tree → List Node
  | .node n => [n]
  | .sequence ns => ns

/-- What a visitor wants to be done with a node. -/
inductive Action where
  /-- Go on. -/
  | proceed
  /-- Do not go below the node and do not leave it. -/
  | skip
  /-- Stop the walk. -/
  | halt
  /-- Take the node out. -/
  | delete
  /-- Put a tree in its place. A single node is walked through instead of it when the node is
  entered; a sequence takes its place among its neighbours. -/
  | replace (tree : Tree)

/-- Where a node stands: the keys on the way to it and the nodes around it, without their children,
both from the root. -/
structure Context where
  path : List Key
  ancestors : List Node

namespace Context

/-- The last key on the way to the node. -/
def key? (c : Context) : Option Key := c.path.getLast?

/-- The node right above. -/
def parent? (c : Context) : Option Node := c.ancestors.getLast?

/-- The number of nodes above. -/
def depth (c : Context) : Nat := c.ancestors.length

end Context

/-- The answer of a visitor: the node as it is now, its own state, and what to do or a failure. -/
structure Reply (σ ε : Type) where
  node : Node
  state : σ
  answer : Except ε Action

/-- A visitor with a state. -/
structure Visitor (σ ε : Type) where
  enter : Context → Node → σ → Reply σ ε
  leave : Context → Node → σ → Reply σ ε

namespace Traversal

/-! ## Frames -/

/-- A slot whose children are visited one after the other: the name of the slot, unless it is that of
the root; whether it holds at most one node; the children that wait, the position of the next of them,
and what the visited ones became. -/
structure Cursor where
  field : Option String
  single : Bool
  waiting : List Node
  position : Nat
  finished : List Tree

/-- The nodes of a slot: what its visited children became, then those that were not visited. -/
def Cursor.nodes (c : Cursor) : List Node := c.finished.flatMap Tree.nodes ++ c.waiting

/-- A slot before any of its children is visited. -/
def Cursor.ofSlot (s : Slot) : Cursor := ⟨some s.name, s.isOne, s.nodes, 0, []⟩

/-- The keys of the next child of a slot. -/
def Cursor.keys (c : Cursor) : List Key :=
  (c.field.map Key.field).toList ++ if c.single then [] else [.index c.position]

/-- A node that was entered and not yet left: the node without its children, or nothing for the frame
below all others; the number of keys that were put at the end of the path for it; and its slots in order,
those that are done before those that are not. -/
structure Frame where
  node : Option Node
  keys : Nat
  done : List Cursor
  slots : List Cursor

namespace Frame

/-- The frame below all others. -/
def root (t : Tree) : Frame :=
  match t with
  | .node n => ⟨none, 0, [], [⟨none, true, [n], 0, []⟩]⟩
  | .sequence ns => ⟨none, 0, [], [⟨none, false, ns, 0, []⟩]⟩

/-- The frame of a node for which a number of keys were put at the end of the path. -/
def ofNode (keys : Nat) (n : Node) : Frame := ⟨some n.shell, keys, [], n.slots.map Cursor.ofSlot⟩

/-- The next child that waits, searched in the given slots after those that are done: the child, its
keys, and the slots without it. -/
def nextChild (done : List Cursor) :
    List Cursor → List Cursor × Option (Node × List Key) × List Cursor
  | [] => (done, none, [])
  | c :: cs =>
    match c.waiting with
    | [] => nextChild (done ++ [c]) cs
    | n :: ns =>
      (done, some (n, c.keys), { c with waiting := ns, position := c.position + 1 } :: cs)

/-- Notes what became of the child that was visited last. -/
def record (f : Frame) (t : Tree) : Frame :=
  match f.slots with
  | [] => f
  | c :: cs => { f with slots := { c with finished := c.finished ++ [t] } :: cs }

/-- The node of a frame with its children put back. -/
def close (f : Frame) (shell : Node) : Node :=
  shell.withSlots ((f.done ++ f.slots).map Cursor.nodes)

/-- The tree that the lowest frame has become. A single root may have become anything; a sequence stays
a sequence. -/
def closeRoot (f : Frame) : Tree :=
  match f.done ++ f.slots with
  | [] => .sequence []
  | c :: _ =>
    if c.single then
      match c.finished, c.waiting with
      | t :: _, _ => t
      | [], [n] => .node n
      | [], ns => .sequence ns
    else .sequence c.nodes

end Frame

/-! ## The machine -/

/-- The result of a traversal. -/
inductive Result (σ ε : Type) where
  | finished (tree : Tree) (state : σ)
  | failed (failure : ε) (state : σ)

/-- The machine goes on with a stack, the innermost frame first, and the path, or has a result. -/
inductive Progress (σ ε : Type) where
  | running (stack : List Frame) (path : List Key) (state : σ)
  | ended (result : Result σ ε)

/-- The nodes of a stack, from the root. -/
def ancestors (stack : List Frame) : List Node := (stack.filterMap Frame.node).reverse

/-- Notes in the innermost frame what became of its child. -/
def settle (stack : List Frame) (t : Tree) : List Frame :=
  match stack with
  | [] => []
  | f :: fs => f.record t :: fs

/-- A path without so many keys at its end. -/
def shorten (path : List Key) (keys : Nat) : List Key := path.take (path.length - keys)

/-- Keys that were put at the end of a path can be dropped again. -/
@[simp]
theorem shorten_append (path keys : List Key) : shorten (path ++ keys) keys.length = path := by
  simp [shorten]

/-- Closes all frames of a stack without asking the visitor. -/
def unwind : List Frame → Tree
  | [] => .sequence []
  | [f] => f.closeRoot
  | f :: g :: fs =>
    match f.node with
    | none => unwind (g :: fs)
    | some shell => unwind (g.record (.node (f.close shell)) :: fs)
termination_by stack => stack.length

variable {σ ε : Type}

/-- Leaves a node whose children were visited; `keys` is how many keys at the end of the path are its own,
and `stack` are the frames of the nodes around it. -/
def leaveNode (v : Visitor σ ε) (path : List Key) (keys : Nat) (stack : List Frame) (n : Node) (s : σ) :
    Progress σ ε :=
  let reply := v.leave ⟨path, ancestors stack⟩ n s
  let path := shorten path keys
  match reply.answer with
  | .error e => .ended (.failed e reply.state)
  | .ok .proceed => .running (settle stack (.node reply.node)) path reply.state
  | .ok .skip => .running (settle stack (.node reply.node)) path reply.state
  | .ok .delete => .running (settle stack (.sequence [])) path reply.state
  | .ok (.replace t) => .running (settle stack t) path reply.state
  | .ok .halt => .ended (.finished (unwind (settle stack (.node reply.node))) reply.state)

/-- Goes below a node that was entered. A leaf is left at once. -/
def descend (v : Visitor σ ε) (path : List Key) (keys : Nat) (stack : List Frame) (n : Node) (s : σ) :
    Progress σ ε :=
  match n with
  | .leaf _ _ => leaveNode v path keys stack n s
  | n => .running (.ofNode keys n :: stack) path s

/-- Enters a node whose keys are at the end of the path; `stack` are the frames of the nodes around it. -/
def enterNode (v : Visitor σ ε) (path : List Key) (keys : Nat) (stack : List Frame) (n : Node) (s : σ) :
    Progress σ ε :=
  let reply := v.enter ⟨path, ancestors stack⟩ n s
  match reply.answer with
  | .error e => .ended (.failed e reply.state)
  | .ok .proceed => descend v path keys stack reply.node reply.state
  | .ok (.replace (.node m)) => descend v path keys stack m reply.state
  | .ok .skip => .running (settle stack (.node reply.node)) (shorten path keys) reply.state
  | .ok .delete => .running (settle stack (.sequence [])) (shorten path keys) reply.state
  | .ok (.replace (.sequence ns)) =>
    .running (settle stack (.sequence ns)) (shorten path keys) reply.state
  | .ok .halt => .ended (.finished (unwind (settle stack (.node reply.node))) reply.state)

/-- One step: the next child of the innermost frame is entered, or its node is left. -/
def step (v : Visitor σ ε) (stack : List Frame) (path : List Key) (s : σ) : Progress σ ε :=
  match stack with
  | [] => .ended (.finished (.sequence []) s)
  | f :: fs =>
    match Frame.nextChild f.done f.slots with
    | (done, some (n, keys), slots) =>
      enterNode v (path ++ keys) keys.length ({ f with done, slots } :: fs) n s
    | (done, none, slots) =>
      let f := { f with done, slots }
      match f.node, fs with
      | some shell, g :: gs => leaveNode v path f.keys (g :: gs) (f.close shell) s
      | _, [] => .ended (.finished f.closeRoot s)
      | none, g :: gs => .running (g :: gs) path s

/-- At most `fuel` steps. There is no result if they are not enough: a visitor may put a new node in the
place of every node it enters, without end. -/
def run (v : Visitor σ ε) : Nat → List Frame → List Key → σ → Option (Result σ ε)
  | 0, _, _, _ => none
  | fuel + 1, stack, path, s =>
    match step v stack path s with
    | .running stack path s => run v fuel stack path s
    | .ended r => some r

end Traversal

/-- Traverses a tree in at most `fuel` steps. -/
def Tree.traverse {σ ε : Type} (v : Visitor σ ε) (fuel : Nat) (t : Tree) (s : σ) :
    Option (Traversal.Result σ ε) :=
  Traversal.run v fuel [.root t] [] s

/-- The document that a tree is; anything else becomes the contents of a document without a title. -/
def Document.ofTree (t : Tree) : Document :=
  match t with
  | .node n => (Document.ofNode? n).getD ⟨none, [n], none⟩
  | .sequence ns => ⟨none, ns, none⟩

/-- Traverses a document in at most `fuel` steps. The result is a document again. -/
def Document.traverse {σ ε : Type} (v : Visitor σ ε) (fuel : Nat) (d : Document) (s : σ) :
    Option (Traversal.Result σ ε) :=
  (Tree.traverse v fuel (.node d.toNode) s).map fun
    | .finished t s => .finished (.node (Document.ofTree t).toNode) s
    | r => r

end SpecDoc
