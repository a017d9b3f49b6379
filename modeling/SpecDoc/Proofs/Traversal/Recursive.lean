import SpecDoc.Traversal

/-!
# Traversal by plain recursion

The traversal of a tree without a stack: a node is entered, the slots below it are walked through in
their order, what came out of them is put together to a node again, and this node is left.

A visitor may put a new node in the place of every node it enters, so the recursion need not end. Where
it does not, there is no outcome (`none`).

* `Visitor.walkNode` traverses a node, `Visitor.walkHead` and `Visitor.walkSequence` the two kinds of
  slots;
* `Tree.walk` traverses a tree.
-/

namespace SpecDoc

namespace Traversal

variable {σ ε : Type}

/-- What has become of a part of a tree. The walk has passed it; or it was halted there, and everything
that was not visited is as it was; or a callback has failed, and there is no tree. -/
inductive Outcome (α σ ε : Type) where
  | passed (part : α) (state : σ)
  | halted (part : α) (state : σ)
  | failed (failure : ε) (state : σ)

namespace Outcome

/-- The outcome for a larger part that is made of this one. -/
def map {α β : Type} (f : α → β) : Outcome α σ ε → Outcome β σ ε
  | .passed part s => .passed (f part) s
  | .halted part s => .halted (f part) s
  | .failed e s => .failed e s

/-- The result for the whole tree. -/
def result {α : Type} (f : α → Tree) : Outcome α σ ε → Result σ ε
  | .passed part s => .finished (f part) s
  | .halted part s => .finished (f part) s
  | .failed e s => .failed e s

end Outcome

/-- What comes of entering a node: the walk goes below a node, or has an outcome at once. -/
inductive Entry (σ ε : Type) where
  | below (n : Node) (state : σ)
  | settled (outcome : Outcome Tree σ ε)

/-! ## The recursion -/

/-- Enters a node. Only if the visitor goes on or puts a single node in its place, the walk goes below
a node. -/
def walkEnter (v : Visitor σ ε) (path : List Key) (around : List Node) (n : Node) (s : σ) :
    Entry σ ε :=
  let reply := v.enter ⟨path, around⟩ n s
  match reply.answer with
  | .error e => .settled (.failed e reply.state)
  | .ok .proceed => .below reply.node reply.state
  | .ok (.replace (.node m)) => .below m reply.state
  | .ok .skip => .settled (.passed (.node reply.node) reply.state)
  | .ok .delete => .settled (.passed (.sequence []) reply.state)
  | .ok (.replace (.sequence ns)) => .settled (.passed (.sequence ns) reply.state)
  | .ok .halt => .settled (.halted (.node reply.node) reply.state)

/-- Leaves a node. Nothing below it is visited any more, so a replacement is only put in its place. -/
def walkLeave (v : Visitor σ ε) (path : List Key) (around : List Node) (n : Node) (s : σ) :
    Outcome Tree σ ε :=
  let reply := v.leave ⟨path, around⟩ n s
  match reply.answer with
  | .error e => .failed e reply.state
  | .ok .proceed => .passed (.node reply.node) reply.state
  | .ok .skip => .passed (.node reply.node) reply.state
  | .ok .delete => .passed (.sequence []) reply.state
  | .ok (.replace t) => .passed t reply.state
  | .ok .halt => .halted (.node reply.node) reply.state

/-- Leaves the node that is made of the last of its slots, unless the walk came to an end in it. -/
def Outcome.leave {α : Type} (v : Visitor σ ε) (path : List Key) (around : List Node)
    (make : α → Node) : Outcome α σ ε → Outcome Tree σ ε
  | .passed part s => walkLeave v path around (make part) s
  | .halted part s => .halted (.node (make part)) s
  | .failed e s => .failed e s

end Traversal

open Traversal

namespace Visitor

variable {σ ε : Type}

mutual

/-- Enters a node and goes below it, or below the node that the visitor puts in its place. -/
def walkNode (v : Visitor σ ε) (path : List Key) (around : List Node) (n : Node) (s : σ) :
    Option (Outcome Tree σ ε) :=
  match walkEnter v path around n s with
  | .below m s => v |>.walkBelow path around m s
  | .settled outcome => some outcome
partial_fixpoint

/-- Goes through the slots of a node that was entered, and leaves it with what came out of them. -/
def walkBelow (v : Visitor σ ε) (path : List Key) (around : List Node) (n : Node) (s : σ) :
    Option (Outcome Tree σ ε) :=
  match n with
  | .leaf l span => some (walkLeave v path around (.leaf l span) s)
  | .group g span contents => do
    let outcome ← v |>.walkSequence (path ++ [.field g.slotName]) (around ++ [.group g span []])
      0 contents s
    some (outcome.leave v path around (.group g span))
  | .rule r span head body => do
    match ← v |>.walkHead (path ++ [.field r.headName]) (around ++ [.rule r span none []]) head s with
    | .failed e s => some (.failed e s)
    | .halted head s => some (.halted (.node (.rule r span head body)) s)
    | .passed head s => do
      let outcome ← v |>.walkSequence (path ++ [.field r.bodyName]) (around ++ [.rule r span none []])
        0 body s
      some (outcome.leave v path around (.rule r span head))
partial_fixpoint

/-- Goes through a slot of at most one node, which keeps the first of the nodes that come out. -/
def walkHead (v : Visitor σ ε) (path : List Key) (around : List Node) (head : Option Node) (s : σ) :
    Option (Outcome (Option Node) σ ε) :=
  match head with
  | none => some (.passed none s)
  | some n => do
    let outcome ← v |>.walkNode path around n s
    some (outcome.map fun t => t.nodes.head?)
partial_fixpoint

/-- Goes through a sequence of nodes, the first of which has the given position in its slot. -/
def walkSequence (v : Visitor σ ε) (path : List Key) (around : List Node) (position : Nat)
    (ns : List Node) (s : σ) : Option (Outcome (List Node) σ ε) :=
  match ns with
  | [] => some (.passed [] s)
  | n :: ns => do
    match ← v |>.walkNode (path ++ [.index position]) around n s with
    | .failed e s => some (.failed e s)
    | .halted t s => some (.halted (t.nodes ++ ns) s)
    | .passed t s => do
      let outcome ← v |>.walkSequence path around (position + 1) ns s
      some (outcome.map (t.nodes ++ ·))
partial_fixpoint

end

end Visitor

/-- Traverses a tree by recursion; `none` if that does not end. -/
def Tree.walk {σ ε : Type} (v : Visitor σ ε) (t : Tree) (s : σ) : Option (Result σ ε) :=
  match t with
  | .node n => (v.walkNode [] [] n s).map (Outcome.result id)
  | .sequence ns => (v.walkSequence [] [] 0 ns s).map (Outcome.result Tree.sequence)

end SpecDoc
