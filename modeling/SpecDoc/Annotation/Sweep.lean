import SpecDoc.Node.Descendants
import SpecDoc.Traversal

/-!
# Sweeps

A sweep goes once through a document, each node before those below it, and carries a state along. At each
node it may change what the node holds, never its children; it may also refuse the node, which ends
it. After the nodes below a group the sweep is told that the group ends.

* `Sweep.visitor` is the visitor that sweeps;
* `Sweep.run` sweeps a document: this visitor traverses it.
-/

namespace SpecDoc

/-- What a sweep does at each node. A group is seen with its contents and a rule with its head. -/
structure Sweep (σ ε : Type) where
  leaf : Leaf → σ → Except ε (Leaf × σ)
  group : Group → Option Span → List Node → σ → Except ε (Group × σ)
  endGroup : Group → σ → σ
  rule : Rule → Option Node → σ → Except ε (Rule × σ)

namespace Sweep

variable {σ ε : Type}

/-- The node and the state after a sweep has come to a node. -/
def enter (w : Sweep σ ε) (n : Node) (s : σ) : Except ε (Node × σ) :=
  match n with
  | .leaf l span => (w.leaf l s).map fun r => (.leaf r.1 span, r.2)
  | .group g span contents => (w.group g span contents s).map fun r => (.group r.1 span contents, r.2)
  | .rule r span head body => (w.rule r head s).map fun r => (.rule r.1 span head body, r.2)

/-- The state after a sweep is done with a node and all nodes below it. -/
def leave (w : Sweep σ ε) (n : Node) (s : σ) : σ :=
  match n with
  | .group g _ _ => w.endGroup g s
  | _ => s

/-- The visitor that sweeps. It goes on at every node that is not refused. -/
def visitor (w : Sweep σ ε) : Visitor σ ε where
  enter _ n s :=
    match w.enter n s with
    | .error e => ⟨n, s, .error e⟩
    | .ok (n, s) => ⟨n, s, .ok .proceed⟩
  leave _ n s := ⟨n, w.leave n s, .ok .proceed⟩

/-- Sweeps a document. A sweep puts nothing in the place of a node, so that two steps are enough for each
node, and there is always a result. -/
@[irreducible]
def run (w : Sweep σ ε) (d : Document) (s : σ) : Except ε (Document × σ) :=
  match d.traverse w.visitor (2 * d.toNode.size + 1) s with
  | some (.finished t s) => .ok (Document.ofTree t, s)
  | some (.failed e _) => .error e
  | none => .ok (d, s)

end Sweep

end SpecDoc
