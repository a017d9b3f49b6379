import SpecDoc.Node

/-!
# Descendants

The nodes below a node are listed by an iterator, each before those below itself. It keeps a stack of the
nodes that are still to come. The last of the stack is the next one, so nodes are put on it in reverse:
behind the others of the stack, the first child of a node is the last.

* `Descendants.next?` takes the next node from the stack;
* `Node.descendants` and `Document.descendants` list all nodes below a node and in a document.
-/

namespace SpecDoc

namespace Node

mutual

/-- The number of nodes that a node is, with all nodes below it. -/
def size : Node → Nat
  | .leaf _ _ => 1
  | .group _ _ contents => sizeAll contents + 1
  | .rule _ _ head body => sizeHead head + sizeAll body + 1

/-- The number of nodes of a sequence, with all nodes below them. -/
def sizeAll : List Node → Nat
  | [] => 0
  | n :: ns => n.size + sizeAll ns

/-- The number of nodes of a head, with all nodes below it. -/
def sizeHead : Option Node → Nat
  | none => 0
  | some n => n.size

end

end Node

/-- An iterator over nodes and all nodes below them: those whose turn is still to come, the next one
last. -/
structure Descendants where
  stack : List Node

namespace Descendants

/-- The iterator over some nodes and all nodes below them. -/
def ofNodes (roots : List Node) : Descendants := ⟨roots.reverse⟩

/-- The next node, with the iterator over those behind it. -/
def next? (it : Descendants) : Option (Node × Descendants) :=
  match it.stack.getLast? with
  | none => none
  | some n => some (n, ⟨it.stack.dropLast ++ n.children.reverse⟩)

/-- The next nodes, at most so many. -/
def take : Nat → Descendants → List Node
  | 0, _ => []
  | k + 1, it =>
    match it.next? with
    | none => []
    | some (n, it) => n :: it.take k

/-- All nodes that are to come. There are as many as those of the stack and all below them. -/
def toList (it : Descendants) : List Node := it.take (Node.sizeAll it.stack)

end Descendants

/-- All nodes below a node, each before those below itself. -/
def Node.descendants (n : Node) : List Node := (Descendants.ofNodes n.children).toList

/-- All nodes of a document, each before those below itself. -/
def Document.descendants (d : Document) : List Node := (Descendants.ofNodes d.contents).toList

end SpecDoc
