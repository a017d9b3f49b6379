import SpecDoc.Node

/-!
# Splicing

The imports of a document are replaced, in the order in which they are read, by the contents of the
documents that they stand for. The contents take the place of the import among its neighbours; as the
head of a rule only the first of them is kept.

* `Document.splice` replaces the imports of a document.
-/

namespace SpecDoc

namespace Node

mutual

/-- The nodes that stand in the place of a node, and the documents that are left over for the imports
after it. An import for which none is left stays. -/
def splice : Node → List Document → List Node × List Document
  | .leaf (.importLink _) _, d :: ds => (d.contents, ds)
  | .leaf l span, ds => ([.leaf l span], ds)
  | .group g span contents, ds =>
    let (contents, ds) := spliceAll contents ds
    ([.group g span contents], ds)
  | .rule r span head body, ds =>
    let (head, ds) := spliceHead head ds
    let (body, ds) := spliceAll body ds
    ([.rule r span head.head? body], ds)

/-- The nodes that stand in the place of a sequence. -/
def spliceAll : List Node → List Document → List Node × List Document
  | [], ds => ([], ds)
  | n :: ns, ds =>
    let (first, ds) := splice n ds
    let (rest, ds) := spliceAll ns ds
    (first ++ rest, ds)

/-- The nodes that stand in the place of the head of a rule. -/
def spliceHead : Option Node → List Document → List Node × List Document
  | none, ds => ([], ds)
  | some n, ds => splice n ds

end

end Node

/-- The document with its imports replaced by the contents of the given documents, in order. -/
def Document.splice (d : Document) (resolved : List Document) : Document :=
  { d with contents := (Node.spliceAll d.contents resolved).1 }

end SpecDoc
