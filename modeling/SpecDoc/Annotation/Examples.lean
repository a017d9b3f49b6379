import SpecDoc.Annotation.Sweep

/-!
# Example numbering

The examples of a document, counter-examples among them, are numbered from one in the order in which
they are read. Other code is left as it is.
-/

namespace SpecDoc

namespace ExampleNumbering

/-- Numbers a leaf that is an example, after `count` others. -/
def numberLeaf (l : Leaf) (count : UInt32) : Leaf × UInt32 :=
  match l with
  | .code c =>
    if c.isExample then (.code { c with number := some (count + 1) }, count + 1) else (.code c, count)
  | l => (l, count)

/-- The sweep that numbers examples; it refuses nothing. -/
def sweep : Sweep UInt32 Empty where
  leaf l count := .ok (numberLeaf l count)
  group g _ _ count := .ok (g, count)
  endGroup _ count := count
  rule r _ count := .ok (r, count)

end ExampleNumbering

/-- Numbers the examples of a document. -/
def numberExamples (d : Document) : Document :=
  match ExampleNumbering.sweep.run d 0 with
  | .ok (d, _) => d

end SpecDoc
