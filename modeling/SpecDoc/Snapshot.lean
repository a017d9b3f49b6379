import SpecDoc.Json.Reader
import SpecDoc.Node

/-!
# Snapshots

A snapshot is a plain record of a tree: for each node its kind, its label, the attributes that matter
to a reader and the snapshots of its children.

* `Node.snapshot` takes the snapshot of a node;
* `Snapshot.toJson` writes it as JSON, where empty attributes and children are left out;
* `Snapshot.ofJson?` reads it back.
-/

namespace SpecDoc

/-- The record of a node. -/
inductive Snapshot where
  | mk (nodeType label : String) (attributes : Table String) (children : List Snapshot)

/-! ## Taking a snapshot -/

/-- An attribute that is there only if it has a value. -/
def optionalAttribute (name : String) : Option String → List (String × String)
  | none => []
  | some value => [(name, value)]

/-- A yes-or-no attribute, which is there only if it holds. -/
def flagAttribute (name : String) (holds : Bool) : List (String × String) :=
  if holds then [(name, "true")] else []

/-- The attributes of a leaf, its anchor apart. -/
def Leaf.attributes : Leaf → List (String × String)
  | .code c =>
    flagAttribute "example" c.isExample ++ flagAttribute "counter" c.isCounter ++
      optionalAttribute "number" (c.number.map fun n => Nat.repr n.toNat) ++ [("code", c.text)]
  | .call _ args => if args.isEmpty then [] else [("args", ", ".intercalate args)]
  | _ => []

/-- The attributes of a group, its anchor apart. -/
def Group.attributes : Group → List (String × String)
  | .numberedSection s =>
    optionalAttribute "number" s.number ++ optionalAttribute "override" s.override
  | .subsection s => if s.secId.isEmpty then [] else [("sec_id", s.secId.dotted)]
  | .list ordered => [("ordered", if ordered then "true" else "false")]
  | _ => []

/-- The attributes of a rule, its anchor apart. -/
def Rule.attributes : Rule → List (String × String)
  | .algorithm _ => []
  | .production defType _ => [("def_type", Nat.repr defType.toNat)]
  | .oneOfProduction defType _ => [("def_type", Nat.repr defType.toNat)]

/-- The attributes of a node. -/
def Node.attributes (n : Node) : Table String :=
  Table.ofList (optionalAttribute "id" n.id? ++
    match n with
    | .leaf l _ => l.attributes
    | .group g _ _ => g.attributes
    | .rule r _ _ _ => r.attributes)

namespace Node

mutual

/-- The snapshot of a node and all nodes below it. -/
def snapshot : Node → Snapshot
  | .leaf l span =>
    .mk l.kind.name (l.label?.getD "") (attributes (.leaf l span)) []
  | .group g span contents =>
    .mk g.kind.name (g.label?.getD "") (attributes (.group g span contents)) (snapshots contents)
  | .rule r span head body =>
    .mk r.kind.name ((r.label? head).getD "") (attributes (.rule r span head body))
      (headSnapshots head ++ snapshots body)

/-- The snapshots of a sequence of nodes. -/
def snapshots : List Node → List Snapshot
  | [] => []
  | n :: ns => n.snapshot :: snapshots ns

/-- The snapshot of the head of a rule, if there is a head. -/
def headSnapshots : Option Node → List Snapshot
  | none => []
  | some n => [n.snapshot]

end

end Node

/-- The snapshot of a document. -/
def Document.snapshot (d : Document) : Snapshot :=
  .mk Kind.document.name (d.title.getD "") Table.empty (Node.snapshots d.contents)

namespace Snapshot

/-! ## Writing -/

/-- A table of texts as a JSON object. -/
def tableToJson (t : Table String) : Json :=
  .object (t.entries.map fun e => (e.1, .string e.2))

mutual

/-- The snapshot as a JSON object; empty attributes and children are left out. -/
def toJson : Snapshot → Json
  | .mk nodeType label attributes children =>
    .object
      ([("node_type", .string nodeType), ("label", .string label)] ++
        (if attributes.entries.isEmpty then [] else [("attributes", tableToJson attributes)]) ++
        match children with
        | [] => []
        | c :: cs => [("children", .array (toJson c :: toJsonAll cs))])

/-- The snapshots of a sequence as JSON objects. -/
def toJsonAll : List Snapshot → List Json
  | [] => []
  | s :: ss => s.toJson :: toJsonAll ss

end

/-! ## Reading -/

/-- The value of a field that must occur at most once: `none` if it occurs twice. -/
def uniqueField? (name : String) (fields : List (String × Json)) : Option (Option Json) :=
  match fields.filter fun f => f.1 == name with
  | [] => some none
  | [f] => some (some f.2)
  | _ => none

/-- A snapshot from its four parts, of which the last two may be missing. -/
def ofParts? (children? : Json → Option (List Snapshot)) (nodeType label : Json)
    (attributes children : Option Json) : Option Snapshot := do
  let nodeType ← nodeType.string?
  let label ← label.string?
  let attributes ← match attributes with
    | none => some Table.empty
    | some j => j.table? Json.string?
  let children ← match children with
    | none => some []
    | some j => children? j
  return .mk nodeType label attributes children

/-- Reads a snapshot of at most `depth` levels from an object, whose other fields do not matter, or from
an array of its parts in order. -/
def ofJsonWithin? : Nat → Json → Option Snapshot
  | 0, _ => none
  | depth + 1, j =>
    let children? : Json → Option (List Snapshot)
      | .array items => items.mapM (ofJsonWithin? depth)
      | _ => none
    match j with
    | .object fields => do
      let nodeType ← (← uniqueField? "node_type" fields)
      let label ← (← uniqueField? "label" fields)
      let attributes ← uniqueField? "attributes" fields
      let children ← uniqueField? "children" fields
      ofParts? children? nodeType label attributes children
    | .array [nodeType, label] => ofParts? children? nodeType label none none
    | .array [nodeType, label, attributes] =>
      ofParts? children? nodeType label (some attributes) none
    | .array [nodeType, label, attributes, children] =>
      ofParts? children? nodeType label (some attributes) (some children)
    | _ => none

/-- Reads a snapshot. -/
def ofJson? (j : Json) : Option Snapshot := ofJsonWithin? j.depth j

end Snapshot

end SpecDoc
