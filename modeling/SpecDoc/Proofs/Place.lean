import SpecDoc.Proofs.Descendants

/-!
# Places in a tree

A place is a node of a tree together with the nodes around it. `Node.placesIn` lists the places of a
sequence of nodes in document order, as `Node.preorder` lists its nodes.

* `map_node_placesIn`: the places are those of the nodes in preorder;
* `Place.enclosingId`: the id of the nearest section around a place.
-/

namespace SpecDoc

/-- A node and the nodes around it, the innermost first. -/
structure Place where
  around : List Node
  node : Node

namespace Node

/-- The section that a node is, if it is one. -/
def section? : Node → Option Section
  | .group (.numberedSection s) _ _ => some s
  | _ => none

/-- Groups of any other kind are no sections. -/
theorem section?_group {g : Group} (hg : ∀ sec, g ≠ .numberedSection sec) (span : Option Span)
    (contents : List Node) : (group g span contents).section? = none := by
  cases g with
  | numberedSection sec => exact absurd rfl (hg sec)
  | _ => rfl

/-- The subsection that a node is, if it is one. -/
def subsection? : Node → Option Subsection
  | .group (.subsection s) _ _ => some s
  | _ => none

/-- A group that is seen as a subsection is this subsection. -/
theorem eq_of_subsection?_group {g : Group} {span : Option Span} {contents : List Node}
    {sub : Subsection} (h : (group g span contents).subsection? = some sub) :
    g = .subsection sub := by
  cases g with
  | subsection s =>
      cases h
      rfl
  | _ => cases h

/-- The id of a section is its anchor. -/
theorem id?_of_section? {n : Node} {sec : Section} (h : n.section? = some sec) : n.id? = sec.id := by
  cases n with
  | group g span contents =>
      cases g with
      | numberedSection s =>
          cases h
          rfl
      | _ => cases h
  | _ => cases h

/-- The id of a subsection is its anchor. -/
theorem id?_of_subsection? {n : Node} {sub : Subsection} (h : n.subsection? = some sub) :
    n.id? = sub.id := by
  cases n with
  | group g span contents =>
      obtain rfl := eq_of_subsection?_group h
      rfl
  | _ => cases h

mutual

/-- The places below a node that stands in `around`. -/
def placesBelow (around : List Node) : Node → List Place
  | .leaf _ _ => []
  | .group g span contents => placesIn (.group g span contents :: around) contents
  | .rule r span head body =>
    placesOfHead (.rule r span head body :: around) head ++
      placesIn (.rule r span head body :: around) body

/-- The places of a sequence of nodes that stands in `around`. -/
def placesIn (around : List Node) : List Node → List Place
  | [] => []
  | n :: ns => ⟨around, n⟩ :: (placesBelow around n ++ placesIn around ns)

/-- The places of the head of a rule. -/
def placesOfHead (around : List Node) : Option Node → List Place
  | none => []
  | some n => ⟨around, n⟩ :: placesBelow around n

end

/-- The head is like a sequence of at most one node. -/
theorem placesOfHead_eq (around : List Node) (head : Option Node) :
    placesOfHead around head = placesIn around head.toList := by
  cases head <;> simp [placesIn, placesOfHead]

mutual

/-- The places below a node are those of the nodes below it. -/
theorem map_node_placesBelow (around : List Node) (n : Node) :
    (placesBelow around n).map Place.node = n.preorderBelow := by
  cases n with
  | leaf l span => rfl
  | group g span contents =>
      rw [placesBelow, preorderBelow]
      exact map_node_placesIn _ contents
  | rule r span head body =>
      rw [placesBelow, preorderBelow, List.map_append, map_node_placesOfHead _ head,
        map_node_placesIn _ body]

/-- The places of a sequence are those of its nodes in preorder. -/
theorem map_node_placesIn (around ns : List Node) :
    (placesIn around ns).map Place.node = preorder ns := by
  cases ns with
  | nil => rfl
  | cons n ns =>
      rw [placesIn, preorder, List.map_cons, List.map_append, map_node_placesBelow around n,
        map_node_placesIn around ns]

/-- The places of a head are those of its nodes in preorder. -/
theorem map_node_placesOfHead (around : List Node) (head : Option Node) :
    (placesOfHead around head).map Place.node = preorderHead head := by
  cases head with
  | none => rfl
  | some n =>
      rw [placesOfHead, preorderHead, List.map_cons, map_node_placesBelow around n]

end

/-- The nodes of a sequence and those below them are the nodes at its places. -/
theorem mem_preorder_iff (around : List Node) {ns : List Node} {n : Node} :
    n ∈ preorder ns ↔ ∃ p ∈ placesIn around ns, p.node = n := by
  rw [← map_node_placesIn around, List.mem_map]

end Node

/-- The sections of a sequence of nodes, in document order. -/
def Node.sectionsIn (ns : List Node) : List Section := (Node.preorder ns).filterMap Node.section?

namespace Node

@[simp]
theorem sectionsIn_nil : sectionsIn [] = [] := rfl

@[simp]
theorem sectionsIn_append (ms ns : List Node) :
    sectionsIn (ms ++ ns) = sectionsIn ms ++ sectionsIn ns := by
  rw [sectionsIn, preorder_append, List.filterMap_append]
  rfl

/-- The sections of a sequence are the first node, if it is one, those below it and those behind it. -/
theorem sectionsIn_cons (n : Node) (ns : List Node) :
    sectionsIn (n :: ns) = n.section?.toList ++ sectionsIn n.children ++ sectionsIn ns := by
  rw [sectionsIn, preorder_cons]
  cases h : n.section? <;> simp [sectionsIn, h]

/-- A leaf is no section. -/
@[simp]
theorem sectionsIn_leaf (l : Leaf) (span : Option Span) (ns : List Node) :
    sectionsIn (.leaf l span :: ns) = sectionsIn ns := by
  simp [sectionsIn_cons, section?, children]

/-- A section comes before those in it. -/
theorem sectionsIn_section (sec : Section) (span : Option Span) (contents ns : List Node) :
    sectionsIn (.group (.numberedSection sec) span contents :: ns)
      = sec :: (sectionsIn contents ++ sectionsIn ns) := by
  simp [sectionsIn_cons, section?, children]

/-- Any other group only has the sections in it. -/
theorem sectionsIn_group {g : Group} (hg : ∀ sec, g ≠ .numberedSection sec) (span : Option Span)
    (contents ns : List Node) :
    sectionsIn (.group g span contents :: ns) = sectionsIn contents ++ sectionsIn ns := by
  simp [sectionsIn_cons, section?_group hg, children]

/-- A rule only has the sections in its head and its body. -/
@[simp]
theorem sectionsIn_rule (r : Rule) (span : Option Span) (head : Option Node) (body ns : List Node) :
    sectionsIn (.rule r span head body :: ns)
      = sectionsIn head.toList ++ sectionsIn body ++ sectionsIn ns := by
  simp [sectionsIn_cons, section?, children]

end Node

namespace Place

/-- The id of the nearest of the sections among nodes; it is empty where there is none. -/
def nearestId (around : List Node) : SectionId :=
  ((around.findSome? Node.section?).map Section.secId).getD []

/-- A section is nearer than what is around it. -/
theorem nearestId_section (sec : Section) (span : Option Span) (contents around : List Node) :
    nearestId (.group (.numberedSection sec) span contents :: around) = sec.secId := rfl

/-- What is no section does not matter. -/
theorem nearestId_of_section?_eq_none {n : Node} (h : n.section? = none) (around : List Node) :
    nearestId (n :: around) = nearestId around := by
  rw [nearestId, List.findSome?_cons, h]
  rfl

/-- The id of the nearest section around a place. -/
def enclosingId (p : Place) : SectionId := nearestId p.around

end Place

namespace Document

/-- The places of a document, in order. -/
def places (d : Document) : List Place := Node.placesIn [] d.contents

/-- The nodes of a document are those at its places. -/
theorem mem_descendants_iff {d : Document} {n : Node} :
    n ∈ d.descendants ↔ ∃ p ∈ d.places, p.node = n := by
  rw [d.descendants_eq]
  exact Node.mem_preorder_iff []

/-- The sections of a document, in order. -/
def sections (d : Document) : List Section := Node.sectionsIn d.contents

end Document

end SpecDoc
