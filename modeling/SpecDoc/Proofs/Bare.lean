import SpecDoc.Proofs.Spans

/-!
# Documents without places

A bare node is a node that does not tell where it was read: all its spans are the origin. Two
documents that are equal but for their spans are those that are equal when they are bare.

* `Node.bare` and `Document.bare` forget the places;
* `Node.relabels_bare` and `sectionSlugs_bare`: texts, names and slugs do not depend on them.
-/

namespace SpecDoc

/-- A span that does not tell where. -/
def bareSpan (span : Option Span) : Option Span := span.map fun _ => .origin

namespace Node

mutual

/-- The node without its places. -/
def bare : Node → Node
  | .leaf l span => .leaf l (bareSpan span)
  | .group g span contents => .group g (bareSpan span) (bareAll contents)
  | .rule r span head body => .rule r (bareSpan span) (bareHead head) (bareAll body)

/-- The nodes of a sequence without their places. -/
def bareAll : List Node → List Node
  | [] => []
  | n :: ns => n.bare :: bareAll ns

/-- The head of a rule without its places. -/
def bareHead : Option Node → Option Node
  | none => none
  | some n => some n.bare

end

/-- Each node of a sequence is made bare. -/
theorem bareAll_eq_map (ns : List Node) : bareAll ns = ns.map bare := by
  induction ns with
  | nil => rfl
  | cons n ns ih => rw [bareAll, ih, List.map_cons]

/-- The head is made bare, if there is one. -/
theorem bareHead_eq_map (head : Option Node) : bareHead head = head.map bare := by
  cases head <;> rfl

@[simp]
theorem bare_leaf (l : Leaf) (span : Option Span) :
    (leaf l span).bare = .leaf l (bareSpan span) := by
  rw [bare]

@[simp]
theorem bare_group (g : Group) (span : Option Span) (contents : List Node) :
    (group g span contents).bare = .group g (bareSpan span) (contents.map bare) := by
  rw [bare, bareAll_eq_map]

@[simp]
theorem bare_rule (r : Rule) (span : Option Span) (head : Option Node) (body : List Node) :
    (rule r span head body).bare = .rule r (bareSpan span) (head.map bare) (body.map bare) := by
  rw [bare, bareHead_eq_map, bareAll_eq_map]

/-- To forget the places of a forest is to change its spans. -/
theorem map_bare_eq (ns : List Node) : ns.map bare = ns.map (mapSpans fun _ => .origin) := by
  induction ns using forestInduction with
  | nil => rfl
  | leaf l span ns ih => rw [List.map_cons, ih, bare_leaf, bareSpan, List.map_cons, mapSpans_leaf]
  | group g span contents ns ihcontents ihns =>
      rw [List.map_cons, ihns, bare_group, ihcontents, bareSpan, List.map_cons, mapSpans_group]
  | rule r span head body ns ihhead ihbody ihns =>
      rw [← Option.toList_map, ← Option.toList_map] at ihhead
      rw [List.map_cons, ihns, bare_rule, head_eq_of_toList_eq ihhead, ihbody, bareSpan,
        List.map_cons, mapSpans_rule]

theorem bare_eq_mapSpans : bare = mapSpans fun _ => .origin := by
  funext n
  exact List.singleton_inj.1 (map_bare_eq [n])

/-- Other spans do not matter without places. -/
theorem map_bare_map_mapSpans (f : Span → Span) (ns : List Node) :
    (ns.map (mapSpans f)).map bare = ns.map bare := by
  rw [bare_eq_mapSpans, map_mapSpans_map]
  rfl

/-- What a tree says does not depend on where it was read. -/
theorem relabels_bare : Relabels bare := bare_eq_mapSpans ▸ relabels_mapSpans _

end Node

namespace Document

/-- The document without its places. -/
def bare (d : Document) : Document := ⟨d.title, d.contents.map Node.bare, bareSpan d.span⟩

end Document

/-- The slugs of sections do not depend on where these were read. -/
theorem sectionSlugs_bare (d : Document) : sectionSlugs d.bare = sectionSlugs d :=
  Node.relabels_bare.sectionSlugs_eq rfl

end SpecDoc
