import SpecDoc.Proofs.Relabelling

/-!
# Trees with other spans

The spans of a tree can be changed one by one. What the tree says does not depend on them.

* `Node.mapSpans` and `Document.mapSpans` change the spans;
* `Node.relabels_mapSpans`: texts, names and slugs remain;
* `Node.map_mapSpans_eq_self`: nodes without spans stay as they are.
-/

namespace SpecDoc

namespace Node

mutual

/-- The node with its spans changed. -/
def mapSpans (f : Span → Span) : Node → Node
  | .leaf l span => .leaf l (span.map f)
  | .group g span contents => .group g (span.map f) (mapSpansAll f contents)
  | .rule r span head body => .rule r (span.map f) (mapSpansHead f head) (mapSpansAll f body)

/-- The nodes of a sequence with their spans changed. -/
def mapSpansAll (f : Span → Span) : List Node → List Node
  | [] => []
  | n :: ns => n.mapSpans f :: mapSpansAll f ns

/-- The head of a rule with its spans changed. -/
def mapSpansHead (f : Span → Span) : Option Node → Option Node
  | none => none
  | some n => some (n.mapSpans f)

end

variable (f : Span → Span)

/-- Each node of a sequence is changed. -/
theorem mapSpansAll_eq_map (ns : List Node) : mapSpansAll f ns = ns.map (mapSpans f) := by
  induction ns with
  | nil => rfl
  | cons n ns ih => rw [mapSpansAll, ih, List.map_cons]

/-- The head is changed, if there is one. -/
theorem mapSpansHead_eq_map (head : Option Node) : mapSpansHead f head = head.map (mapSpans f) := by
  cases head <;> rfl

@[simp]
theorem mapSpans_leaf (l : Leaf) (span : Option Span) :
    (leaf l span).mapSpans f = .leaf l (span.map f) := by
  rw [mapSpans]

@[simp]
theorem mapSpans_group (g : Group) (span : Option Span) (contents : List Node) :
    (group g span contents).mapSpans f = .group g (span.map f) (contents.map (mapSpans f)) := by
  rw [mapSpans, mapSpansAll_eq_map]

@[simp]
theorem mapSpans_rule (r : Rule) (span : Option Span) (head : Option Node) (body : List Node) :
    (rule r span head body).mapSpans f
      = .rule r (span.map f) (head.map (mapSpans f)) (body.map (mapSpans f)) := by
  rw [mapSpans, mapSpansHead_eq_map, mapSpansAll_eq_map]

/-- What a tree says does not depend on its spans. -/
theorem relabels_mapSpans : Relabels (mapSpans f) where
  leaf l span :=
    ⟨l, span.map f, mapSpans_leaf f l span, by rw [textPiece, textPiece], fun r => by
      cases l <;> cases r <;> rfl⟩
  group g span :=
    ⟨g, span.map f, fun contents =>
      ⟨mapSpans_group f g span contents, textPiece_group_congr rfl g _ span, by cases g <;> rfl⟩⟩
  rule r span := ⟨r, span.map f, mapSpans_rule f r span⟩

/-- To change spans twice is to change them once. -/
theorem map_mapSpans_map (g : Span → Span) (ns : List Node) :
    (ns.map (mapSpans f)).map (mapSpans g) = ns.map (mapSpans (g ∘ f)) := by
  induction ns using forestInduction with
  | nil => rfl
  | leaf l span ns ih =>
      rw [List.map_cons, List.map_cons, ih]
      simp
  | group g span contents ns ihcontents ihns =>
      rw [List.map_cons, List.map_cons, ihns, mapSpans_group, mapSpans_group, ihcontents]
      simp
  | rule r span head body ns ihhead ihbody ihns =>
      rw [← Option.toList_map, ← Option.toList_map, ← Option.toList_map] at ihhead
      rw [List.map_cons, List.map_cons, ihns, mapSpans_rule, mapSpans_rule, ihbody,
        head_eq_of_toList_eq ihhead]
      simp

/-- Nodes without spans stay as they are. -/
theorem map_mapSpans_eq_self {ns : List Node} (h : Everywhere (fun n => n.span? = none) ns) :
    ns.map (mapSpans f) = ns := by
  induction ns using forestInduction with
  | nil => rfl
  | leaf l span ns ih =>
      obtain ⟨hspan, hns⟩ := everywhere_leaf.1 h
      obtain rfl : span = none := hspan
      rw [List.map_cons, ih hns, mapSpans_leaf, Option.map_none]
  | group g span contents ns ihcontents ihns =>
      obtain ⟨hspan, hcontents, hns⟩ := everywhere_group.1 h
      obtain rfl : span = none := hspan
      rw [List.map_cons, ihns hns, mapSpans_group, ihcontents hcontents, Option.map_none]
  | rule r span head body ns ihhead ihbody ihns =>
      obtain ⟨hspan, hhead, hbody, hns⟩ := everywhere_rule.1 h
      obtain rfl : span = none := hspan
      have hhead' := ihhead hhead
      rw [← Option.toList_map] at hhead'
      rw [List.map_cons, ihns hns, mapSpans_rule, ihbody hbody, head_eq_of_toList_eq hhead',
        Option.map_none]

end Node

/-- The document with its spans changed. -/
def Document.mapSpans (f : Span → Span) (d : Document) : Document :=
  ⟨d.title, d.contents.map (Node.mapSpans f), d.span.map f⟩

end SpecDoc
