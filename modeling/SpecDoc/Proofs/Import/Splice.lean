import SpecDoc.Import.Splice
import SpecDoc.Proofs.Forest
import SpecDoc.Proofs.Spans

/-!
# Spliced forests

One equation for each kind of node at the head of a forest says what splicing does to it and which
documents are left for the nodes behind it.

* `Node.importInduction` is the induction that goes with it;
* `Node.spliceAll_importLink_cons`, `Node.spliceAll_leaf`, `Node.spliceAll_group` and
  `Node.spliceAll_rule` are the equations;
* `Document.splice_mapSpans`: splicing does not depend on spans.
-/

namespace SpecDoc

namespace Node

/-- Induction on a forest in which imports are a case of their own. -/
@[elab_as_elim]
theorem importInduction {motive : List Node → Prop} (nil : motive [])
    (importLink : ∀ raw span ns, motive ns → motive (.leaf (.importLink raw) span :: ns))
    (leaf : ∀ l span ns, (∀ raw, l ≠ .importLink raw) → motive ns → motive (.leaf l span :: ns))
    (group : ∀ g span contents ns, motive contents → motive ns →
      motive (.group g span contents :: ns))
    (rule : ∀ r span head body ns, motive head.toList → motive body → motive ns →
      motive (.rule r span head body :: ns)) (ns : List Node) : motive ns := by
  refine forestInduction nil (fun l span ns ih => ?_) group rule ns
  by_cases hl : ∃ raw, l = .importLink raw
  · obtain ⟨raw, rfl⟩ := hl
    exact importLink raw span ns ih
  · exact leaf l span ns (not_exists.1 hl) ih

/-! ## Equations -/

@[simp]
theorem spliceAll_nil_left (ds : List Document) : spliceAll [] ds = ([], ds) := by rw [spliceAll]

/-- An import gives way to the contents of the next document. -/
@[simp]
theorem spliceAll_importLink_cons (raw : String) (span : Option Span) (ns : List Node) (d : Document)
    (ds : List Document) :
    spliceAll (.leaf (.importLink raw) span :: ns) (d :: ds)
      = (d.contents ++ (spliceAll ns ds).1, (spliceAll ns ds).2) := by
  rw [spliceAll, splice]

/-- Any other leaf stays. -/
theorem splice_leaf {l : Leaf} (hl : ∀ raw, l ≠ .importLink raw) (span : Option Span)
    (ds : List Document) : splice (.leaf l span) ds = ([.leaf l span], ds) := by
  cases l with
  | importLink raw => exact absurd rfl (hl raw)
  | _ => simp [splice]

/-- Every leaf stays where no document is left. -/
theorem splice_leaf_nil (l : Leaf) (span : Option Span) :
    splice (.leaf l span) [] = ([.leaf l span], []) := by
  cases l <;> rw [splice] <;> simp

theorem spliceAll_leaf {l : Leaf} (hl : ∀ raw, l ≠ .importLink raw) (span : Option Span)
    (ns : List Node) (ds : List Document) :
    spliceAll (.leaf l span :: ns) ds
      = (.leaf l span :: (spliceAll ns ds).1, (spliceAll ns ds).2) := by
  rw [spliceAll, splice_leaf hl]
  rfl

@[simp]
theorem spliceAll_group (g : Group) (span : Option Span) (contents ns : List Node)
    (ds : List Document) :
    spliceAll (.group g span contents :: ns) ds
      = (.group g span (spliceAll contents ds).1 :: (spliceAll ns (spliceAll contents ds).2).1,
          (spliceAll ns (spliceAll contents ds).2).2) := by
  rw [spliceAll, splice]
  rfl

/-- The head of a rule is spliced like a sequence of at most one node. -/
theorem spliceHead_eq (head : Option Node) (ds : List Document) :
    spliceHead head ds = spliceAll head.toList ds := by
  cases head with
  | none => rw [spliceHead, Option.toList_none, spliceAll]
  | some n => simp [spliceHead, spliceAll]

@[simp]
theorem spliceAll_rule (r : Rule) (span : Option Span) (head : Option Node) (body ns : List Node)
    (ds : List Document) :
    spliceAll (.rule r span head body :: ns) ds
      = (.rule r span (spliceAll head.toList ds).1.head?
            (spliceAll body (spliceAll head.toList ds).2).1 ::
          (spliceAll ns (spliceAll body (spliceAll head.toList ds).2).2).1,
          (spliceAll ns (spliceAll body (spliceAll head.toList ds).2).2).2) := by
  rw [spliceAll, splice, spliceHead_eq]
  rfl

/-- Nothing is spliced in where there are no documents. -/
@[simp]
theorem spliceAll_nil (ns : List Node) : spliceAll ns [] = (ns, []) := by
  induction ns using forestInduction with
  | nil => rfl
  | leaf l span ns ih => simp [spliceAll, splice_leaf_nil, ih]
  | group g span contents ns ihcontents ihns => simp [ihcontents, ihns]
  | rule r span head body ns ihhead ihbody ihns => simp [ihhead, ihbody, ihns]

/-! ## Spans -/

/-- A forest with other spans is spliced in the same way. -/
theorem spliceAll_mapSpans (f : Span → Span) (ns : List Node) (ds : List Document) :
    spliceAll (ns.map (mapSpans f)) (ds.map (Document.mapSpans f))
      = ((spliceAll ns ds).1.map (mapSpans f), (spliceAll ns ds).2.map (Document.mapSpans f)) := by
  induction ns using importInduction generalizing ds with
  | nil => simp
  | importLink raw span ns ih =>
      cases ds with
      | nil => simp
      | cons d ds => simp [ih, Document.mapSpans]
  | leaf l span ns hl ih =>
      rw [List.map_cons, mapSpans_leaf, spliceAll_leaf hl, spliceAll_leaf hl, ih]
      simp
  | group g span contents ns ihcontents ihns => simp [ihcontents, ihns]
  | rule r span head body ns ihhead ihbody ihns =>
      simp [Option.toList_map, ihhead, ihbody, ihns]

end Node

/-- A document with other spans is spliced in the same way. -/
theorem Document.splice_mapSpans (f : Span → Span) (d : Document) (ds : List Document) :
    (d.mapSpans f).splice (ds.map (Document.mapSpans f)) = (d.splice ds).mapSpans f := by
  simp [Document.splice, Document.mapSpans, Node.spliceAll_mapSpans]

end SpecDoc
