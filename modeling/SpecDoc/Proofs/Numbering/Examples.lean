import SpecDoc.Proofs.Erasure.Stages

/-!
# Numbers of examples

The numbering of examples is a pass over the blocks of code of a document, in document order. It does not
matter how deep they stand, nor from which file they come.

* `Code.numberAll` is the pass over a list of blocks;
* `codesIn_of_swept`: the sweep of a forest is this pass over its blocks of code;
* `map_number_examples_numberAll`: the examples among them get numbers in a row;
* `exampleNumbers_numberExamples`: those of a document are counted from one, and so are those of a
  document that was compiled.
-/

namespace SpecDoc

open Node

/-! ## Code -/

/-- The block of code that a node is, if it is one. -/
def Node.code? : Node → Option Code
  | .leaf (.code c) _ => some c
  | _ => none

/-- The blocks of code of a forest, in document order. -/
def Node.codesIn (ns : List Node) : List Code := (preorder ns).filterMap code?

namespace Node

@[simp]
theorem codesIn_nil : codesIn [] = [] := rfl

/-- The code of a forest is its first node, if it is code, what is below it and what is behind it. -/
theorem codesIn_cons (n : Node) (ns : List Node) :
    codesIn (n :: ns) = n.code?.toList ++ codesIn n.children ++ codesIn ns := by
  rw [codesIn, preorder_cons]
  cases h : n.code? <;> simp [codesIn, h]

@[simp]
theorem codesIn_leaf (l : Leaf) (span : Option Span) (ns : List Node) :
    codesIn (.leaf l span :: ns) = (leaf l span).code?.toList ++ codesIn ns := by
  simp [codesIn_cons, children]

@[simp]
theorem codesIn_group (g : Group) (span : Option Span) (contents ns : List Node) :
    codesIn (.group g span contents :: ns) = codesIn contents ++ codesIn ns := by
  simp [codesIn_cons, code?, children]

@[simp]
theorem codesIn_rule (r : Rule) (span : Option Span) (head : Option Node) (body ns : List Node) :
    codesIn (.rule r span head body :: ns)
      = codesIn head.toList ++ (codesIn body ++ codesIn ns) := by
  rw [codesIn_cons, ← List.append_assoc, children]
  simp [code?, codesIn, preorder_append]

/-- What is erased from code is erased from the node that it is. -/
theorem code?_erase (a : Annotation) (n : Node) :
    (n.erase a).code? = n.code?.map (Code.erase a) := by
  cases n with
  | leaf l span =>
      rw [erase_leaf]
      cases l <;> rfl
  | group g span contents =>
      rw [erase_group]
      rfl
  | rule r span head body =>
      rw [erase_rule]
      rfl

end Node

namespace Document

/-- The blocks of code of a document, in the order in which the iterator over its descendants yields
them. -/
def codes (d : Document) : List Code := d.descendants.filterMap Node.code?

/-- The code of a document is that of its contents. -/
theorem codes_eq (d : Document) : d.codes = Node.codesIn d.contents := by
  rw [codes, d.descendants_eq, Node.codesIn]

/-- The examples of a document. -/
def examples (d : Document) : List Code := d.codes.filter (·.isExample)

/-- The code of a document that is no example. -/
def plainCode (d : Document) : List Code := d.codes.filter (!·.isExample)

/-- The numbers of the examples of a document, in document order. -/
def exampleNumbers (d : Document) : List (Option ℕ) :=
  d.examples.map fun c => c.number.map UInt32.toNat

/-- The code of a document without an annotation is that of the document, without the annotation. -/
theorem codes_erase (a : Annotation) (d : Document) :
    (d.erase a).codes = d.codes.map (Code.erase a) := by
  rw [codes_eq, Node.codesIn, erase, (Node.relabels_erase a).preorder_map, List.filterMap_map,
    codes_eq, Node.codesIn, List.map_filterMap]
  congr 1
  funext n
  exact Node.code?_erase a n

/-- Anchors are of no concern to the numbers of examples. -/
theorem exampleNumbers_erase_anchor (d : Document) :
    (d.erase .anchor).exampleNumbers = d.exampleNumbers := by
  rw [exampleNumbers, examples, codes_erase, List.filter_map, List.map_map]
  rfl

end Document

/-! ## The pass -/

/-- Numbers the examples among blocks of code, after `count` others. -/
def Code.numberAll (count : UInt32) : List Code → List Code
  | [] => []
  | c :: cs =>
    if c.isExample then { c with number := some (count + 1) } :: numberAll (count + 1) cs
    else c :: numberAll count cs

namespace Code

/-- The number of the examples among blocks of code, added to a number. -/
def countAll (count : UInt32) (cs : List Code) : UInt32 :=
  count + UInt32.ofNat (cs.filter (·.isExample)).length

theorem numberAll_cons_of_pos (count : UInt32) {c : Code} (hc : c.isExample = true)
    (cs : List Code) :
    numberAll count (c :: cs)
      = { c with number := some (count + 1) } :: numberAll (count + 1) cs := by
  rw [numberAll, if_pos hc]

theorem numberAll_cons_of_neg (count : UInt32) {c : Code} (hc : c.isExample = false)
    (cs : List Code) : numberAll count (c :: cs) = c :: numberAll count cs := by
  rw [numberAll, hc]
  rfl

theorem countAll_cons_of_pos (count : UInt32) {c : Code} (hc : c.isExample = true)
    (cs : List Code) : countAll count (c :: cs) = countAll (count + 1) cs := by
  rw [countAll, countAll, List.filter_cons_of_pos hc, List.length_cons, Nat.add_comm,
    UInt32.ofNat_add, UInt32.add_assoc]
  rfl

theorem countAll_cons_of_neg (count : UInt32) {c : Code} (hc : c.isExample = false)
    (cs : List Code) : countAll count (c :: cs) = countAll count cs := by
  rw [countAll, countAll, List.filter_cons_of_neg (by simp [hc])]

/-- Two lists of blocks are numbered one after the other. -/
theorem numberAll_append (count : UInt32) (cs ds : List Code) :
    numberAll count (cs ++ ds) = numberAll count cs ++ numberAll (countAll count cs) ds := by
  induction cs generalizing count with
  | nil => simp [numberAll, countAll]
  | cons c cs ih =>
      cases hc : c.isExample with
      | true =>
          rw [List.cons_append, numberAll_cons_of_pos count hc, numberAll_cons_of_pos count hc, ih,
            countAll_cons_of_pos count hc, List.cons_append]
      | false =>
          rw [List.cons_append, numberAll_cons_of_neg count hc, numberAll_cons_of_neg count hc, ih,
            countAll_cons_of_neg count hc, List.cons_append]

/-- Two lists of blocks are counted one after the other. -/
theorem countAll_append (count : UInt32) (cs ds : List Code) :
    countAll count (cs ++ ds) = countAll (countAll count cs) ds := by
  rw [countAll, countAll, countAll, List.filter_append, List.length_append, UInt32.ofNat_add,
    UInt32.add_assoc]

/-- The examples are numbered in a row. -/
theorem map_number_examples_numberAll (count : UInt32) (cs : List Code) :
    ((numberAll count cs).filter (·.isExample)).map Code.number
      = (List.range' 1 (cs.filter (·.isExample)).length).map
          fun k => some (count + UInt32.ofNat k) := by
  induction cs generalizing count with
  | nil => rfl
  | cons c cs ih =>
      cases hc : c.isExample with
      | true =>
          rw [numberAll_cons_of_pos count hc, List.filter_cons_of_pos (by exact hc),
            List.filter_cons_of_pos (by exact hc), List.map_cons, ih, List.length_cons,
            List.range'_succ, List.map_cons, List.range'_eq_map_range, List.range'_eq_map_range,
            List.map_map, List.map_map]
          refine congrArg₂ List.cons rfl (List.map_congr_left fun k _ => ?_)
          simp only [Function.comp_apply, UInt32.ofNat_add, UInt32.add_assoc]
          rfl
      | false =>
          rw [numberAll_cons_of_neg count hc, List.filter_cons_of_neg (by simp [hc]), ih,
            List.filter_cons_of_neg (by simp [hc])]

/-- Any other code is left as it is. -/
theorem filter_not_isExample_numberAll (count : UInt32) (cs : List Code) :
    (numberAll count cs).filter (!·.isExample) = cs.filter (!·.isExample) := by
  induction cs generalizing count with
  | nil => rfl
  | cons c cs ih =>
      cases hc : c.isExample with
      | true =>
          rw [numberAll_cons_of_pos count hc, List.filter_cons_of_neg (by simp [hc]), ih,
            List.filter_cons_of_neg (by simp [hc])]
      | false =>
          rw [numberAll_cons_of_neg count hc, List.filter_cons_of_pos (by simp [hc]), ih,
            List.filter_cons_of_pos (by simp [hc])]

end Code

/-! ## The sweep -/

namespace ExampleNumbering

open Code

/-- A leaf is numbered as the code that it is. -/
theorem toList_code?_of_leaf {l l' : Leaf} {count count' : UInt32}
    (h : sweep.leaf l count = .ok (l', count')) (span : Option Span) :
    (Node.leaf l' span).code?.toList = numberAll count (Node.leaf l span).code?.toList ∧
      count' = countAll count (Node.leaf l span).code?.toList := by
  cases l with
  | code c =>
      change Except.ok (numberLeaf (.code c) count) = _ at h
      unfold numberLeaf at h
      dsimp only at h
      cases hc : c.isExample with
      | true =>
          rw [if_pos hc] at h
          cases h
          simp only [Node.code?, Option.toList_some]
          exact ⟨(numberAll_cons_of_pos count hc []).symm, by
            rw [countAll_cons_of_pos count hc]; simp [countAll]⟩
      | false =>
          rw [hc] at h
          cases h
          simp only [Node.code?, Option.toList_some]
          exact ⟨(numberAll_cons_of_neg count hc []).symm, by
            rw [countAll_cons_of_neg count hc]; simp [countAll]⟩
  | _ =>
      cases h
      simp [Node.code?, numberAll, countAll]

/-- The sweep of a forest is the pass over its blocks of code. -/
theorem codesIn_of_swept {ns ns' : List Node} {count count' : UInt32}
    (h : Sweep.Swept sweep count ns ns' count') :
    codesIn ns' = numberAll count (codesIn ns) ∧ count' = countAll count (codesIn ns) := by
  induction h with
  | nil count => simp [numberAll, countAll]
  | @leaf _ _ span _ _ _ _ _ hleaf _ ih =>
      obtain ⟨hcode, rfl⟩ := toList_code?_of_leaf hleaf span
      rw [codesIn_leaf, codesIn_leaf, numberAll_append, countAll_append, hcode, ih.1]
      exact ⟨rfl, ih.2⟩
  | group hgroup _ _ ihcontents ihns =>
      cases hgroup
      obtain ⟨hcontents, rfl⟩ := ihcontents
      rw [codesIn_group, codesIn_group, numberAll_append, countAll_append, hcontents, ihns.1]
      exact ⟨rfl, ihns.2⟩
  | rule hrule _ _ _ ihhead ihbody ihns =>
      cases hrule
      obtain ⟨hhead, rfl⟩ := ihhead
      obtain ⟨hbody, rfl⟩ := ihbody
      rw [codesIn_rule, codesIn_rule, numberAll_append, numberAll_append, countAll_append,
        countAll_append, hhead, hbody, ihns.1]
      exact ⟨rfl, ihns.2⟩

end ExampleNumbering

/-! ## Documents -/

/-- The code of a document is numbered by the pass. -/
theorem codes_numberExamples (d : Document) :
    (numberExamples d).codes = Code.numberAll 0 d.codes := by
  obtain ⟨count, hswept⟩ := exists_sweptDocument_numberExamples d
  rw [Document.codes_eq, Document.codes_eq]
  exact (ExampleNumbering.codesIn_of_swept hswept.contents).1

/-- The numbers of a document are those from one up, as long as there are enough of them. -/
theorem exampleNumbers_numberExamples {d : Document} (h : d.examples.length < 2 ^ 32) :
    (numberExamples d).exampleNumbers = (List.range' 1 d.examples.length).map some := by
  have hnumbers := congrArg (List.map (Option.map UInt32.toNat))
    (Code.map_number_examples_numberAll 0 d.codes)
  rw [← codes_numberExamples, List.map_map, List.map_map] at hnumbers
  refine hnumbers.trans (List.map_congr_left fun k hk => ?_)
  have hlt : k < UInt32.size := by
    have hk := (List.mem_range'_1.1 hk).2
    change k < 1 + d.examples.length at hk
    change k < 2 ^ 32
    omega
  rw [Function.comp_apply, Option.map_some, UInt32.zero_add, UInt32.toNat_ofNat_of_lt' hlt]

/-- There are as many examples as before. -/
theorem length_examples_numberExamples (d : Document) :
    (numberExamples d).examples.length = d.examples.length := by
  have hnumbers := congrArg List.length (Code.map_number_examples_numberAll 0 d.codes)
  rw [← codes_numberExamples, List.length_map, List.length_map, List.length_range'] at hnumbers
  exact hnumbers

/-- Anchors change nothing about the numbers of examples. -/
theorem exampleNumbers_of_assignAnchors? {o : AnchorOptions} {b b' : Biblio} {d d' : Document}
    (h : assignAnchors? o b d = some (d', b')) : d'.exampleNumbers = d.exampleNumbers := by
  rw [← d'.exampleNumbers_erase_anchor, erase_eq_of_assignAnchors? h,
    d.exampleNumbers_erase_anchor]

/-- **Examples in order.** A traversal of a document gives its examples the numbers from one up, in the order
in which the iterator over its descendants yields them and in place of any that they had, and changes
nothing else. So the examples of a document that was compiled are numbered in the order in which they are
read in the expansion of its entry. -/
theorem exampleNumbers_in_order :
    (∀ d : Document, d.examples.length < 2 ^ 32 →
      (numberExamples d).exampleNumbers = (List.range' 1 d.examples.length).map some ∧
      (numberExamples d).plainCode = d.plainCode ∧
      (numberExamples d).erase .exampleNumber = d.erase .exampleNumber) ∧
    ∀ (lib : Library) (o : CompileOptions) (entry : String) (a : Annotated),
      (compile lib o entry).run = some (.ok a) → a.document.examples.length < 2 ^ 32 →
        a.document.exampleNumbers = (List.range' 1 a.document.examples.length).map some ∧
        ∃ d, Expands.File (lib.Loads .initial) (lib.LoadsBelow (Path.ofString entry).normalize)
          (Path.ofString entry).normalize d ∧ a.document.blank = d.blank := by
  constructor
  · intro d hd
    refine ⟨exampleNumbers_numberExamples hd, ?_, erase_numberExamples d⟩
    rw [Document.plainCode, codes_numberExamples]
    exact Code.filter_not_isExample_numberAll 0 d.codes
  · intro lib o entry a ha hlt
    obtain ⟨d, d₁, reads, hresolve, hnumber, hanchors⟩ := exists_of_run_eq_ok ha
    have hnumbers := exampleNumbers_of_assignAnchors? hanchors
    have hlength : a.document.examples.length = d₁.examples.length := by
      have := congrArg List.length hnumbers
      rwa [Document.exampleNumbers, Document.exampleNumbers, List.length_map, List.length_map,
        length_examples_numberExamples] at this
    refine ⟨?_, d, Library.expands_of_resolve hresolve, ?_⟩
    · rw [hnumbers, hlength]
      exact exampleNumbers_numberExamples (hlength ▸ hlt)
    · exact blank_eq_of_stages hnumber hanchors

/-- A document whose examples have numbers from elsewhere; one of them stands in a list. -/
def renumberedDocument : Document :=
  Build.document "Specification"
    [.leaf (.code ⟨none, "a", true, false, some 7, none⟩) none,
      Build.numberedSection none "Lists"
        [.leaf (.code ⟨some "js", "plain", false, false, some 3, none⟩) none,
          .group (.list false) none [.group .listItem none
            [.leaf (.code ⟨none, "b", true, true, some 1, none⟩) none]]],
      .leaf (.code ⟨none, "c", true, false, none, none⟩) none]

/-- A document with examples in front of an import and behind it. The imported file has one before its
own import and one behind that. -/
def nestedFiles : List (String × Except ReadFailure String) :=
  [("spec/index.md", .ok ("# Guide\n\n\x60\x60\x60 example\na\n\x60\x60\x60\n\n# [Part](./part.md)\n\n" ++
      "# End\n\n\x60\x60\x60 counter-example\ne\n\x60\x60\x60\n")),
    ("spec/part.md", .ok ("# Part\n\n\x60\x60\x60 example\nb\n\x60\x60\x60\n\n## [Deep](./deep.md)\n\n" ++
      "\x60\x60\x60 example\nd\n\x60\x60\x60\n")),
    ("spec/deep.md", .ok "## Deep\n\n\x60\x60\x60 example\nc\n\x60\x60\x60\n")]

/-- The numbers from elsewhere give way, and examples are counted across files. -/
theorem exampleNumbers_in_order_nestedFiles :
    ((numberExamples renumberedDocument).exampleNumbers = [some 1, some 2, some 3] ∧
      (numberExamples renumberedDocument).plainCode = renumberedDocument.plainCode ∧
      (numberExamples renumberedDocument).erase .exampleNumber
        = renumberedDocument.erase .exampleNumber) ∧
    ∃ a, (compile (Library.ofFiles nestedFiles) .standard "spec/index.md").run = some (.ok a) ∧
      a.document.examples.map Code.text = ["a", "b", "c", "d", "e"] ∧
      a.document.exampleNumbers = [some 1, some 2, some 3, some 4, some 5] ∧
      ∃ d, Expands.File ((Library.ofFiles nestedFiles).Loads .initial)
        ((Library.ofFiles nestedFiles).LoadsBelow (Path.ofString "spec/index.md").normalize)
        (Path.ofString "spec/index.md").normalize d ∧ a.document.blank = d.blank := by
  refine ⟨exampleNumbers_in_order.1 renumberedDocument (by decide), ?_⟩
  have htexts : (compile (Library.ofFiles nestedFiles) .standard "spec/index.md").run.map
      (fun r => r.toOption.map fun a => a.document.examples.map Code.text)
        = some (some ["a", "b", "c", "d", "e"]) := by
    decide +kernel
  obtain ⟨r, hrun, hr⟩ := Option.map_eq_some_iff.1 htexts
  cases r with
  | error e => cases hr
  | ok a =>
      have hexamples : a.document.examples.map Code.text = ["a", "b", "c", "d", "e"] :=
        Option.some.inj hr
      have hlength : a.document.examples.length = 5 := by
        simpa using congrArg List.length hexamples
      obtain ⟨hnumbers, hexpands⟩ := exampleNumbers_in_order.2 _ _ _ a hrun (by omega)
      rw [hlength] at hnumbers
      exact ⟨a, hrun, hexamples, hnumbers, hexpands⟩

end SpecDoc
