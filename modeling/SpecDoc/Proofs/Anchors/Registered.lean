import Mathlib.Data.List.Forall2
import SpecDoc.Build
import SpecDoc.Proofs.Anchors.Search
import SpecDoc.Proofs.Erasure.Sweeps

/-!
# Registered anchors

The anchors of a document are registered in document order, so that what happens to the biblio can be
told along the list of all nodes, without regard to the tree.

* `Anchored` says by rules what anchoring does along a list of nodes;
* `anchored_of_swept`: anchoring does so along the nodes of a tree;
* `ownsAnchors_of_assignAnchors?`: terms, notes and examples have anchors of their own;
* `registersAnchors_of_assignAnchors?`: the biblio has the anchors of the document and what it had.
-/

namespace SpecDoc

/-! ## Which nodes have anchors -/

/-- Whether a leaf is an example. -/
def Leaf.isExample : Leaf → Bool
  | .code c => c.isExample
  | _ => false

/-- Whether a group gets an anchor. -/
def Group.takesAnchor : Group → Bool
  | .numberedSection _ | .subsection _ | .definitionTerm _ _ | .note _ => true
  | _ => false

/-- Whether a group gets an anchor that nothing before it has: it is a term or a note. -/
def Group.ownsAnchor : Group → Bool
  | .definitionTerm _ _ | .note _ => true
  | _ => false

namespace Node

/-- Whether a node gets an anchor. Code has to be an example for that, and a rule needs a name. -/
def takesAnchor : Node → Bool
  | .leaf l _ => l.isExample
  | .group g _ _ => g.takesAnchor
  | .rule r _ head _ => (r.name? head).isSome

/-- Whether a node gets an anchor that nothing before it has: it is a term, a note or an example. -/
def ownsAnchor : Node → Bool
  | .leaf l _ => l.isExample
  | .group g _ _ => g.ownsAnchor
  | .rule _ _ _ _ => false

/-- The anchor that was given to a node, if it was given one. -/
def givenId? (n : Node) : Option String := if n.takesAnchor then n.id? else none

/-- Only a node that gets an anchor gets one of its own. -/
theorem takesAnchor_of_ownsAnchor {n : Node} (h : n.ownsAnchor = true) : n.takesAnchor = true := by
  cases n with
  | leaf l span => exact h
  | group g span contents =>
      cases g with
      | definitionTerm name id => rfl
      | note id => rfl
      | _ => cases h
  | rule r span head body => cases h

/-- What anchoring leaves as it is at a node `n` that becomes `n'`. The id only stays if the node gets no
anchor. -/
structure KeepsRole (n n' : Node) : Prop where
  kind : n'.kind = n.kind
  takes : n'.takesAnchor = n.takesAnchor
  owns : n'.ownsAnchor = n.ownsAnchor
  id : n.takesAnchor = false → n'.id? = n.id?

/-- A node that is not changed keeps its role. -/
theorem KeepsRole.refl (n : Node) : n.KeepsRole n := ⟨rfl, rfl, rfl, fun _ => rfl⟩

/-- A node that gets an anchor may have any id before and after. -/
theorem KeepsRole.of_takesAnchor {n n' : Node} (hkind : n'.kind = n.kind)
    (howns : n'.ownsAnchor = n.ownsAnchor) (htakes : n.takesAnchor = true)
    (htakes' : n'.takesAnchor = true) : n.KeepsRole n' where
  kind := hkind
  takes := htakes'.trans htakes.symm
  owns := howns
  id := by
    intro hno
    rw [htakes] at hno
    cases hno

end Node

/-! ## Anchoring along a list -/

/-- `Registers b n b'`: at the node `n` the biblio `b` becomes `b'`. -/
inductive Registers (b : Biblio) (n : Node) : Biblio → Prop where
  /-- The anchor of the node is registered. It is a free one if the node owns it. -/
  | given {id : String} (htakes : n.takesAnchor = true) (hid : n.id? = some id)
      (hfree : n.ownsAnchor = true → b.IsFree id) : Registers b n (b.register id)
  /-- There is nothing to register. -/
  | plain (htakes : n.takesAnchor = false) : Registers b n b

/-- An anchor that need not be free is registered. -/
theorem Registers.shared {b : Biblio} {n : Node} {id : String} (htakes : n.takesAnchor = true)
    (hid : n.id? = some id) (howns : n.ownsAnchor = false) : Registers b n (b.register id) := by
  refine .given htakes hid ?_
  intro hfree
  rw [howns] at hfree
  cases hfree

/-- `Anchored b ns ns' b'`: anchoring makes the list `ns` into `ns'` and the biblio `b` into `b'`. -/
inductive Anchored : Biblio → List Node → List Node → Biblio → Prop where
  | nil (b : Biblio) : Anchored b [] [] b
  | cons {b b₁ b₂ : Biblio} {n n' : Node} {ns ns' : List Node} (hkeeps : n.KeepsRole n')
      (hregisters : Registers b n' b₁) (hns : Anchored b₁ ns ns' b₂) :
      Anchored b (n :: ns) (n' :: ns') b₂

/-- Two lists are anchored one after the other. -/
theorem Anchored.append {b b₁ b₂ : Biblio} {ms ms' ns ns' : List Node}
    (hms : Anchored b ms ms' b₁) (hns : Anchored b₁ ns ns' b₂) :
    Anchored b (ms ++ ns) (ms' ++ ns') b₂ := by
  induction hms with
  | nil b => exact hns
  | cons hkeeps hregisters _ ih => exact .cons hkeeps hregisters (ih hns)

namespace AnchorState

variable {o : AnchorOptions} {slugs : List String} {s s' : AnchorState}

/-- A node with the anchor of a content has a free one registered. -/
theorem registers_of_contentAnchor? {lead normalized id : String} {n : Node}
    (h : contentAnchor? o lead normalized s = some (id, s')) (htakes : n.takesAnchor = true)
    (hid : n.id? = some id) : Registers s.biblio n s'.biblio := by
  obtain ⟨hfree, hbiblio, -⟩ := contentAnchor?_eq_some h
  rw [hbiblio]
  exact .given htakes hid fun _ => hfree

/-- A leaf that is swept is anchored. -/
theorem registers_of_anchorLeaf {l l' : Leaf} (h : anchorLeaf o l s = .ok (l', s'))
    (span : Option Span) :
    (Node.leaf l span).KeepsRole (.leaf l' span) ∧
      Registers s.biblio (.leaf l' span) s'.biblio := by
  cases l with
  | code c =>
      unfold anchorLeaf at h
      dsimp only at h
      by_cases hexample : c.isExample = true
      · rw [if_pos hexample] at h
        split at h
        · cases h
        · next hcontent =>
          cases h
          exact ⟨.of_takesAnchor rfl rfl hexample hexample,
            registers_of_contentAnchor? hcontent hexample rfl⟩
      · rw [if_neg hexample] at h
        cases h
        exact ⟨.refl _, .plain (Bool.eq_false_iff.2 hexample)⟩
  | _ =>
      cases h
      exact ⟨.refl _, .plain rfl⟩

/-- A group that is swept is anchored, whatever becomes of its contents. -/
theorem registers_of_anchorGroup {g g' : Group} {span : Option Span} {contents : List Node}
    (h : (sweep o slugs).group g span contents s = .ok (g', s')) (contents' : List Node) :
    (Node.group g span contents).KeepsRole (.group g' span contents') ∧
      Registers s.biblio (.group g' span contents') s'.biblio := by
  cases g with
  | numberedSection sec =>
      cases h
      exact ⟨.of_takesAnchor rfl rfl rfl rfl, .shared rfl rfl rfl⟩
  | subsection sub =>
      cases h
      exact ⟨.of_takesAnchor rfl rfl rfl rfl, .shared rfl rfl rfl⟩
  | definitionTerm name old =>
      obtain ⟨id, hid, rfl, rfl⟩ := anchorGroup_definitionTerm_eq_ok h
      exact ⟨.of_takesAnchor rfl rfl rfl rfl, .given rfl rfl fun _ => termAnchor?_isFree hid⟩
  | note old =>
      obtain ⟨id, hcontent, rfl⟩ := anchorGroup_note_eq_ok h
      exact ⟨.of_takesAnchor rfl rfl rfl rfl, registers_of_contentAnchor? hcontent rfl rfl⟩
  | _ =>
      cases h
      exact ⟨⟨rfl, rfl, rfl, fun _ => rfl⟩, .plain rfl⟩

/-- The end of a group does not concern the biblio. -/
theorem biblio_endGroup (g : Group) (s : AnchorState) : (endGroup g s).biblio = s.biblio := by
  cases g <;> rfl

/-- What anchoring does with a rule: one with a name gets an anchor that is registered, and any other
one stays as it is. -/
theorem anchorRule_cases {r r' : Rule} {head : Option Node}
    (h : anchorRule r head s = .ok (r', s')) :
    (r.name? head = none ∧ r' = r ∧ s' = s) ∨
    ((r.name? head).isSome ∧ r'.kind = r.kind ∧ ∃ id, r'.id? = some id ∧ s' = s.register id) := by
  unfold anchorRule at h
  cases hname : r.name? head with
  | none =>
      left
      rw [hname] at h
      cases h
      exact ⟨rfl, rfl, rfl⟩
  | some name =>
      right
      rw [hname] at h
      cases r with
      | algorithm id =>
          cases h
          exact ⟨rfl, rfl, _, rfl, rfl⟩
      | production defType id =>
          cases h
          exact ⟨rfl, rfl, _, rfl, rfl⟩
      | oneOfProduction defType id =>
          cases h
          exact ⟨rfl, rfl, _, rfl, rfl⟩

/-- A rule that is swept is anchored, if its head keeps giving the names that it gives. -/
theorem registers_of_anchorRule {r r' : Rule} {span : Option Span} {head head' : Option Node}
    {body : List Node} (h : anchorRule r head s = .ok (r', s'))
    (hhead : ∀ r : Rule, r.name? head' = r.name? head) (body' : List Node) :
    (Node.rule r span head body).KeepsRole (.rule r' span head' body') ∧
      Registers s.biblio (.rule r' span head' body') s'.biblio := by
  rcases anchorRule_cases h with ⟨hname, rfl, rfl⟩ | ⟨hname, hkind, id, hid, rfl⟩
  -- The node in the tree has the swept head, so it is named by that one.
  · have htakes : (Node.rule r' span head' body').takesAnchor
        = (Node.rule r' span head body).takesAnchor := by
      rw [Node.takesAnchor, Node.takesAnchor, hhead]
    refine ⟨⟨rfl, htakes, rfl, fun _ => rfl⟩, .plain ?_⟩
    rw [htakes, Node.takesAnchor, hname]
    rfl
  · have htakes : (Node.rule r' span head' body').takesAnchor = true := by
      rw [Node.takesAnchor, hhead, Rule.name?_eq_of_kind hkind]
      exact hname
    exact ⟨.of_takesAnchor hkind rfl hname htakes, .shared htakes hid rfl⟩

/-- The nodes of a tree that is swept are anchored in document order. -/
theorem anchored_of_swept {ns ns' : List Node} (h : (sweep o slugs).Swept s ns ns' s') :
    Anchored s.biblio (Node.preorder ns) (Node.preorder ns') s'.biblio := by
  induction h with
  | nil s => exact .nil _
  | leaf hleaf _ ih =>
      obtain ⟨hkeeps, hregisters⟩ := registers_of_anchorLeaf hleaf _
      exact .cons hkeeps hregisters ih
  | @group _ _ _ _ contents' _ _ _ _ s₂ _ hgroup _ _ ihcontents ihns =>
      obtain ⟨hkeeps, hregisters⟩ := registers_of_anchorGroup hgroup contents'
      -- Nothing is registered where a group ends, so what follows starts with the same biblio.
      rw [show ((sweep o slugs).endGroup _ s₂).biblio = s₂.biblio from biblio_endGroup _ s₂] at ihns
      exact .cons hkeeps hregisters (ihcontents.append ihns)
  | @rule _ _ _ _ _ _ body' _ _ _ _ _ _ _ hrule hhead _ _ ihhead ihbody ihns =>
      obtain ⟨hkeeps, hregisters⟩ := registers_of_anchorRule hrule (hhead.name?_eq (writes o slugs)) body'
      rw [← Node.preorderHead_eq, ← Node.preorderHead_eq] at ihhead
      exact .cons hkeeps hregisters ((ihhead.append ihbody).append ihns)

end AnchorState

/-! ## What the rules say -/

namespace Anchored

variable {b b' : Biblio} {ns ns' : List Node}

/-- All nodes keep their roles. -/
theorem keepsRole (h : Anchored b ns ns' b') : List.Forall₂ Node.KeepsRole ns ns' := by
  induction h with
  | nil b => exact .nil
  | cons hkeeps _ _ ih => exact .cons hkeeps ih

/-- The given anchors are what was registered. -/
theorem biblio_eq (h : Anchored b ns ns' b') :
    b' = b.registerAll (ns'.filterMap Node.givenId?) := by
  induction h with
  | nil b => rfl
  | cons _ hregisters _ ih =>
      cases hregisters with
      | given htakes hid _ =>
          rw [List.filterMap_cons_some (by rw [Node.givenId?, if_pos htakes, hid]),
            Biblio.registerAll_cons]
          exact ih
      | plain htakes =>
          rw [List.filterMap_cons_none (by rw [Node.givenId?, if_neg (by simp [htakes])])]
          exact ih

/-- A node that gets an anchor has one. -/
theorem exists_id (h : Anchored b ns ns' b') :
    ∀ n ∈ ns', n.takesAnchor = true → ∃ id, n.id? = some id := by
  induction h with
  | nil b => simp
  | cons _ hregisters _ ih =>
      rintro n hn htakes
      rcases List.mem_cons.1 hn with rfl | hn
      · cases hregisters with
        | given _ hid _ => exact ⟨_, hid⟩
        | plain hno =>
            rw [htakes] at hno
            cases hno
      · exact ih n hn htakes

/-- A node that owns its anchor has one that was free before any of the nodes got theirs. -/
theorem exists_isFree (h : Anchored b ns ns' b') :
    ∀ n ∈ ns', n.ownsAnchor = true → ∃ id, n.id? = some id ∧ b.IsFree id := by
  induction h with
  | nil b => simp
  | cons _ hregisters _ ih =>
      rintro n hn howns
      rcases List.mem_cons.1 hn with rfl | hn
      · cases hregisters with
        | given _ hid hfree => exact ⟨_, hid, hfree howns⟩
        | plain hno =>
            rw [Node.takesAnchor_of_ownsAnchor howns] at hno
            cases hno
      · obtain ⟨id, hid, hfree⟩ := ih n hn howns
        refine ⟨id, hid, ?_⟩
        -- What is free later was free before.
        cases hregisters with
        | given _ _ _ => exact hfree.of_register
        | plain _ => exact hfree

/-- No node has the anchor that a later one owns. -/
theorem pairwise_ne (h : Anchored b ns ns' b') :
    ns'.Pairwise fun m n => m.takesAnchor = true → n.ownsAnchor = true → m.id? ≠ n.id? := by
  induction h with
  | nil b => exact .nil
  | cons _ hregisters hns ih =>
      refine .cons ?_ ih
      intro n hn htakes howns
      obtain ⟨id, hid, hfree⟩ := hns.exists_isFree n hn howns
      cases hregisters with
      | given _ hid' _ =>
          rw [hid, hid']
          rintro heq
          cases heq
          exact Biblio.not_isFree_register _ _ hfree
      | plain hno =>
          rw [htakes] at hno
          cases hno

/-- If nothing had an id before, every id was given. -/
theorem givenId?_eq (h : Anchored b ns ns' b') (hno : ∀ n ∈ ns, n.id? = none) :
    ns'.filterMap Node.givenId? = ns'.filterMap Node.id? := by
  induction h with
  | nil b => rfl
  | @cons _ _ _ n n' _ _ hkeeps _ _ ih =>
      have hhead : n'.givenId? = n'.id? := by
        rw [Node.givenId?]
        by_cases htakes : n'.takesAnchor = true
        · rw [if_pos htakes]
        · rw [if_neg htakes]
          rw [hkeeps.takes, Bool.not_eq_true] at htakes
          rw [hkeeps.id htakes, hno n List.mem_cons_self]
      have htail := ih fun m hm => hno m (List.mem_cons_of_mem _ hm)
      rw [List.filterMap_cons, List.filterMap_cons, hhead, htail]

end Anchored

/-! ## Documents -/

/-- The nodes of a document are anchored in order. -/
theorem anchored_of_assignAnchors? {o : AnchorOptions} {b b' : Biblio} {d d' : Document}
    (h : assignAnchors? o b d = some (d', b')) : Anchored b d.descendants d'.descendants b' := by
  obtain ⟨s, hsweep, rfl⟩ := assignAnchors?_eq_some_iff.1 h
  rw [d.descendants_eq, d'.descendants_eq]
  exact AnchorState.anchored_of_swept (Sweep.swept_of_document hsweep)

/-- What anchoring says about terms, notes and examples. Every node that takes an anchor has one, and
where it owns the anchor, it is no key of the biblio `b` and is that of no node before. -/
structure Document.OwnsAnchors (d : Document) (b : Biblio) : Prop where
  anchored : ∀ n ∈ d.descendants, n.takesAnchor = true → ∃ id, n.id? = some id
  isFree : ∀ n ∈ d.descendants, n.ownsAnchor = true → ∃ id, n.id? = some id ∧ b.IsFree id
  fresh : d.descendants.Pairwise fun m n =>
    m.takesAnchor = true → n.ownsAnchor = true → m.id? ≠ n.id?
  nodup : ((d.descendants.filter Node.ownsAnchor).map Node.id?).Nodup

/-- Anchored nodes are those of a document that owns its anchors. -/
theorem Anchored.ownsAnchors {b b' : Biblio} {ns : List Node} {d : Document}
    (h : Anchored b ns d.descendants b') : d.OwnsAnchors b where
  anchored := h.exists_id
  isFree := h.exists_isFree
  fresh := h.pairwise_ne
  nodup := by
    rw [List.Nodup, List.pairwise_map]
    refine (h.pairwise_ne.filter _).imp_of_mem ?_
    intro m n hm hn hne
    exact hne (Node.takesAnchor_of_ownsAnchor (List.mem_filter.1 hm).2) (List.mem_filter.1 hn).2

/-- **Anchors of one's own.** Where anchoring returns, the terms, notes and examples of the document have
anchors that are free in the given biblio, different from each other and from all that were given
before them. The nodes are those of the document, and the ones that get no anchor have what they had. -/
theorem ownsAnchors_of_assignAnchors? {o : AnchorOptions} {b b' : Biblio} {d d' : Document}
    (h : assignAnchors? o b d = some (d', b')) :
    d'.OwnsAnchors b ∧ List.Forall₂ Node.KeepsRole d.descendants d'.descendants :=
  ⟨(anchored_of_assignAnchors? h).ownsAnchors, (anchored_of_assignAnchors? h).keepsRole⟩

/-- A document in which anchors are taken: sections of one title, terms that stand for each other's numbers,
the same note twice and an algorithm that is defined again. -/
def glossaryDocument : Document :=
  Build.document "Specification"
    [Build.numberedSection none "Terms"
      [Build.definition "root field" "is a field of the root.",
        Build.definition "root field 2" "is another one.",
        Build.definition "root field" "is defined again.",
        Build.note "Be careful.",
        Build.numberedSection none "Terms" [Build.note "Be careful."]],
      Build.numberedSection none "Terms" [Build.exampleCode false "{ a }"],
      Build.algorithm "Execute" [] [],
      Build.algorithm "Execute" [] []]

/-- A biblio in which one of its terms is defined elsewhere. -/
def glossaryBiblio : Biblio :=
  Biblio.seeded (Table.ofList
    [("https://spec.example.org/", Table.ofList [("def-root-field", "#def-root-field")])])

/-- The ids of the nodes of the glossary, and the keys of the biblio after them. -/
theorem assignAnchors?_glossaryDocument :
    (assignAnchors? .standard glossaryBiblio glossaryDocument).map
        (fun r => (r.1.descendants.filterMap Node.id?, r.2.entries.map Prod.fst))
      = some
        (["sec-Terms", "def-root-field-2", "def-root-field-2-2", "def-root-field-3", "note-489fb",
          "sec-Terms.Terms", "note-aba4b", "sec-Terms", "example-1c7e1", "Execute()", "Execute()"],
        ["Execute()", "def-root-field", "def-root-field-2", "def-root-field-2-2",
          "def-root-field-3", "example-1c7e1", "note-489fb", "note-aba4b", "sec-Terms",
          "sec-Terms.Terms"]) := by
  decide +kernel

/-- The terms of the glossary are given the numbers that are left, and its notes different starts of hashes. -/
theorem ownsAnchors_glossaryDocument :
    ∃ d b, assignAnchors? .standard glossaryBiblio glossaryDocument = some (d, b) ∧
      d.descendants.filterMap Node.id?
        = ["sec-Terms", "def-root-field-2", "def-root-field-2-2", "def-root-field-3", "note-489fb",
          "sec-Terms.Terms", "note-aba4b", "sec-Terms", "example-1c7e1", "Execute()", "Execute()"] ∧
      d.OwnsAnchors glossaryBiblio ∧
      List.Forall₂ Node.KeepsRole glossaryDocument.descendants d.descendants := by
  obtain ⟨⟨d, b⟩, hrun, hids⟩ := Option.map_eq_some_iff.1 assignAnchors?_glossaryDocument
  exact ⟨d, b, hrun, congrArg Prod.fst hids, ownsAnchors_of_assignAnchors? hrun⟩

/-- What anchoring says about the biblio, which is `b` before and `b'` after: it keeps what it has, it
gets the ids of the document, and it gets nothing else. -/
structure Document.RegistersAnchors (d : Document) (b b' : Biblio) : Prop where
  kept : ∀ key url, b.find? key = some url → b'.find? key = some url
  registered : ∀ n ∈ d.descendants, ∀ id, n.id? = some id → b'.contains id = true
  added : ∀ key url, b.find? key = none → b'.find? key = some url →
    (∃ n ∈ d.descendants, n.id? = some key) ∧ url = "#" ++ key

/-- A biblio in which the ids of a document were registered has what it had and these ids. -/
theorem registersAnchors_registerAll (d : Document) (b : Biblio) :
    d.RegistersAnchors b (b.registerAll (d.descendants.filterMap Node.id?)) where
  kept := by
    intro key url hurl
    rw [Biblio.find?_registerAll, hurl, Option.some_or]
  registered := by
    intro n hn id hid
    rw [Table.contains, Biblio.find?_registerAll, if_pos (List.mem_filterMap.2 ⟨n, hn, hid⟩)]
    simp
  added := by
    intro key url hnone hurl
    rw [Biblio.find?_registerAll, hnone, Option.none_or] at hurl
    split at hurl
    · next hmem =>
      cases hurl
      exact ⟨List.mem_filterMap.1 hmem, rfl⟩
    · cases hurl

/-- **The biblio of a document.** Where anchoring returns for a document without ids, every node that takes
an anchor has an id, and the biblio has what it had and these ids, the new ones leading to themselves,
and nothing else. -/
theorem registersAnchors_of_assignAnchors? {o : AnchorOptions} {b b' : Biblio} {d d' : Document}
    (h : assignAnchors? o b d = some (d', b')) (hno : ∀ n ∈ d.descendants, n.id? = none) :
    d'.RegistersAnchors b b' ∧
      ∀ n ∈ d'.descendants, n.takesAnchor = true → ∃ id, n.id? = some id := by
  have hanchored := anchored_of_assignAnchors? h
  refine ⟨?_, hanchored.exists_id⟩
  rw [hanchored.biblio_eq, hanchored.givenId?_eq hno]
  exact registersAnchors_registerAll d' b

/-- The biblio of the document with taken anchors. Its sections share an anchor, and so do its
algorithms. -/
theorem registersAnchors_glossaryDocument :
    ∃ d b, assignAnchors? .standard glossaryBiblio glossaryDocument = some (d, b) ∧
      (∀ n ∈ glossaryDocument.descendants, n.id? = none) ∧
      b.entries.map Prod.fst
        = ["Execute()", "def-root-field", "def-root-field-2", "def-root-field-2-2",
          "def-root-field-3", "example-1c7e1", "note-489fb", "note-aba4b", "sec-Terms",
          "sec-Terms.Terms"] ∧
      d.RegistersAnchors glossaryBiblio b ∧
      ∀ n ∈ d.descendants, n.takesAnchor = true → ∃ id, n.id? = some id := by
  obtain ⟨⟨d, b⟩, hrun, hkeys⟩ := Option.map_eq_some_iff.1 assignAnchors?_glossaryDocument
  have hno : ∀ n ∈ glossaryDocument.descendants, n.id? = none := by decide
  exact ⟨d, b, hrun, hno, congrArg Prod.snd hkeys, registersAnchors_of_assignAnchors? hrun hno⟩

end SpecDoc
