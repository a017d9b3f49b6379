import SpecDoc.Proofs.Anchors.Registered
import SpecDoc.Proofs.Compile
import SpecDoc.Proofs.Numbering

/-!
# Annotated documents

Each stage of an annotation fills in one thing at every node and keeps what was there. `Establishes`
says so of a sweep, and it takes a property of all nodes of a document to another one.

* `everywhere_of_swept`: what a sweep establishes holds everywhere;
* `Document.IsAnnotated`: what a reader may rely on in a document that was compiled;
* `isAnnotated_of_compile`: every document that comes out of a compilation is like that.
-/

namespace SpecDoc

open Node

/-! ## Properties and sweeps -/

namespace Sweep

variable {σ ε : Type} {w : Sweep σ ε} {P Q : Node → Prop}

/-- Where a sweep finds the property `P` of a node, it leaves `Q`, whatever becomes of the nodes
below. The head of a rule goes on giving the names that it gave. -/
structure Establishes (w : Sweep σ ε) (P Q : Node → Prop) : Prop where
  names : ∀ {l l' : Leaf} {s s' : σ} (span : Option Span), w.leaf l s = .ok (l', s') →
    ∀ r : Rule, r.name? (some (.leaf l' span)) = r.name? (some (.leaf l span))
  leaf : ∀ {l l' : Leaf} {span : Option Span} {s s' : σ}, w.leaf l s = .ok (l', s') →
    P (.leaf l span) → Q (.leaf l' span)
  group : ∀ {g g' : Group} {span : Option Span} {contents contents' : List Node} {s s' : σ},
    w.group g span contents s = .ok (g', s') → P (.group g span contents) →
      Q (.group g' span contents')
  rule : ∀ {r r' : Rule} {span : Option Span} {head head' : Option Node} {body body' : List Node}
    {s s' : σ}, w.rule r head s = .ok (r', s') → (∀ r : Rule, r.name? head' = r.name? head) →
      P (.rule r span head body) → Q (.rule r' span head' body')

/-- The head of a rule gives the same names after it was swept. -/
theorem Establishes.name?_eq (hw : w.Establishes P Q) {head head' : Option Node} {s s' : σ}
    (h : Swept w s head.toList head'.toList s') (r : Rule) : r.name? head' = r.name? head := by
  cases head with
  | none =>
      cases head' with
      | none => rfl
      | some n' => cases h
  | some n =>
      cases head' with
      | none => cases h
      | some n' =>
          rw [Option.toList_some, Option.toList_some] at h
          cases h with
          | leaf hleaf _ => exact hw.names _ hleaf r
          | group _ _ _ => cases r <;> rfl
          | rule _ _ _ _ => cases r <;> rfl

/-- What a sweep establishes holds everywhere, if what it relies on did. -/
theorem everywhere_of_swept (hw : w.Establishes P Q) {ns ns' : List Node} {s s' : σ}
    (h : Swept w s ns ns' s') (hns : Everywhere P ns) : Everywhere Q ns' := by
  induction h with
  | nil s => exact everywhere_nil
  | leaf hleaf _ ih =>
      obtain ⟨hl, hns⟩ := everywhere_leaf.1 hns
      exact everywhere_leaf.2 ⟨hw.leaf hleaf hl, ih hns⟩
  | group hgroup _ _ ihcontents ihns =>
      obtain ⟨hg, hcontents, hns⟩ := everywhere_group.1 hns
      exact everywhere_group.2 ⟨hw.group hgroup hg, ihcontents hcontents, ihns hns⟩
  | rule hrule hhead _ _ ihhead ihbody ihns =>
      obtain ⟨hr, hhead₀, hbody, hns⟩ := everywhere_rule.1 hns
      exact everywhere_rule.2
        ⟨hw.rule hrule (hw.name?_eq hhead) hr, ihhead hhead₀, ihbody hbody, ihns hns⟩

end Sweep

/-! ## What the stages establish -/

/-- A node of a resolved document, before any stage. -/
def Node.IsResolved (n : Node) : Prop := n.AsRead ∧ n.isImport = false

/-- A node of a document whose sections are numbered. -/
def Node.IsSectioned (n : Node) : Prop :=
  n.IsResolved ∧ ∀ sec, n.section? = some sec → sec.secId ≠ [] ∧ sec.number.isSome

/-- A node of a document whose sections and examples are numbered. It has no anchor yet. -/
def Node.IsCounted : Node → Prop
  | .leaf (.importLink _) _ => False
  | .leaf (.code c) _ => c.number.isSome = c.isExample ∧ c.id = none
  | .leaf _ _ => True
  | .group (.numberedSection sec) _ _ => sec.secId ≠ [] ∧ sec.number.isSome ∧ sec.id = none
  | .group g _ _ => g.id? = none
  | .rule r _ head _ => r.id? = none ∧ (r.name? head).isSome

/-- A node of an annotated document: nothing that a stage has to fill in is left open. -/
def Node.IsAnnotated : Node → Prop
  | .leaf (.importLink _) _ => False
  | .leaf (.code c) _ =>
    if c.isExample then c.number.isSome ∧ c.id.isSome else c.number = none ∧ c.id = none
  | .leaf _ _ => True
  | .group (.numberedSection sec) _ _ => sec.secId ≠ [] ∧ sec.number.isSome ∧ sec.id.isSome
  | .group (.subsection sub) _ _ => sub.id.isSome
  | .group (.definitionTerm _ id) _ _ => id.isSome
  | .group (.note id) _ _ => id.isSome
  | .group _ _ _ => True
  | .rule r _ _ _ => r.id?.isSome

/-- The numbering of sections gives sections their ids and numbers. -/
theorem NumberingState.establishes : sweep.Establishes Node.IsResolved Node.IsSectioned where
  names _ h r := by
    cases h
    rfl
  leaf h hl := by
    cases h
    exact ⟨hl, by simp [section?]⟩
  group := by
    intro g g' span contents contents' s s' h hg
    cases g with
    | numberedSection sec =>
        rcases numberGroup_cases h with ⟨_, part, heq, -, rfl, -⟩ | ⟨hno, -⟩
        · cases heq
          refine ⟨hg, ?_⟩
          rintro sec' hsec
          cases hsec
          exact ⟨by simp, rfl⟩
        · exact absurd rfl (hno sec)
    | _ =>
        cases h
        exact ⟨hg, by simp [section?]⟩
  rule := by
    rintro r r' span head head' body body' s s' h hname ⟨⟨hid, hnamed⟩, himport⟩
    cases h
    rw [← hname] at hnamed
    exact ⟨⟨⟨hid, hnamed⟩, himport⟩, by simp [section?]⟩

/-- What the numbering of examples does with code: an example gets a number. -/
theorem ExampleNumbering.numberLeaf_code_cases {c : Code} {l : Leaf} {count count' : UInt32}
    (h : sweep.leaf (.code c) count = .ok (l, count')) :
    (c.isExample = true ∧ ∃ number, l = .code { c with number := some number }) ∨
    (c.isExample = false ∧ l = .code c) := by
  change Except.ok (numberLeaf (.code c) count) = _ at h
  unfold numberLeaf at h
  dsimp only at h
  by_cases hexample : c.isExample = true
  · rw [if_pos hexample] at h
    cases h
    exact .inl ⟨hexample, _, rfl⟩
  · rw [if_neg hexample] at h
    cases h
    exact .inr ⟨Bool.eq_false_iff.2 hexample, rfl⟩

/-- The numbering of examples gives examples their numbers. -/
theorem ExampleNumbering.establishes : sweep.Establishes Node.IsSectioned Node.IsCounted where
  names := by
    intro l l' s s' span h r
    cases l with
    | code c =>
        rcases numberLeaf_code_cases h with ⟨-, number, rfl⟩ | ⟨-, rfl⟩
        · cases r <;> rfl
        · rfl
    | _ =>
        cases h
        rfl
  leaf := by
    rintro l l' span s s' h ⟨⟨hread, himport⟩, -⟩
    cases l with
    | code c =>
        obtain ⟨hnumber, hid⟩ := hread
        rcases numberLeaf_code_cases h with ⟨hexample, number, rfl⟩ | ⟨hexample, rfl⟩
        · exact ⟨hexample.symm, hid⟩
        · exact ⟨by rw [hnumber, hexample]; rfl, hid⟩
    | importLink raw => cases himport
    | _ =>
        cases h
        trivial
  group := by
    rintro g g' span contents contents' s s' h ⟨⟨hread, -⟩, hsection⟩
    cases h
    cases g with
    | numberedSection sec =>
        obtain ⟨hid, hnumber⟩ := hsection sec rfl
        exact ⟨hid, hnumber, hread⟩
    | _ => exact hread
  rule := by
    rintro r r' span head head' body body' s s' h hname ⟨⟨⟨hid, hnamed⟩, -⟩, -⟩
    cases h
    rw [← hname] at hnamed
    exact ⟨hid, hnamed⟩

/-- What anchoring does with code: an example gets the anchor of its text. -/
theorem AnchorState.anchorLeaf_code_cases {o : AnchorOptions} {c : Code} {l : Leaf}
    {s s' : AnchorState} (h : anchorLeaf o (.code c) s = .ok (l, s')) :
    (c.isExample = true ∧ ∃ id, contentAnchor? o "example-" (ContentHash.normalizeCode c.text) s
        = some (id, s') ∧ l = .code { c with id := some id }) ∨
    (c.isExample = false ∧ l = .code c) := by
  unfold anchorLeaf at h
  dsimp only at h
  by_cases hexample : c.isExample = true
  · rw [if_pos hexample] at h
    split at h
    · cases h
    · next hcontent =>
      cases h
      exact .inl ⟨hexample, _, hcontent, rfl⟩
  · rw [if_neg hexample] at h
    cases h
    exact .inr ⟨Bool.eq_false_iff.2 hexample, rfl⟩

/-- Anchoring gives ids to all nodes that need one. -/
theorem AnchorState.establishes (o : AnchorOptions) (slugs : List String) :
    (sweep o slugs).Establishes Node.IsCounted Node.IsAnnotated where
  names := by
    intro l l' s s' span h r
    have hswept : (sweep o slugs).Swept s (some (Node.leaf l span)).toList
        (some (Node.leaf l' span)).toList s' := .leaf h (.nil s')
    exact hswept.name?_eq (writes o slugs) r
  leaf := by
    intro l l' span s s' h hl
    cases l with
    | code c =>
        obtain ⟨hnumber, hid⟩ := hl
        rcases anchorLeaf_code_cases h with ⟨hexample, id, -, rfl⟩ | ⟨hexample, rfl⟩
        · rw [hexample] at hnumber
          exact (if_pos hexample).mpr ⟨hnumber, rfl⟩
        · rw [hexample, Option.isSome_eq_false_iff, Option.isNone_iff_eq_none] at hnumber
          exact (if_neg (by simp [hexample])).mpr ⟨hnumber, hid⟩
    | importLink raw => cases hl
    | _ =>
        cases h
        trivial
  group := by
    intro g g' span contents contents' s s' h hg
    cases g with
    | numberedSection sec =>
        obtain ⟨hid, hnumber, -⟩ := hg
        cases h
        exact ⟨hid, hnumber, rfl⟩
    | note old =>
        obtain ⟨id, -, rfl⟩ := anchorGroup_note_eq_ok h
        rfl
    | subsection sub =>
        cases h
        rfl
    | definitionTerm name old =>
        obtain ⟨id, -, rfl, -⟩ := anchorGroup_definitionTerm_eq_ok h
        rfl
    | _ =>
        cases h
        trivial
  rule := by
    rintro r r' span head head' body body' s s' h hname ⟨-, hnamed⟩
    -- A rule without a name gets no anchor, but each rule is read with a head that names it.
    rcases anchorRule_cases h with ⟨hno, -, -⟩ | ⟨-, -, id, hid, -⟩
    · rw [hno] at hnamed
      cases hnamed
    · change r'.id?.isSome
      rw [hid]
      rfl

/-! ## Documents -/

/-- What a reader may rely on in a document that was compiled, with the biblio `b` that came with
it: it has a title that is not blank, nothing is left open at any of its nodes, and every anchor can
be looked up. -/
structure Document.IsAnnotated (d : Document) (b : Biblio) : Prop where
  hasTitle : d.hasTitle = true
  nodes : ∀ n ∈ d.descendants, n.IsAnnotated
  registered : ∀ n ∈ d.descendants, ∀ id, n.id? = some id → b.contains id = true

/-- Nothing has an anchor before anchors are assigned. -/
theorem Node.IsCounted.id?_eq_none {n : Node} (h : n.IsCounted) : n.id? = none := by
  cases n with
  | leaf l span =>
      cases l with
      | code c => exact h.2
      | _ => rfl
  | group g span contents =>
      cases g with
      | numberedSection sec => exact h.2.2
      | _ => exact h
  | rule r span head body => exact h.1

section Stages

variable {d d' : Document}

/-- The sections of a resolved document are numbered, and its title is kept. -/
theorem isSectioned_of_numberSections (h : numberSections d = .ok d')
    (hd : Everywhere Node.IsResolved d.contents) :
    d'.title = d.title ∧ Everywhere Node.IsSectioned d'.contents := by
  obtain ⟨s, hswept⟩ := exists_sweptDocument_of_numberSections h
  exact ⟨hswept.title, Sweep.everywhere_of_swept NumberingState.establishes hswept.contents hd⟩

/-- The examples of a document are numbered, and its title is kept. -/
theorem isCounted_numberExamples (hd : Everywhere Node.IsSectioned d.contents) :
    (numberExamples d).title = d.title ∧ Everywhere Node.IsCounted (numberExamples d).contents := by
  obtain ⟨count, hswept⟩ := exists_sweptDocument_numberExamples d
  exact ⟨hswept.title, Sweep.everywhere_of_swept ExampleNumbering.establishes hswept.contents hd⟩

/-- An anchored document has all that it needs, and its title is kept. -/
theorem isAnnotated_of_assignAnchors? {o : AnchorOptions} {b b' : Biblio}
    (h : assignAnchors? o b d = some (d', b')) (hd : Everywhere Node.IsCounted d.contents) :
    d'.title = d.title ∧ Everywhere Node.IsAnnotated d'.contents := by
  obtain ⟨s, hswept, -⟩ := exists_sweptDocument_of_assignAnchors? h
  exact ⟨hswept.title, Sweep.everywhere_of_swept (AnchorState.establishes o _) hswept.contents hd⟩

/-- All ids of an anchored document are registered. -/
theorem registered_of_assignAnchors? {o : AnchorOptions} {b b' : Biblio}
    (h : assignAnchors? o b d = some (d', b')) (hd : Everywhere Node.IsCounted d.contents) :
    ∀ n ∈ d'.descendants, ∀ id, n.id? = some id → b'.contains id = true := by
  have hanchored := anchored_of_assignAnchors? h
  rw [← Document.forall_descendants_iff] at hd
  rw [hanchored.biblio_eq, hanchored.givenId?_eq fun n hn => (hd n hn).id?_eq_none]
  exact (registersAnchors_registerAll d' b).registered

end Stages

/-- All nodes of a document that was resolved are as they are read, and none is an import. -/
theorem isResolved_of_resolve {lib : Library} {c : Cancellation} {entry : String} {d : Document}
    {reads : ℕ} (h : lib.resolve c entry = some (.ok d, reads)) :
    Everywhere Node.IsResolved d.contents := by
  obtain ⟨d₀, hload, hexpands, -, -⟩ := Library.expands_of_resolve h
  have hread := hexpands.asRead (fun q d hbelow => hbelow.2.asRead) hload.asRead
  exact fun n hn => ⟨hread n hn, not_isImport_of_resolve h n hn⟩

/-- **Annotated documents.** Whatever a compilation is given, the document that comes out of it is
annotated all through, with the biblio that comes with it. -/
theorem isAnnotated_of_compile {lib : Library} {o : CompileOptions} {entry : String}
    {a : Annotated} (h : (compile lib o entry).run = some (.ok a)) :
    a.document.IsAnnotated a.biblio := by
  obtain ⟨d, d₁, reads, hresolve, hnumber, hanchors⟩ := exists_of_run_eq_ok h
  obtain ⟨htitle₁, hsectioned⟩ :=
    isSectioned_of_numberSections hnumber (isResolved_of_resolve hresolve)
  obtain ⟨htitle₂, hcounted⟩ := isCounted_numberExamples hsectioned
  obtain ⟨htitle₃, hannotated⟩ := isAnnotated_of_assignAnchors? hanchors hcounted
  refine ⟨?_, Document.forall_descendants_iff.2 hannotated,
    registered_of_assignAnchors? hanchors hcounted⟩
  rw [Document.hasTitle, htitle₃, htitle₂, htitle₁]
  exact hasTitle_of_resolve hresolve

/-- A document of two files with nodes of all kinds that get an anchor. -/
def languageFiles : List (String × Except ReadFailure String) :=
  [("spec/index.md", .ok "# Language\n\n# Scope\n\nNote: Short.\n\n# [Rest](./rest.md)\n"),
    ("spec/rest.md", .ok ("# Syntax\n\nName :: one of\n  a b c\n\nValue : Name\n\n**Terms**\n\n" ++
      ":: A *value* is something.\n\nExecute(value):\n- Return {value}.\n\n" ++
      "\x60\x60\x60 example\na\n\x60\x60\x60\n\n\x60\x60\x60js\nb\n\x60\x60\x60\n"))]

/-- The document of these files is compiled, and all its nodes have their anchors. -/
theorem isAnnotated_languageFiles :
    ∃ a, (compile (Library.ofFiles languageFiles) .standard "spec/index.md").run = some (.ok a) ∧
      a.document.descendants.filterMap Node.id?
        = ["sec-Scope", "note-c9145", "sec-Syntax", "Name", "Value", "sec-Syntax.Terms", "def-value",
          "Execute()", "example-ca978"] ∧
      a.document.IsAnnotated a.biblio := by
  have hsucceeds : (compile (Library.ofFiles languageFiles) .standard "spec/index.md").run.map
      (fun r => r.toOption.map fun a => a.document.descendants.filterMap Node.id?)
        = some (some
          ["sec-Scope", "note-c9145", "sec-Syntax", "Name", "Value", "sec-Syntax.Terms", "def-value",
          "Execute()", "example-ca978"]) := by
    decide +kernel
  obtain ⟨r, hrun, hr⟩ := Option.map_eq_some_iff.1 hsucceeds
  cases r with
  | error e => cases hr
  | ok a => exact ⟨a, hrun, Option.some.inj hr, isAnnotated_of_compile hrun⟩

end SpecDoc
