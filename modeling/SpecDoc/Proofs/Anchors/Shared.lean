import Mathlib.Data.List.TakeWhile
import SpecDoc.Proofs.Anchors.Hashed
import SpecDoc.Proofs.Anchors.Terms
import SpecDoc.Proofs.Annotated
import SpecDoc.Proofs.Erasure.Stages
import SpecDoc.Proofs.Markup.OneLine

/-!
# Anchors that rules share

Terms, notes and examples have anchors of their own, but a rule has the anchor that its name makes, and shares
it with all rules whose names make the same one. For productions these are the rules of the same name. An
algorithm is known by the slug of its name, which may leave something of the name out.

* `Node.callName?` and `Node.tokenName?` are the names of algorithms and of productions;
* `Library.everywhere_namesToken_of_resolve`: productions have names of non-terminals, which are their own
  slugs;
* `Node.IsReferenced` says what an anchor is made of, and `isReferenced_of_assignAnchors?` that all are made
  in this way;
* `id?_eq_iff_of_compile`: which nodes share an anchor;
* `not_sharesAnchorsByName_greetingFiles`: algorithms of different names that do.
-/

namespace SpecDoc

open Node Markup Text

/-! ## Names of rules -/

namespace Node

/-- The name of the call that an algorithm is for. -/
def callName? : Node → Option String
  | .rule r _ head _ => if r.kind = .algorithm then r.name? head else none
  | _ => none

/-- The name of the token that a production is for. -/
def tokenName? : Node → Option String
  | .rule r _ head _ => if r.kind = .algorithm then none else r.name? head
  | _ => none

/-- Whether the token of a node is named like a non-terminal, if the node is a production. -/
def NamesToken (n : Node) : Prop :=
  ∀ name, n.tokenName? = some name → isNonTerminal name.toList = true

/-- Parts of blocks are no productions. -/
theorem IsPart.tokenName? {n : Node} (h : n.IsPart) : n.tokenName? = none := by
  cases n with
  | rule r span head body => exact h.elim
  | _ => rfl

/-- The name of a token does not depend on annotations. -/
theorem tokenName?_erase (a : Annotation) (n : Node) : (n.erase a).tokenName? = n.tokenName? := by
  cases n with
  | leaf l span =>
      rw [erase_leaf]
      rfl
  | group g span contents =>
      rw [erase_group]
      rfl
  | rule r span head body =>
      rw [erase_rule, Node.tokenName?, Node.tokenName?, (relabels_erase a).name?_map, Rule.name?_erase]
      cases r <;> rfl

/-- Whether a node names a non-terminal as its token does not depend on annotations. -/
theorem namesToken_erase (a : Annotation) (n : Node) : (n.erase a).NamesToken ↔ n.NamesToken := by
  rw [NamesToken, NamesToken, tokenName?_erase]

end Node

namespace Markup

/-- The name of a production is that of a non-terminal. -/
theorem isNonTerminal_of_production? {line name text : List Char} {colons : ℕ}
    (h : production? line = some (name, colons, text)) : isNonTerminal name = true := by
  obtain ⟨rest, hname⟩ := exists_productionName?_of_production? h
  obtain ⟨c, r, -, hupper, rfl, -⟩ := productionName?_eq_some hname
  have hnothing : (r.takeWhile isNameChar).dropWhile isNameChar = [] :=
    List.dropWhile_eq_nil_iff.2 fun d => List.mem_takeWhile_imp
  rw [isNonTerminal, productionName?, if_pos hupper, hnothing]

/-- The name of a non-terminal starts with a capital letter and goes on with letters, digits and `_`. -/
theorem exists_eq_cons_of_isNonTerminal {name : List Char} (h : isNonTerminal name = true) :
    ∃ c r, name = c :: r ∧ c.isUpper = true ∧ ∀ d ∈ r, isNameChar d = true := by
  unfold isNonTerminal at h
  split at h
  · next hname =>
    obtain ⟨c, r, rfl, hupper, -, hnothing⟩ := productionName?_eq_some hname
    exact ⟨c, r, rfl, hupper, List.dropWhile_eq_nil_iff.1 hnothing.symm⟩
  · cases h

/-- A block that stands by itself names its token, if it is a production. -/
theorem namesToken_of_blockContent {file : Option String} {n : ℕ} {line : List Char}
    {tail : List (List Char)} {node : Node} (h : blockContent file n line tail = .block node) :
    node.NamesToken := by
  have hno : ∀ {m : Node}, m.tokenName? = none → m.NamesToken := by
    intro m hm name hname
    rw [hm] at hname
    cases hname
  unfold blockContent at h
  -- The forms of a line in the order in which they are tried.
  split at h
  · cases h
  split at h
  · split at h <;> cases h
    exact hno rfl
  split at h
  · cases h
  split at h
  · cases h
    exact hno rfl
  split at h
  · -- Both forms of productions have the same token.
    next name colons text hproduction =>
    have hname : ∀ token, some (String.ofList name) = some token → isNonTerminal token.toList = true := by
      rintro _ ⟨⟩
      rw [String.toList_ofList]
      exact isNonTerminal_of_production? hproduction
    split at h <;> cases h <;> exact hname
  repeat' split at h
  all_goals
    cases h
    exact hno rfl

end Markup

/-- All productions of a document name their tokens. -/
theorem Document.everywhere_namesToken_of_parse {start : Start} {file : Option String} {source : String}
    {d : Document} (h : Document.parse start file source = .ok d) : Everywhere NamesToken d.contents := by
  have hheadings : AtHeadings NamesToken fun _ => True := ⟨⟨nofun, nofun⟩, nofun⟩
  refine Document.everywhere_of_parse hheadings (fun n ls _ item hitem => ?_) h
  unfold Item.Satisfies
  split
  · next node hnode =>
    obtain ⟨before, line, rest, -, -, rfl⟩ := exists_of_mem_items hitem
    refine everywhere_singleton.2 ⟨namesToken_of_blockContent hnode, ?_⟩
    refine (isBlockNode_of_blockContent hnode).parts.mono fun m hm name hname => ?_
    rw [hm.tokenName?] at hname
    cases hname
  all_goals trivial

/-- All productions of a document that is put together from files name their tokens. -/
theorem Library.everywhere_namesToken_of_resolve {lib : Library} {c : Cancellation} {entry : String}
    {d : Document} {reads : ℕ} (h : lib.resolve c entry = some (.ok d, reads)) :
    Everywhere NamesToken d.contents :=
  Library.everywhere_of_resolve Document.everywhere_namesToken_of_parse (fun _ hg => hg) (fun hr => hr) h

/-! ## What anchors are made of -/

/-- Whether a node is referenced by an anchor, without being a heading: it is a rule, a term, a note or an
example. -/
def Node.isReferenceable : Node → Bool
  | .rule _ _ _ _ => true
  | n => n.ownsAnchor

/-- What the anchor of a node is made of. -/
inductive Node.IsReferenced (n : Node) : Prop where
  /-- An algorithm has the slug of its name, with brackets. -/
  | algorithm {name : String} (hcall : n.callName? = some name) (htoken : n.tokenName? = none)
      (hid : n.id? = some (slug name ++ "()"))
  /-- A production has the slug of its name, which is that of a non-terminal. -/
  | production {name : String} (hcall : n.callName? = none) (htoken : n.tokenName? = some name)
      (hname : isNonTerminal name.toList = true) (hid : n.id? = some (slug name))
  /-- A term, a note or an example has a lead of its kind, and nothing but a slug. -/
  | own {lead id : String} (hcall : n.callName? = none) (htoken : n.tokenName? = none)
      (howns : n.ownsAnchor = true) (hlead : lead ∈ ["def-", "note-", "example-"])
      (hled : IsLed lead id) (hid : n.id? = some id)

/-- Anchoring makes all anchors in this way. -/
theorem AnchorState.establishes_isReferenced (o : AnchorOptions) (slugs : List String) :
    (sweep o slugs).Establishes (fun n => n.IsCounted ∧ n.NamesToken)
      fun n => n.isReferenceable = true → n.IsReferenced where
  names := (establishes o slugs).names
  leaf := by
    rintro l l' span s s' h - href
    cases l with
    | code c =>
        rcases anchorLeaf_code_cases h with ⟨hexample, id, hcontent, rfl⟩ | ⟨hexample, rfl⟩
        · have hled := isLed_of_contentAnchor? (List.all_eq_true.1 (by decide)) hcontent
          exact .own rfl rfl hexample (by simp) hled rfl
        · rw [show (Node.leaf (.code c) span).isReferenceable = c.isExample from rfl, hexample] at href
          cases href
    | _ =>
        cases h
        cases href
  group := by
    rintro g g' span contents contents' s s' h - href
    cases g with
    | definitionTerm name old =>
        obtain ⟨id, hid, rfl, rfl⟩ := anchorGroup_definitionTerm_eq_ok h
        exact .own rfl rfl rfl (by simp) (isLed_of_termAnchor? hid) rfl
    | note old =>
        obtain ⟨id, hcontent, rfl⟩ := anchorGroup_note_eq_ok h
        have hled := isLed_of_contentAnchor? (List.all_eq_true.1 (by decide)) hcontent
        exact .own rfl rfl rfl (by simp) hled rfl
    | _ =>
        cases h
        cases href
  rule := by
    rintro r r' span head head' body body' s s' h hhead ⟨⟨-, hnamed⟩, htoken⟩ -
    obtain ⟨name, hname⟩ := Option.isSome_iff_exists.1 hnamed
    have hname' : ∀ r₁ : Rule, r₁.kind = r.kind → r₁.name? head' = some name := by
      intro r₁ hkind
      rw [hhead, Rule.name?_eq_of_kind hkind, hname]
    change anchorRule r head s = _ at h
    rw [anchorRule, hname] at h
    cases r with
    | algorithm id =>
        cases h
        exact .algorithm (hname' _ rfl) rfl rfl
    | production defType id =>
        cases h
        exact .production rfl (hname' _ rfl) (htoken name hname) rfl
    | oneOfProduction defType id =>
        cases h
        exact .production rfl (hname' _ rfl) (htoken name hname) rfl

/-! ## Which anchors are shared -/

namespace Node

/-- Whether two nodes have the same anchor by their names. -/
def SharesName (m n : Node) : Prop :=
  (∃ s t, m.callName? = some s ∧ n.callName? = some t ∧ slug s = slug t) ∨
    ∃ s, m.tokenName? = some s ∧ n.tokenName? = some s

/-- The name of a non-terminal is its own slug. -/
theorem slug_eq_self_of_isNonTerminal {name : String} (h : isNonTerminal name.toList = true) :
    slug name = name := by
  obtain ⟨c, r, hname, hupper, hr⟩ := exists_eq_cons_of_isNonTerminal h
  have hchars : ∀ d ∈ name.toList, isSlugChar d = true := by
    rw [hname, List.forall_mem_cons]
    have halpha : c.isAlpha = true := Bool.or_eq_true_iff.2 (.inl hupper)
    refine ⟨by simp [isSlugChar, Char.isAlphanum, halpha], fun d hd => ?_⟩
    rw [isSlugChar, ← isNameChar, hr d hd, Bool.true_or]
  rw [slug, slugChars, slugFrom_eq_self hchars, String.ofList_toList]

/-- The name of a non-terminal starts with a capital letter, and no lead does. -/
theorem not_isLed_of_isNonTerminal {name lead : String} (h : isNonTerminal name.toList = true)
    (hlead : lead ∈ ["def-", "note-", "example-"]) : ¬IsLed lead name := by
  rintro ⟨tail, rfl, -⟩
  obtain ⟨c, r, hname, hupper, -⟩ := exists_eq_cons_of_isNonTerminal h
  rw [String.toList_append] at hname
  -- A lead starts with a small letter.
  simp only [List.mem_cons, List.not_mem_nil, or_false] at hlead
  rcases hlead with rfl | rfl | rfl <;>
    exact absurd ((List.cons.inj hname).1 ▸ hupper) (by decide)

/-- The anchor of an algorithm has a bracket, so it is none without. -/
theorem ne_slug_append {id : String} (hid : ')' ∉ id.toList) (name : String) : id ≠ slug name ++ "()" := by
  rintro rfl
  exact hid (by simp)

/-- What is put together from a lead and slug characters has no bracket. -/
theorem bracket_notMem_of_isLed {lead id : String} (hlead : lead ∈ ["def-", "note-", "example-"])
    (h : IsLed lead id) : ')' ∉ id.toList := by
  refine h.notMem (by decide) ?_
  simp only [List.mem_cons, List.not_mem_nil, or_false] at hlead
  rcases hlead with rfl | rfl | rfl <;> decide

/-- Nodes have the same anchor by their names or not at all, unless the second one has one of its own. -/
theorem IsReferenced.id?_eq_iff {m n : Node} (hm : m.IsReferenced) (hn : n.IsReferenced)
    (hne : n.ownsAnchor = true → m.id? ≠ n.id?) : m.id? = n.id? ↔ m.SharesName n := by
  have hclosed : ∀ name : String, ')' ∉ (slug name).toList := notMem_slug (by decide)
  cases hn with
  | own hcall htoken howns _ _ _ => simp [SharesName, hcall, htoken, hne howns]
  | @algorithm t hcall htoken hid =>
      cases hm with
      | own hcall' htoken' _ hlead hled hid' =>
          have hneq := ne_slug_append (bracket_notMem_of_isLed hlead hled) t
          simp [SharesName, hcall, htoken, hcall', htoken', hid, hid', hneq]
      | @algorithm s hcall' htoken' hid' =>
          have hslugs : slug s ++ "()" = slug t ++ "()" ↔ slug s = slug t := by
            rw [← String.toList_inj, String.toList_append, String.toList_append,
              List.append_left_inj, String.toList_inj]
          simp [SharesName, hcall, htoken, hcall', htoken', hid, hid', hslugs]
      | @production s hcall' htoken' hname hid' =>
          have hneq := ne_slug_append (hclosed s) t
          simp [SharesName, hcall, htoken, hcall', htoken', hid, hid', hneq]
  | @production t hcall htoken hname hid =>
      have hself := slug_eq_self_of_isNonTerminal hname
      cases hm with
      | @own lead id hcall' htoken' _ hlead hled hid' =>
          have hneq : id ≠ t := by
            rintro rfl
            exact not_isLed_of_isNonTerminal hname hlead hled
          simp [SharesName, hcall, htoken, hcall', htoken', hid, hid', hself, hneq]
      | @algorithm s hcall' htoken' hid' =>
          have hneq := (ne_slug_append (hclosed t) s).symm
          simp [SharesName, hcall, htoken, hcall', htoken', hid, hid', hneq]
      | @production s hcall' htoken' hname' hid' =>
          have hself' := slug_eq_self_of_isNonTerminal hname'
          simp [SharesName, hcall, htoken, hcall', htoken', hid, hid', hself, hself', eq_comm]

/-- A node whose anchor is made of its name or of its content gets one. -/
theorem IsReferenced.takesAnchor {n : Node} (h : n.IsReferenced) : n.takesAnchor = true := by
  have hrule : ∀ name, n.callName? = some name ∨ n.tokenName? = some name → n.takesAnchor = true := by
    intro name hname
    cases n with
    | rule r span head body =>
        rw [callName?, tokenName?, Option.ite_none_right_eq_some, Option.ite_none_left_eq_some] at hname
        have hnamed : r.name? head = some name := hname.elim And.right And.right
        rw [Node.takesAnchor, hnamed, Option.isSome_some]
    | _ => rcases hname with hname | hname <;> cases hname
  cases h with
  | algorithm hcall _ _ => exact hrule _ (.inl hcall)
  | production _ htoken _ _ => exact hrule _ (.inr htoken)
  | own _ _ howns _ _ _ => exact takesAnchor_of_ownsAnchor howns

end Node

/-! ## Compiled documents -/

/-- Whether anchors are only shared by algorithms of the same name and by productions of the same name. -/
def Document.SharesAnchorsByName (d : Document) : Prop :=
  d.descendants.Pairwise fun m n => m.isReferenceable = true → n.isReferenceable = true →
    m.id? = n.id? →
      (∃ name, m.callName? = some name ∧ n.callName? = some name) ∨
        ∃ name, m.tokenName? = some name ∧ n.tokenName? = some name

/-- In every document that was anchored, the anchors of rules, terms, notes and examples are made of their names or of
their contents. -/
theorem isReferenced_of_assignAnchors? {o : AnchorOptions} {b b' : Biblio} {d d' : Document}
    (h : assignAnchors? o b d = some (d', b'))
    (hd : Everywhere (fun n => n.IsCounted ∧ n.NamesToken) d.contents) :
    ∀ n ∈ d'.descendants, n.isReferenceable = true → n.IsReferenced := by
  obtain ⟨s, hswept, -⟩ := exists_sweptDocument_of_assignAnchors? h
  exact Document.forall_descendants_iff.2
    (Sweep.everywhere_of_swept (AnchorState.establishes_isReferenced o _) hswept.contents hd)

/-- **Anchors that are shared.** In a document that was compiled, every rule, term, note and example has an
anchor. Two of them have the same one exactly if they are algorithms whose names have the same slug, or
productions of the same name. -/
theorem id?_eq_iff_of_compile {lib : Library} {o : CompileOptions} {entry : String} {a : Annotated}
    (h : (compile lib o entry).run = some (.ok a)) :
    (∀ n ∈ a.document.descendants, n.isReferenceable = true → n.id?.isSome) ∧
      a.document.descendants.Pairwise fun m n => m.isReferenceable = true → n.isReferenceable = true →
        (m.id? = n.id? ↔ m.SharesName n) := by
  obtain ⟨d, d₁, reads, hresolve, hnumber, hanchors⟩ := exists_of_run_eq_ok h
  have hcounted : Everywhere Node.IsCounted (numberExamples d₁).contents :=
    (isCounted_numberExamples
      (isSectioned_of_numberSections hnumber (isResolved_of_resolve hresolve)).2).2
  have htokens : Everywhere NamesToken (numberExamples d₁).contents :=
    everywhere_of_erase_eq (namesToken_erase _) (erase_numberExamples d₁)
      (everywhere_of_erase_eq (namesToken_erase _) (erase_eq_of_numberSections hnumber)
        (Library.everywhere_namesToken_of_resolve hresolve))
  have hreferenced := isReferenced_of_assignAnchors? hanchors fun n hn => ⟨hcounted n hn, htokens n hn⟩
  have hanchored := anchored_of_assignAnchors? hanchors
  constructor
  · intro n hn href
    obtain ⟨id, hid⟩ := hanchored.exists_id n hn (hreferenced n hn href).takesAnchor
    rw [hid, Option.isSome_some]
  · refine hanchored.pairwise_ne.imp_of_mem ?_
    intro m n hm hn hne hrefm hrefn
    have hm' := hreferenced m hm hrefm
    exact hm'.id?_eq_iff (hreferenced n hn hrefn) fun howns => hne hm'.takesAnchor howns

/-- The anchor of a node with the name of its call and that of its token. -/
def Node.reference (n : Node) : List (Option String) := [n.id?, n.callName?, n.tokenName?]

/-- A document with a term, a note, an example, two productions of one name, and two algorithms whose names
differ in a letter that is not in ASCII. -/
def greetingFiles : List (String × Except ReadFailure String) :=
  [("spec.md", .ok ("# Specification\n\n# Values\n\n::A *Größe* is a value.\n\nNote: Read on.\n\n" ++
    "\x60\x60\x60text example\nvalue\n\x60\x60\x60\n\nValue :\n  - Word\n\nValue :: one of\n  a b\n\n" ++
    "Größe(value):\n- Return {value}.\n\nGrüße(name):\n- Return {name}.\n"))]

/-- The anchors and names of the nodes of the greeting that can be referred to. -/
def greetingReferences : List (List (Option String)) :=
  [[some "def-Gr-e", none, none], [some "note-1657f", none, none], [some "example-cd424", none, none],
    [some "Value", none, some "Value"], [some "Value", none, some "Value"],
    [some "Gr-e()", some "Größe", none], [some "Gr-e()", some "Grüße", none]]

/-- The greeting is compiled, and its nodes have these anchors and names. -/
theorem run_compile_greetingFiles :
    ∃ a, (compile (Library.ofFiles greetingFiles) .standard "spec.md").run = some (.ok a) ∧
      (a.document.descendants.filter Node.isReferenceable).map Node.reference = greetingReferences := by
  have hreferences : (compile (Library.ofFiles greetingFiles) .standard "spec.md").run.map
      (fun r => r.toOption.map fun a =>
        (a.document.descendants.filter Node.isReferenceable).map Node.reference)
        = some (some greetingReferences) := by
    decide +kernel
  obtain ⟨r, hrun, hr⟩ := Option.map_eq_some_iff.1 hreferences
  cases r with
  | error e => cases hr
  | ok a => exact ⟨a, hrun, Option.some.inj hr⟩

/-- In the greeting the productions share their anchor, and so do the algorithms. -/
theorem id?_eq_iff_greetingFiles :
    ∃ a, (compile (Library.ofFiles greetingFiles) .standard "spec.md").run = some (.ok a) ∧
      (a.document.descendants.filter Node.isReferenceable).map Node.reference = greetingReferences ∧
      (∀ n ∈ a.document.descendants, n.isReferenceable = true → n.id?.isSome) ∧
      a.document.descendants.Pairwise fun m n => m.isReferenceable = true → n.isReferenceable = true →
        (m.id? = n.id? ↔ m.SharesName n) := by
  obtain ⟨a, hrun, hreferences⟩ := run_compile_greetingFiles
  exact ⟨a, hrun, hreferences, id?_eq_iff_of_compile hrun⟩

/-- An anchor is not only shared by rules of one name. -/
theorem not_sharesAnchorsByName_greetingFiles :
    ¬∀ (files : List (String × Except ReadFailure String)) (o : CompileOptions) (entry : String)
      (a : Annotated), (compile (Library.ofFiles files) o entry).run = some (.ok a) →
        a.document.SharesAnchorsByName := by
  intro hclaim
  obtain ⟨a, hrun, hreferences⟩ := run_compile_greetingFiles
  have hpairwise := (hclaim greetingFiles .standard "spec.md" a hrun).filter Node.isReferenceable
  have hall := fun n (hn : n ∈ a.document.descendants.filter Node.isReferenceable) =>
    (List.mem_filter.1 hn).2
  generalize a.document.descendants.filter Node.isReferenceable = nodes at hreferences hpairwise hall
  -- The algorithms are the last two.
  have hlast : (nodes.drop 5).map Node.reference
      = [[some "Gr-e()", some "Größe", none], [some "Gr-e()", some "Grüße", none]] := by
    rw [List.map_drop, hreferences]
    rfl
  obtain ⟨m, ms, hms, hm, hrest⟩ := List.map_eq_cons_iff.1 hlast
  obtain ⟨n, ns, rfl, hn, -⟩ := List.map_eq_cons_iff.1 hrest
  simp only [Node.reference, List.cons.injEq, and_true] at hm hn
  obtain ⟨hidm, hcallm, htokenm⟩ := hm
  obtain ⟨hidn, hcalln, -⟩ := hn
  have hsublist : (m :: n :: ns).Sublist nodes := hms ▸ List.drop_sublist 5 nodes
  rcases List.rel_of_pairwise_cons (hpairwise.sublist hsublist) List.mem_cons_self
    (hall m (hsublist.subset (by simp))) (hall n (hsublist.subset (by simp)))
    (hidm.trans hidn.symm) with ⟨name, hname, hname'⟩ | ⟨name, hname, -⟩
  · have heq := (hcallm.symm.trans hname).trans (hname'.symm.trans hcalln)
    exact absurd (Option.some.inj heq) (by decide)
  · rw [htokenm] at hname
    cases hname

end SpecDoc
