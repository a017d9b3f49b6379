import SpecDoc.Outline
import SpecDoc.Proofs.Markup.Extent
import SpecDoc.Proofs.Markup.OneLine
import SpecDoc.Proofs.Markup.Written

/-!
# Nodes that fit into an outline

An outline shows a node on one line, unless its kind is hidden, and then the nodes below it are not shown
either. So a title or a name must not go over several lines, and nothing that is shown may stand below what is
hidden. The reader builds only such nodes.

* `Node.FitsOutline` says so of one node;
* `Markup.everywhere_fitsOutline_block`: it is true everywhere in a block;
* `Document.everywhere_fitsOutline_of_parse`: it is true everywhere in a document;
* `Document.newline_notMem_title_of_parse`: the title of a document is on one line, too.
-/

namespace SpecDoc

open Node Markup

/-- A node that fits into an outline. What is called by several lines has no place there, and the language of
code is a single word. -/
structure Node.FitsOutline (n : Node) : Prop where
  not_document : n.kind ≠ .document
  hides : n.kind.isHidden = true → ∀ m ∈ n.children, m.kind.isHidden = true
  label : n.kind.isHidden = false → n.isImport = false →
    ∀ label, n.label? = some label → '\n' ∉ label.toList
  lang : n.kind = .code → ∀ lang, n.label? = some lang → IsWord lang.toList

namespace Node

/-! ## Parts of blocks -/

/-- A word is on one line. -/
theorem newline_notMem_of_isWord {s : List Char} (h : IsWord s) : '\n' ∉ s := mt (h '\n') (by decide)

/-- Hidden nodes are neither documents nor code. -/
theorem ne_of_isHidden {k k' : Kind} (h : k.isHidden = true) (h' : k'.isHidden = false) : k ≠ k' := by
  rintro rfl
  rw [h] at h'
  cases h'

/-- A hidden leaf fits into an outline. -/
theorem fitsOutline_leaf {l : Leaf} (hl : l.kind.isHidden = true) (span : Option Span) :
    FitsOutline (.leaf l span) where
  not_document := ne_of_isHidden hl rfl
  hides _ := by simp [children]
  label hshown := by
    rw [show (leaf l span).kind = l.kind from rfl, hl] at hshown
    cases hshown
  lang hcode := absurd hcode (ne_of_isHidden hl rfl)

/-- A hidden group has only hidden nodes below it. -/
theorem fitsOutline_group_of_isHidden {g : Group} (hg : g.kind.isHidden = true) (span : Option Span)
    {contents : List Node} (hcontents : ∀ m ∈ contents, m.kind.isHidden = true) :
    FitsOutline (.group g span contents) where
  not_document := ne_of_isHidden hg rfl
  hides _ := hcontents
  label hshown := by
    rw [show (group g span contents).kind = g.kind from rfl, hg] at hshown
    cases hshown
  lang hcode := absurd hcode (ne_of_isHidden hg rfl)

/-- A group that is shown is called by one line, if it is called by anything. -/
theorem fitsOutline_group {g : Group} (hdocument : (g.kind == .document) = false)
    (hg : g.kind.isHidden = false)
    (hlabel : ∀ label, g.label? = some label → '\n' ∉ label.toList) (span : Option Span)
    (contents : List Node) : FitsOutline (.group g span contents) where
  not_document := ne_of_beq_false hdocument
  hides hhidden := by
    rw [show (group g span contents).kind = g.kind from rfl, hg] at hhidden
    cases hhidden
  label _ _ := hlabel
  lang hcode := by
    cases g <;> cases hcode

/-- A group that is shown and is not called by anything fits into an outline. -/
theorem fitsOutline_group_of_label?_eq_none {g : Group} (hdocument : (g.kind == .document) = false)
    (hg : g.kind.isHidden = false) (hlabel : g.label? = none) (span : Option Span)
    (contents : List Node) : FitsOutline (.group g span contents) :=
  fitsOutline_group hdocument hg (by simp [hlabel]) span contents

/-- A rule is called by the name that its head gives it. -/
theorem fitsOutline_rule {r : Rule} {head : Option Node}
    (hname : ∀ name, r.name? head = some name → '\n' ∉ name.toList) (span : Option Span)
    (body : List Node) : FitsOutline (.rule r span head body) where
  not_document := by cases r <;> simp [kind, Rule.kind]
  hides hhidden := by cases r <;> cases hhidden
  label _ _ := by
    intro label hlabel
    change r.label? head = some label at hlabel
    unfold Rule.label? at hlabel
    split at hlabel
    · obtain ⟨name, hsome, rfl⟩ := Option.map_eq_some_iff.1 hlabel
      simp [hname name hsome]
    · exact hname label hlabel
  lang hcode := by
    cases r <;> cases hcode

/-- Markup is hidden. -/
theorem isHidden_of_isMarkup {k : Kind} (h : k.isMarkup = true) : k.isHidden = true := by
  cases k <;> first | rfl | cases h

/-- Inline text fits into an outline. -/
theorem everywhere_fitsOutline_of_isMarkup {ns : List Node}
    (h : Everywhere (fun n => n.kind.isMarkup = true) ns) : Everywhere FitsOutline ns := by
  intro n hn
  have hhidden := isHidden_of_isMarkup (h n hn)
  have hbelow : ∀ m ∈ n.children, m.kind.isHidden = true :=
    fun m hm => isHidden_of_isMarkup (h.children n hn m hm)
  cases n with
  | leaf l span => exact fitsOutline_leaf hhidden span
  | group g span contents => exact fitsOutline_group_of_isHidden hhidden span hbelow
  | rule r span head body => cases r <;> cases hhidden

end Node

namespace Markup

/-- The nodes of a text are markup. -/
theorem everywhere_isMarkup_inlines (s : List Char) :
    Everywhere (fun n => n.kind.isMarkup = true) (inlines s) :=
  (isTidy_inlines s).nodes.mono fun _ => TidyNode.isMarkup

/-- The nodes of a text fit into an outline. -/
theorem everywhere_fitsOutline_inlines (s : List Char) : Everywhere FitsOutline (inlines s) :=
  everywhere_fitsOutline_of_isMarkup (everywhere_isMarkup_inlines s)

/-- A defined term is called by what a reader sees of it, which is on the line of the text. -/
theorem everywhere_fitsOutline_markTerm {ns : List Node}
    (h : Everywhere (fun n => n.kind.isMarkup = true) ns) (hns : '\n' ∉ writtenAll ns) :
    Everywhere FitsOutline (markTerm ns) := by
  fun_induction markTerm ns with
  | case1 => exact everywhere_nil
  | case2 span contents r =>
      obtain ⟨-, hcontents, hr⟩ := everywhere_group.1 h
      rw [writtenAll, List.mem_append, not_or, written] at hns
      have hname : '\n' ∉ (plainText contents).toList := by
        intro hmem
        apply hns.1
        simp [mem_writtenAll_of_mem_plainText hcontents hmem]
      refine everywhere_group.2 ⟨fitsOutline_group rfl rfl ?_ _ _, ?_, ?_⟩
      · rintro label hlabel
        cases hlabel
        exact hname
      · exact everywhere_fitsOutline_of_isMarkup hcontents
      · exact everywhere_fitsOutline_of_isMarkup hr
  | case3 n r hn ih =>
      obtain ⟨hn, hbelow, hr⟩ := everywhere_cons.1 h
      rw [writtenAll, List.mem_append, not_or] at hns
      have hfits := everywhere_fitsOutline_of_isMarkup (everywhere_singleton.2 ⟨hn, hbelow⟩)
      obtain ⟨hn, hbelow⟩ := everywhere_singleton.1 hfits
      exact everywhere_cons.2 ⟨hn, hbelow, ih hr hns.2⟩

/-- An inline group that is shown and not called by anything fits into an outline. -/
theorem everywhere_fitsOutline_inlineGroup {g : Group} (hdocument : (g.kind == .document) = false)
    (hg : g.kind.isHidden = false) (hlabel : g.label? = none) (span : Option Span)
    (text : List Char) : Everywhere FitsOutline [inlineGroup g span text] :=
  everywhere_group.2 ⟨fitsOutline_group_of_label?_eq_none hdocument hg hlabel _ _,
    everywhere_fitsOutline_inlines text, everywhere_nil⟩

/-- The steps of an algorithm fit into an outline. -/
theorem everywhere_fitsOutline_steps (file : Option String) (n : ℕ) (ls : List (List Char)) :
    Everywhere FitsOutline (steps file n ls) := by
  induction ls generalizing n with
  | nil => exact everywhere_nil
  | cons l ls ih =>
      have hstep := everywhere_fitsOutline_inlineGroup (g := .listItem) rfl rfl rfl
        (some (linesSpan file n l [])) (((listItem? l).map (·.2)).getD [])
      exact everywhere_append.2 ⟨hstep, ih (n + 1)⟩

/-- A row of symbols is hidden, and so are the symbols. -/
theorem everywhere_fitsOutline_row {symbols : List Node}
    (h : ∀ n ∈ symbols, ∃ l, n = .leaf l none ∧ l.kind.isHidden = true) :
    Everywhere FitsOutline [.group .rhs none symbols] := by
  refine everywhere_group.2 ⟨fitsOutline_group_of_isHidden rfl none ?_, ?_, everywhere_nil⟩
  · intro n hn
    obtain ⟨l, rfl, hl⟩ := h n hn
    exact hl
  · refine everywhere_iff_forall_singleton.2 fun n hn => ?_
    obtain ⟨l, rfl, hl⟩ := h n hn
    exact everywhere_leaf.2 ⟨fitsOutline_leaf hl none, everywhere_nil⟩

/-- A right-hand side fits into an outline. -/
theorem everywhere_fitsOutline_rightHandSide (text : List Char) :
    Everywhere FitsOutline [rightHandSide text] := by
  refine everywhere_fitsOutline_row fun n hn => ?_
  obtain ⟨token, -, rfl⟩ := List.mem_map.1 hn
  unfold symbol
  split <;> exact ⟨_, rfl, rfl⟩

/-- A row of terminals fits into an outline. -/
theorem everywhere_fitsOutline_terminalRow (line : List Char) :
    Everywhere FitsOutline [terminalRow line] := by
  refine everywhere_fitsOutline_row fun n hn => ?_
  obtain ⟨token, -, rfl⟩ := List.mem_map.1 hn
  exact ⟨_, rfl, rfl⟩

/-- The right-hand sides of a production fit into an outline. -/
theorem everywhere_fitsOutline_productionBody (text : List Char) (tail : List (List Char)) :
    Everywhere FitsOutline ((if text.isEmpty then [] else [rightHandSide text]) ++
      tail.map fun l => rightHandSide ((alternative? l).getD [])) := by
  refine everywhere_append.2 ⟨?_, everywhere_iff_forall_singleton.2 fun n hn => ?_⟩
  · split
    · exact everywhere_nil
    · exact everywhere_fitsOutline_rightHandSide text
  · obtain ⟨row, -, rfl⟩ := List.mem_map.1 hn
    exact everywhere_fitsOutline_rightHandSide _

/-- A rule fits into an outline if its head is a hidden leaf that gives it a name. -/
theorem everywhere_fitsOutline_rule {r : Rule} {l : Leaf} (hl : l.kind.isHidden = true)
    (hname : ∀ name, r.name? (some (.leaf l none)) = some name → '\n' ∉ name.toList)
    (span : Option Span) {body : List Node} (hbody : Everywhere FitsOutline body) :
    Everywhere FitsOutline [.rule r span (some (.leaf l none)) body] := by
  refine everywhere_rule.2 ⟨fitsOutline_rule hname span body, ?_, hbody, everywhere_nil⟩
  exact everywhere_leaf.2 ⟨fitsOutline_leaf hl none, everywhere_nil⟩

/-! ## Blocks -/

/-- Every block fits into an outline. -/
theorem everywhere_fitsOutline_block {file : Option String} {n : ℕ} {line : List Char}
    {tail : List (List Char)} {node : Node} (hline : '\n' ∉ line) (htail : ∀ l ∈ tail, '\n' ∉ l)
    (h : blockContent file n line tail = .block node) : Everywhere FitsOutline [node] := by
  unfold blockContent at h
  -- The forms of a line in the order in which they are tried. A heading is no node.
  split at h
  · cases h
  -- Code, of which only the language is shown.
  split at h
  · split at h
    · cases h
    · cases h
      refine everywhere_leaf.2 ⟨⟨nofun, nofun, ?_, ?_⟩, everywhere_nil⟩
      · exact fun _ _ lang hlang => newline_notMem_of_isWord (isWord_lang_ofText _ lang hlang)
      · exact fun _ lang hlang => isWord_lang_ofText _ lang hlang
  -- A subsection is no node yet.
  split at h
  · cases h
  -- Rules: algorithms, and productions of both kinds.
  split at h
  · next name args halgorithm =>
    cases h
    refine everywhere_fitsOutline_rule rfl ?_ _ (everywhere_fitsOutline_steps file _ tail)
    rintro _ ⟨⟩
    rw [String.toList_ofList]
    exact fun hmem => hline (algorithm?_subset halgorithm hmem)
  split at h
  · next name colons text hproduction =>
    have hname : '\n' ∉ (String.ofList name).toList := by
      rw [String.toList_ofList]
      exact fun hmem => hline (production?_subset hproduction hmem)
    split at h
    · cases h
      refine everywhere_fitsOutline_rule rfl ?_ _ (everywhere_iff_forall_singleton.2 fun n hn => ?_)
      · rintro _ ⟨⟩
        exact hname
      · obtain ⟨row, -, rfl⟩ := List.mem_map.1 hn
        exact everywhere_fitsOutline_terminalRow row
    · cases h
      refine everywhere_fitsOutline_rule rfl ?_ _ (everywhere_fitsOutline_productionBody text tail)
      rintro _ ⟨⟩
      exact hname
  -- Lists.
  split at h
  · cases h
    refine everywhere_group.2 ⟨fitsOutline_group_of_label?_eq_none rfl rfl rfl _ _, ?_, everywhere_nil⟩
    refine everywhere_iff_forall_singleton.2 fun n hn => ?_
    obtain ⟨e, -, rfl⟩ := List.mem_map.1 hn
    exact everywhere_fitsOutline_inlineGroup rfl rfl rfl _ _
  -- A definition, whose term is called by a part of its line.
  split at h
  · next text hdefinition =>
    cases h
    refine everywhere_group.2 ⟨fitsOutline_group_of_label?_eq_none rfl rfl rfl _ _, ?_, everywhere_nil⟩
    refine everywhere_fitsOutline_markTerm (everywhere_isMarkup_inlines _) ?_
    rw [inlines_written]
    exact newline_notMem_flowText (fun hmem => hline (definition?_subset hdefinition hmem)) htail
  -- Remarks and paragraphs.
  split at h
  · cases h
    refine everywhere_group.2 ⟨fitsOutline_group_of_label?_eq_none rfl rfl rfl _ _, ?_, everywhere_nil⟩
    exact everywhere_fitsOutline_inlineGroup rfl rfl rfl _ _
  · cases h
    refine everywhere_group.2 ⟨fitsOutline_group_of_label?_eq_none rfl rfl rfl _ _, ?_, everywhere_nil⟩
    exact everywhere_fitsOutline_inlineGroup rfl rfl rfl _ _
  · cases h
    exact everywhere_fitsOutline_inlineGroup rfl rfl rfl _ _

/-- What headings become fits into an outline if their titles are on one line. -/
theorem fitsOutline_atHeadings : AtHeadings FitsOutline fun title => '\n' ∉ title.toList where
  importLink path span := by
    refine ⟨nofun, nofun, ?_, nofun⟩
    intro _ himport
    cases himport
  subsection htitle span contents := by
    refine fitsOutline_group rfl rfl ?_ span contents
    rintro _ ⟨⟩
    exact htitle
  numberedSection htitle override span contents := by
    refine fitsOutline_group rfl rfl ?_ span contents
    rintro _ ⟨⟩
    exact htitle

/-- The blocks of lines are like that. -/
theorem Item.satisfies_fitsOutline {file : Option String} {n : ℕ} {ls : List (List Char)}
    (hls : ∀ l ∈ ls, '\n' ∉ l) {item : Item} (hitem : item ∈ items file n ls) :
    item.Satisfies FitsOutline fun title => '\n' ∉ title.toList := by
  obtain ⟨before, line, rest, rfl, -, rfl⟩ := exists_of_mem_items hitem
  obtain ⟨hline, hrest⟩ : '\n' ∉ line ∧ ∀ l ∈ rest, '\n' ∉ l :=
    List.forall_mem_cons.1 fun l hl => hls l (List.mem_append_right _ hl)
  have htail : ∀ l ∈ blockTail line rest, '\n' ∉ l :=
    fun l hl => hrest l ((blockTail_isPrefix line rest).subset hl)
  unfold Item.Satisfies
  split
  · next node hnode => exact everywhere_fitsOutline_block hline htail hnode
  · next title htitle =>
    obtain ⟨text, hsubsection, rfl⟩ := subsection?_of_blockContent _ _ htitle
    intro hmem
    rw [String.toList_ofList] at hmem
    exact hline (subsection?_subset hsubsection hmem)
  · next level text hheading =>
    have hsubset := heading?_subset (heading?_of_blockContent _ _ hheading)
    exact fun hmem => hline (hsubset (headingTitle_subset text hmem))
  · trivial

end Markup

/-- A document that was read fits into an outline. -/
theorem Document.everywhere_fitsOutline_of_parse {start : Start} {file : Option String}
    {source : String} {d : Document} (h : Document.parse start file source = .ok d) :
    Everywhere FitsOutline d.contents :=
  Document.everywhere_of_parse fitsOutline_atHeadings
    (fun _ _ hls _ hitem => Item.satisfies_fitsOutline hls hitem) h

/-- The title of a document is on one line. -/
theorem Document.newline_notMem_title_of_parse {start : Start} {file : Option String}
    {source : String} {d : Document} (h : Document.parse start file source = .ok d) :
    ∀ title, d.title = some title → '\n' ∉ title.toList := by
  obtain ⟨n, rest, htitled, -⟩ := Document.exists_of_parse h
  generalize d.title = title at htitled
  cases htitled with
  | imported => simp
  | initial htitle =>
      obtain ⟨before, line, hlines, -, -, hline, -⟩ := exists_of_titleLine htitle
      rintro _ ⟨⟩ hmem
      rw [String.toList_ofList] at hmem
      have hmemLines : line ∈ Text.lines source.toList := by simp [hlines]
      exact Text.ne_newline_of_mem_lines hmemLines (heading?_subset hline hmem) rfl

end SpecDoc
