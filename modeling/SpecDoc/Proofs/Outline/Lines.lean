import SpecDoc.Proofs.Outline.Compiled

/-!
# The lines of an outline

An outline has a line for the document and one for each place whose node is shown. The lines follow the order
of the places, each is indented by the depth of its place, and it ends with the id of its node, if there is one.

* `Node.toList_outlineAll`: the text of an outline, place by place;
* `Document.cut_outline`: its lines;
* `Place.isShownBy_line`: what is on the line of a place;
* `isOutlinedBy_of_compile`: the outline of a document that was compiled.
-/

namespace SpecDoc

open Node Text

/-! ## The text -/

namespace Node

/-- What is on the line of a node inside `level` others. -/
def lineText (level : ℕ) (n : Node) : List Char :=
  List.replicate (2 * level) ' ' ++ n.kind.name.toList ++ ((behind " " n.outlineNumber? "").toList ++
    (behind " \"" n.label? "\"").toList ++ (behind " #" n.id? "").toList)

/-- A line feed ends the line. -/
theorem toList_outlineLine (level : ℕ) (n : Node) :
    (outlineLine level n).toList = lineText level n ++ ['\n'] := by
  simp [outlineLine, lineText]

end Node

namespace Place

/-- Whether the node at a place is shown. -/
def isShown (p : Place) : Bool := !p.node.kind.isHidden

/-- What is on the line of a place. The document is around it, too. -/
def line (p : Place) : List Char := lineText (p.around.length + 1) p.node

end Place

/-- The places of a document that are shown. -/
def Document.shownPlaces (d : Document) : List Place := d.places.filter Place.isShown

namespace Node

/-- If nodes are hidden, so is all that is below them. -/
theorem everywhere_isHidden {ns : List Node}
    (h : Everywhere (fun n => n.kind.isHidden = true → ∀ m ∈ n.children, m.kind.isHidden = true) ns)
    (hns : ∀ n ∈ ns, n.kind.isHidden = true) : Everywhere (fun n => n.kind.isHidden = true) ns := by
  induction ns using forestInduction with
  | nil => exact everywhere_nil
  | leaf l span ns ih =>
      obtain ⟨-, hbehind⟩ := everywhere_leaf.1 h
      obtain ⟨hl, hns⟩ := List.forall_mem_cons.1 hns
      exact everywhere_leaf.2 ⟨hl, ih hbehind hns⟩
  | group g span contents ns ihcontents ihns =>
      obtain ⟨hhides, hcontents, hbehind⟩ := everywhere_group.1 h
      obtain ⟨hg, hns⟩ := List.forall_mem_cons.1 hns
      exact everywhere_group.2 ⟨hg, ihcontents hcontents (hhides hg), ihns hbehind hns⟩
  | rule r span head body ns _ _ _ =>
      obtain ⟨hr, -⟩ := List.forall_mem_cons.1 hns
      cases r <;> cases hr

/-- No place in hidden nodes is shown. -/
theorem filter_isShown_placesIn {ns : List Node}
    (h : Everywhere (fun n => n.kind.isHidden = true → ∀ m ∈ n.children, m.kind.isHidden = true) ns)
    (hns : ∀ n ∈ ns, n.kind.isHidden = true) (around : List Node) :
    (placesIn around ns).filter Place.isShown = [] := by
  rw [List.filter_eq_nil_iff]
  intro p hp
  have hnode : p.node ∈ preorder ns := (mem_preorder_iff around).2 ⟨p, hp, rfl⟩
  rw [Place.isShown, everywhere_isHidden h hns p.node hnode]
  decide

/-- **The text of an outline.** It has a line for each place that is shown, in their order. -/
theorem toList_outlineAll {ns : List Node}
    (h : Everywhere (fun n => n.kind.isHidden = true → ∀ m ∈ n.children, m.kind.isHidden = true) ns)
    (around : List Node) :
    (outlineAll (around.length + 1) ns).toList
      = ((placesIn around ns).filter Place.isShown).flatMap fun p => p.line ++ ['\n'] := by
  induction ns using forestInduction generalizing around with
  | nil => rfl
  | leaf l span ns ih =>
      obtain ⟨-, hns⟩ := everywhere_leaf.1 h
      rw [outlineAll, outlineAt, placesIn, placesBelow, List.nil_append, List.filter_cons,
        String.toList_append, ih hns]
      cases hhidden : l.kind.isHidden with
      | true => simp [Place.isShown, kind, hhidden]
      | false => simp [Place.isShown, kind, hhidden, toList_outlineLine, Place.line]
  | group g span contents ns ihcontents ihns =>
      obtain ⟨hhides, hcontents, hns⟩ := everywhere_group.1 h
      rw [outlineAll, outlineAt, placesIn, placesBelow, List.filter_cons, List.filter_append,
        String.toList_append, ihns hns]
      cases hhidden : g.kind.isHidden with
      | true =>
          rw [filter_isShown_placesIn hcontents (hhides hhidden)]
          simp [Place.isShown, kind, hhidden]
      | false =>
          have hbelow := ihcontents hcontents (.group g span contents :: around)
          rw [List.length_cons] at hbelow
          simp [Place.isShown, kind, hhidden, toList_outlineLine, Place.line, hbelow]
  | rule r span head body ns ihhead ihbody ihns =>
      obtain ⟨-, hhead, hbody, hns⟩ := everywhere_rule.1 h
      have hshown : r.kind.isHidden = false := by cases r <;> rfl
      have hheadText : outlineHead (around.length + 1 + 1) head
          = outlineAll (around.length + 1 + 1) head.toList := by
        cases head <;> simp [outlineHead, outlineAll]
      have hinHead := ihhead hhead (.rule r span head body :: around)
      have hinBody := ihbody hbody (.rule r span head body :: around)
      rw [List.length_cons] at hinHead hinBody
      rw [outlineAll, outlineAt, placesIn, placesBelow, placesOfHead_eq, List.filter_cons,
        List.filter_append, List.filter_append, String.toList_append, ihns hns]
      simp [Place.isShown, kind, hshown, toList_outlineLine, Place.line, hheadText, hinHead, hinBody]

end Node

/-! ## What is on a line -/

/-- The name of a kind is a word of letters. -/
theorem Kind.isAlpha_name (k : Kind) : k.name.toList ≠ [] ∧ ∀ c ∈ k.name.toList, c.isAlpha = true := by
  rw [← List.all_eq_true]
  cases k <;> decide

namespace Node

/-- A text is shown behind its lead. -/
theorem mem_behind {lead close : String} {text? : Option String} {c : Char}
    (h : c ∈ (behind lead text? close).toList) :
    c ∈ lead.toList ∨ (∃ text, text? = some text ∧ c ∈ text.toList) ∨ c ∈ close.toList := by
  cases text? with
  | none => cases h
  | some text =>
      rw [behind, String.toList_append, String.toList_append, List.mem_append, List.mem_append] at h
      rcases h with (hlead | htext) | hclose
      · exact Or.inl hlead
      · exact Or.inr (Or.inl ⟨text, rfl, htext⟩)
      · exact Or.inr (Or.inr hclose)

/-- What is shown on one line stands on one line behind its lead. -/
theorem newline_notMem_behind {text? : Option String} (lead close : String)
    (hlead : '\n' ∉ lead.toList) (hclose : '\n' ∉ close.toList)
    (h : ∀ text, text? = some text → '\n' ∉ text.toList) :
    '\n' ∉ (behind lead text? close).toList := by
  intro hmem
  rcases mem_behind hmem with hmem | ⟨text, htext, hmem⟩ | hmem
  · exact hlead hmem
  · exact h text htext hmem
  · exact hclose hmem

/-- A line starts with spaces and letters. -/
theorem notMem_indented {c : Char} (hspace : c ≠ ' ') (hc : c.isAlpha = false) (level : ℕ)
    (k : Kind) : c ∉ List.replicate (2 * level) ' ' ++ k.name.toList := by
  rw [List.mem_append, not_or]
  constructor
  · exact mt List.eq_of_mem_replicate hspace
  · exact mt ((Kind.isAlpha_name k).2 c) (by simp [hc])

/-- A node that is shown has one line. -/
theorem IsShowable.newline_notMem_lineText {n : Node} (h : n.IsShowable)
    (hshown : n.kind.isHidden = false) (level : ℕ) : '\n' ∉ lineText level n := by
  have hindented := notMem_indented (c := '\n') (by decide) (by decide) level n.kind
  have hnumber := newline_notMem_behind " " "" (by decide) (by decide) h.number
  have hlabel := newline_notMem_behind " \"" "\"" (by decide) (by decide) (h.label hshown)
  have hid := newline_notMem_behind " #" "" (by decide) (by decide) h.id
  rw [lineText, List.mem_append, not_or]
  constructor
  · exact hindented
  · rw [List.mem_append, not_or, List.mem_append, not_or]
    exact ⟨⟨hnumber, hlabel⟩, hid⟩

end Node

/-- No number sign follows a space in a text that has no number sign at first and no space later. -/
theorem not_mark_infix_append {s t : List Char} (hs : '#' ∉ s) (hlast : s.getLast? ≠ some ' ')
    (ht : ' ' ∉ t) : ¬ [' ', '#'] <:+: s ++ t := by
  rintro ⟨before, behind, heq⟩
  have heq : s ++ t = (before ++ [' ']) ++ '#' :: behind := by
    rw [← heq]
    simp
  -- Either the space is in the second part or it ends the first, or the sign is in the first part.
  rcases List.append_eq_append_iff.1 heq with ⟨u, hu, rfl⟩ | ⟨u, rfl, hu⟩
  · rcases List.eq_nil_or_concat u with rfl | ⟨u, c, rfl⟩
    · rw [List.append_nil] at hu
      exact hlast (by rw [← hu, List.getLast?_concat])
    · rw [List.concat_eq_append, ← List.append_assoc] at hu
      obtain ⟨-, hc⟩ := List.append_inj' hu rfl
      cases hc
      exact ht (by simp)
  · cases u with
    | nil => exact hlast (by simp)
    | cons c u =>
        cases hu
        exact hs (by simp)

/-- There is no mark on the line of a node that has no id and no number and is called by a word at most. -/
theorem Node.not_mark_infix_lineText {n : Node} (hnumber : n.outlineNumber? = none)
    (hword : ∀ label, n.label? = some label → Markup.IsWord label.toList) (hid : n.id? = none)
    (level : ℕ) : ¬ [' ', '#'] <:+: lineText level n := by
  obtain ⟨hne, halpha⟩ := Kind.isAlpha_name n.kind
  have hline : lineText level n = List.replicate (2 * level) ' ' ++ n.kind.name.toList ++
      (behind " \"" n.label? "\"").toList := by
    simp [lineText, hnumber, hid, behind]
  have hsign := notMem_indented (c := '#') (by decide) (by decide) level n.kind
  rw [hline]
  cases hlabel : n.label? with
  | none =>
      refine not_mark_infix_append hsign ?_ (by simp [behind])
      rw [List.getLast?_append_of_ne_nil _ hne]
      intro hlast
      exact absurd (halpha ' ' (List.mem_of_getLast? hlast)) (by decide)
  | some label =>
      -- The quotation mark before the word keeps the word from the space.
      have hquoted : (behind " \"" (some label) "\"").toList
          = [' ', '"'] ++ (label.toList ++ ['"']) := by
        simp [behind]
      rw [hquoted, ← List.append_assoc]
      apply not_mark_infix_append
      · rw [List.mem_append, not_or]
        exact ⟨hsign, by decide⟩
      · simp
      · rw [List.mem_append, not_or]
        exact ⟨mt (hword label hlabel ' ') (by decide), by decide⟩

/-- What an outline shows of the node at a place. The line is indented by two spaces for each node around the
place and for the document, and then it gives the kind as a word. It ends with the id behind a mark if the
node has one, and otherwise there is no mark on it. -/
structure Place.IsShownBy (p : Place) (line : List Char) : Prop where
  indented : ∃ rest, line = List.replicate (2 * (p.around.length + 1)) ' ' ++
    p.node.kind.name.toList ++ rest ∧ ∀ c ∈ rest.head?, c = ' '
  marked : ∀ id, p.node.id? = some id → ' ' :: '#' :: id.toList <:+ line
  unmarked : p.node.id? = none → ¬ [' ', '#'] <:+: line

/-- The line of a place shows its node. -/
theorem Place.isShownBy_line {p : Place} (h : p.node.IsShowable) (hshown : p.isShown = true) :
    p.IsShownBy p.line where
  indented := by
    refine ⟨_, rfl, ?_⟩
    -- Whatever follows the kind first starts with a space.
    cases p.node.outlineNumber? <;> cases p.node.label? <;> cases p.node.id? <;> simp [behind]
  marked := by
    intro id hid
    have hmark : (behind " #" p.node.id? "").toList = ' ' :: '#' :: id.toList := by simp [behind, hid]
    rw [Place.line, lineText, hmark, ← List.append_assoc]
    exact List.suffix_append _ _
  unmarked := by
    intro hid
    rw [Place.isShown, Bool.not_eq_true'] at hshown
    obtain ⟨hnumber, hword⟩ := h.plain hshown hid
    exact not_mark_infix_lineText hnumber hword hid _

/-! ## Documents -/

namespace Document

/-- What is on the line of a document: its title in quotes. -/
def titleLine (d : Document) : String := "Document" ++ behind " \"" d.title "\""

/-- **The lines of an outline.** They are the line of the document and those of the places that are shown. -/
theorem cut_outline {d : Document} (h : d.IsShowable) :
    cut (· == '\n') d.outline.toList
      = d.titleLine.toList :: (d.shownPlaces.map Place.line ++ [[]]) := by
  have hhides := h.nodes.mono fun n hn => hn.hides
  have htext : d.outline.toList
      = (d.titleLine.toList :: d.shownPlaces.map Place.line).flatMap fun l => l ++ ['\n'] := by
    have hnodes := toList_outlineAll hhides []
    rw [List.length_nil] at hnodes
    simp [outline, titleLine, shownPlaces, places, hnodes, List.flatMap_map]
  have htitle : '\n' ∉ d.titleLine.toList := by
    rw [titleLine, String.toList_append, List.mem_append, not_or]
    exact ⟨by decide, newline_notMem_behind " \"" "\"" (by decide) (by decide) h.title⟩
  have hlines : ∀ l ∈ d.shownPlaces.map Place.line, '\n' ∉ l := by
    intro l hl
    obtain ⟨p, hp, rfl⟩ := List.mem_map.1 hl
    obtain ⟨hp, hshown⟩ := List.mem_filter.1 hp
    rw [Place.isShown, Bool.not_eq_true'] at hshown
    have hnode := h.node hp
    exact hnode.newline_notMem_lineText hshown _
  rw [htext, cut_flatMap_concat (List.forall_mem_cons.2 ⟨htitle, hlines⟩), List.cons_append]

/-- The line of a document ends with a quotation mark, so with no id that has none. -/
theorem not_marked_titleLine (d : Document) {id : List Char} (hid : '"' ∉ id) :
    ¬ ' ' :: '#' :: id <:+ d.titleLine.toList := by
  intro hsuffix
  cases htitle : d.title with
  | none =>
      have hspace : ' ' ∈ d.titleLine.toList := hsuffix.subset List.mem_cons_self
      rw [titleLine, htitle] at hspace
      revert hspace
      decide
  | some title =>
      have hquote : d.titleLine.toList = ("Document" ++ " \"" ++ title).toList ++ ['"'] := by
        simp [titleLine, htitle, behind]
      obtain ⟨s, hs⟩ := hsuffix
      have hlast := congrArg List.getLast? hs
      rw [hquote, List.getLast?_concat, List.getLast?_append_of_ne_nil _ (List.cons_ne_nil _ _)] at hlast
      have hmem := List.mem_of_getLast? hlast
      simp [hid] at hmem

/-- Whether the outline of a document is the line `title` for the document and the lines `lines` for the
places that are shown, one by one. There is nothing behind the last of them. -/
structure IsOutlinedBy (d : Document) (title : List Char) (lines : List (List Char)) : Prop where
  text : cut (· == '\n') d.outline.toList = title :: (lines ++ [[]])
  /-- The document has one line, and no other one is for a document. -/
  document : title = d.titleLine.toList ∧ ∀ p ∈ d.places, p.node.kind ≠ .document
  /-- The document has no id, and its line does not end like one with an id. -/
  unmarked : ∀ id : List Char, '"' ∉ id → ¬ ' ' :: '#' :: id <:+ title
  nodes : List.Forall₂ Place.IsShownBy d.shownPlaces lines
  /-- No id is left out. -/
  ids : ∀ n ∈ d.descendants, ∀ id, n.id? = some id → ∃ l ∈ lines, ' ' :: '#' :: id.toList <:+ l

end Document

/-- What is hidden has no id. -/
theorem Node.isHidden_eq_false_of_id? {n : Node} {id : String} (h : n.id? = some id) :
    n.kind.isHidden = false := by
  cases n with
  | leaf l span => cases l <;> first | rfl | cases h
  | group g span contents => cases g <;> first | rfl | cases h
  | rule r span head body => cases r <;> rfl

/-- A document that can be shown is outlined by its title and by the lines of the places that are shown. -/
theorem Document.IsShowable.isOutlinedBy {d : Document} (h : d.IsShowable) :
    d.IsOutlinedBy d.titleLine.toList (d.shownPlaces.map Place.line) := by
  have hnode : ∀ p ∈ d.places, p.node.IsShowable :=
    fun p hp => h.node hp
  have hplace : ∀ p ∈ d.shownPlaces, p.IsShownBy p.line := by
    intro p hp
    obtain ⟨hp, hshown⟩ := List.mem_filter.1 hp
    exact Place.isShownBy_line (hnode p hp) hshown
  constructor
  · exact Document.cut_outline h
  · exact ⟨rfl, fun p hp => (hnode p hp).not_document⟩
  · exact fun id hid => d.not_marked_titleLine hid
  · rw [List.forall₂_map_right_iff]
    exact List.forall₂_same.2 hplace
  · intro n hn id hid
    obtain ⟨p, hp, rfl⟩ := mem_descendants_iff.1 hn
    have hshown : p ∈ d.shownPlaces := by
      refine List.mem_filter.2 ⟨hp, ?_⟩
      rw [Place.isShown, Node.isHidden_eq_false_of_id? hid]
      rfl
    exact ⟨p.line, List.mem_map_of_mem hshown, (hplace p hshown).marked id hid⟩

/-- **Outlines of compiled documents.** In the outline of a document that comes out of a compilation, if the
prefix of ids is on one line, the document has a line and so has every node that is not hidden by its own
kind, in document order. The lines are indented by depth, and they show all ids and nothing that looks like
one. -/
theorem isOutlinedBy_of_compile {lib : Library} {o : CompileOptions} {entry : String} {a : Annotated}
    (hlead : '\n' ∉ o.annotate.anchors.sectionPrefix.toList)
    (h : (compile lib o entry).run = some (.ok a)) :
    ∃ title lines, a.document.IsOutlinedBy title lines :=
  ⟨_, _, (isShowable_of_compile hlead h).isOutlinedBy⟩

/-- A document of two files with nodes that are hidden, and with code that is no example and whose language
has a number sign. -/
def outlinedFiles : List (String × Except ReadFailure String) :=
  [("spec/index.md", .ok ("# Language\n\nA *language* with rules.\n\n# Scope\n\nNote: Short.\n\n" ++
      "# [Rest](./rest.md)\n")),
    ("spec/rest.md", .ok ("# Syntax\n\nName :: one of\n  a b c\n\n**Terms**\n\n" ++
      ":: A *value* is something.\n\nExecute(value):\n- Return {value}.\n\n" ++
      "\x60\x60\x60js example\na\n\x60\x60\x60\n\n\x60\x60\x60c#\nb\n\x60\x60\x60\n"))]

/-- The outline of this document. -/
def outlinedText : String :=
  "Document \"Language\"\n" ++
  "  Paragraph\n" ++
  "  Section 1 \"Scope\" #sec-Scope\n" ++
  "    Note #note-c9145\n" ++
  "      Paragraph\n" ++
  "  Section 2 \"Syntax\" #sec-Syntax\n" ++
  "    OneOfProduction \"Name\" #Name\n" ++
  "    Subsection \"Terms\" #sec-Syntax.Terms\n" ++
  "      DefinitionParagraph\n" ++
  "        DefinitionTerm \"value\" #def-value\n" ++
  "      Algorithm \"Execute()\" #Execute()\n" ++
  "        ListItem\n" ++
  "      Code 1 \"js\" #example-ca978\n" ++
  "      Code \"c#\"\n"

/-- The document is compiled, and its outline has a line for each node that is not hidden. -/
theorem isOutlinedBy_outlinedFiles :
    '\n' ∉ CompileOptions.standard.annotate.anchors.sectionPrefix.toList ∧
    ∃ a, (compile (Library.ofFiles outlinedFiles) .standard "spec/index.md").run = some (.ok a) ∧
      a.document.outline = outlinedText ∧ ∃ title lines, a.document.IsOutlinedBy title lines := by
  have hlead : '\n' ∉ CompileOptions.standard.annotate.anchors.sectionPrefix.toList := by decide
  have hsucceeds : (compile (Library.ofFiles outlinedFiles) .standard "spec/index.md").run.map
      (fun r => r.toOption.map fun a => a.document.outline) = some (some outlinedText) := by
    decide +kernel
  obtain ⟨r, hrun, hr⟩ := Option.map_eq_some_iff.1 hsucceeds
  cases r with
  | error e => cases hr
  | ok a => exact ⟨hlead, a, hrun, Option.some.inj hr, isOutlinedBy_of_compile hlead hrun⟩

end SpecDoc
