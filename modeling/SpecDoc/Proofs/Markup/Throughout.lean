import SpecDoc.Proofs.Markup.Nesting
import SpecDoc.Proofs.Markup.Parts

/-!
# What is true all through a document

A document is made of the nodes of its blocks, and of the sections, subsections and imports that its headings
become. So a property of nodes is true everywhere in a document if it is true everywhere in its blocks, and
of what headings become, whatever stands below them.

* `AtTitles` and `AtHeadings`: what is asked of headings, and `Item.Satisfies`: what is asked of a block;
* `Nesting.Satisfies.placed` and `Nesting.Satisfies.placedAll`: blocks that are taken in keep the property;
* `Document.everywhere_of_parse`: it is true everywhere in a document, and `Document.everywhere_of_lines`:
  also if it depends on the lines that the nodes were read from.
-/

namespace SpecDoc

open Node

namespace Markup

/-- Whether a property is true of sections and subsections, whatever stands below them, as long as their
titles are as `T` says. -/
structure AtTitles (P : Node → Prop) (T : String → Prop) : Prop where
  subsection : ∀ {title : String}, T title → ∀ span contents,
    P (.group (.subsection ⟨title, [], none⟩) span contents)
  numberedSection : ∀ {title : String}, T title → ∀ override span contents,
    P (.group (.numberedSection ⟨title, override, [], none, none⟩) span contents)

/-- Whether a property is one of all nodes that headings become, imports among them. -/
structure AtHeadings (P : Node → Prop) (T : String → Prop) : Prop extends AtTitles P T where
  importLink : ∀ path span, P (.leaf (.importLink path) span)

/-- The title in the text of a heading: what is behind the numbering token, if there is one. -/
def headingTitle (text : List Char) : String :=
  String.ofList (((numberingToken? text).map Prod.snd).getD text)

/-- Whether all nodes of a block have a property, or its title is as `T` says. -/
def Item.Satisfies (P : Node → Prop) (T : String → Prop) (item : Item) : Prop :=
  match item.content with
  | .block node => Everywhere P [node]
  | .subsection title => T title
  | .heading _ text => T (headingTitle text)
  | .openFence => True

/-- Whether the import that a block becomes has a property, if it is a heading that becomes one. -/
def Item.LinkSatisfies (P : Node → Prop) (item : Item) : Prop :=
  ∀ level text path, item.content = .heading level text → importPath? text = some path →
    P (.leaf (.importLink (String.ofList path)) (some item.span))

/-! ## Layers -/

/-- Whether all nodes of a layer have a property. -/
structure Layer.Satisfies (P : Node → Prop) (T : String → Prop) (l : Layer) : Prop where
  contents : Everywhere P l.contents
  subsection : ∀ s, l.subsection = some s → T s.title ∧ Everywhere P s.contents

variable {P : Node → Prop} {T : String → Prop}

namespace Layer

variable {l : Layer}

/-- There is nothing in an empty layer. -/
theorem satisfies_empty : Layer.empty.Satisfies P T where
  contents := everywhere_nil
  subsection _ h := by cases h

/-- A layer keeps a property of its nodes when its subsection is closed. -/
theorem Satisfies.closeSubsection (h : l.Satisfies P T) (hP : AtTitles P T) :
    l.closeSubsection.Satisfies P T := by
  unfold Layer.closeSubsection
  split
  · exact h
  · next s hs =>
    obtain ⟨htitle, hcontents⟩ := h.subsection s hs
    constructor
    · refine everywhere_append.2 ⟨h.contents, ?_⟩
      exact everywhere_group.2 ⟨hP.subsection htitle _ _, hcontents, everywhere_nil⟩
    · simp

/-- A layer keeps a property of its nodes when a node with this property is added. -/
theorem Satisfies.add (h : l.Satisfies P T) {n : Node} (hn : Everywhere P [n]) :
    (l.add n).Satisfies P T := by
  unfold Layer.add
  split
  · constructor
    · exact everywhere_append.2 ⟨h.contents, hn⟩
    · simp
  · next s hs =>
    obtain ⟨htitle, hcontents⟩ := h.subsection s hs
    constructor
    · exact h.contents
    · rintro t ht
      cases ht
      exact ⟨htitle, everywhere_append.2 ⟨hcontents, hn⟩⟩

/-- A layer keeps a property of its nodes when a subsection is opened. -/
theorem Satisfies.openSubsection (h : l.Satisfies P T) (hP : AtTitles P T) {title : String}
    (htitle : T title) (span : Span) : (l.openSubsection title span).Satisfies P T where
  contents := (h.closeSubsection hP).contents
  subsection s hs := by
    cases hs
    exact ⟨htitle, everywhere_nil⟩

end Layer

/-! ## Nestings -/

/-- Whether all nodes of a nesting have a property. -/
structure Nesting.Satisfies (P : Node → Prop) (T : String → Prop) (s : Nesting) : Prop where
  sections : ∀ o ∈ s.sections, T o.title ∧ o.layer.Satisfies P T
  root : s.root.Satisfies P T

namespace Nesting

variable {s : Nesting}

/-- There is nothing before the first block. -/
theorem satisfies_empty : Nesting.empty.Satisfies P T where
  sections _ h := by cases h
  root := Layer.satisfies_empty

/-- A change to the innermost layer. -/
theorem Satisfies.mapLayer (h : s.Satisfies P T) {f : Layer → Layer}
    (hf : ∀ l : Layer, l.Satisfies P T → (f l).Satisfies P T) : (s.mapLayer f).Satisfies P T := by
  obtain ⟨hsections, hroot⟩ := h
  unfold Nesting.mapLayer
  split
  · exact ⟨hsections, hf _ hroot⟩
  · next o os hs =>
    rw [hs, List.forall_mem_cons] at hsections
    obtain ⟨⟨htitle, hlayer⟩, hos⟩ := hsections
    exact ⟨List.forall_mem_cons.2 ⟨⟨htitle, hf _ hlayer⟩, hos⟩, hroot⟩

/-- The node of a section that is closed has a property of its contents. -/
theorem everywhere_node (hP : AtTitles P T) {o : OpenSection}
    (h : T o.title ∧ o.layer.Satisfies P T) : Everywhere P [o.node] :=
  everywhere_group.2
    ⟨hP.numberedSection h.1 _ _ _, (h.2.closeSubsection hP).contents, everywhere_nil⟩

/-- Open sections keep a property of their nodes when some of them are closed. -/
theorem satisfies_closeFrom (hP : AtTitles P T) {level : ℕ} {root : Layer} {os : List OpenSection}
    (hos : ∀ o ∈ os, T o.title ∧ o.layer.Satisfies P T) (hroot : root.Satisfies P T) :
    (closeFrom level root os).Satisfies P T := by
  fun_induction closeFrom level root os with
  | case1 => exact ⟨hos, hroot⟩
  | case2 o os hlevel => exact ⟨hos, hroot⟩
  | case3 o hlevel =>
      exact ⟨by simp, hroot.add (everywhere_node hP (hos o List.mem_cons_self))⟩
  | case4 o p ps hlevel ih =>
      simp only [List.forall_mem_cons] at hos
      obtain ⟨ho, ⟨htitle, hlayer⟩, hps⟩ := hos
      exact ih (List.forall_mem_cons.2 ⟨⟨htitle, hlayer.add (everywhere_node hP ho)⟩, hps⟩)

/-- Open sections keep a property of their nodes when those of a level are closed. -/
theorem Satisfies.closed (h : s.Satisfies P T) (hP : AtTitles P T) (level : ℕ) :
    (s.closed level).Satisfies P T := by
  have hclosed := h.mapLayer fun l hl => hl.closeSubsection hP
  exact satisfies_closeFrom hP hclosed.sections hclosed.root

/-- Open sections keep a property of their nodes when a heading is added. -/
theorem Satisfies.addHeading (h : s.Satisfies P T) (level : ℕ) {text : List Char}
    (htitle : T (headingTitle text)) {span : Span}
    (hlink : ∀ path, importPath? text = some path →
      P (.leaf (.importLink (String.ofList path)) (some span))) :
    (s.addHeading level text span).Satisfies P T := by
  unfold Nesting.addHeading
  split
  · next path hpath =>
    refine h.mapLayer fun l hl => hl.add ?_
    exact everywhere_leaf.2 ⟨hlink path hpath, everywhere_nil⟩
  · refine ⟨List.forall_mem_cons.2 ⟨⟨?_, Layer.satisfies_empty⟩, h.sections⟩, h.root⟩
    unfold headingTitle at htitle
    cases htoken : numberingToken? text <;> rw [htoken] at htitle <;> exact htitle

/-- Open sections keep a property of their nodes when one more block is taken in. -/
theorem Satisfies.placed {start : Start} {item : Item} {s' : Nesting} (h : s.Satisfies P T)
    (hP : AtTitles P T) (hitem : item.Satisfies P T) (hlink : item.LinkSatisfies P)
    (hplaced : Placed start s item s') : s'.Satisfies P T := by
  unfold Item.Satisfies at hitem
  cases hplaced with
  | block hcontent =>
      rw [hcontent] at hitem
      exact h.mapLayer fun l hl => hl.add hitem
  | subsection hcontent =>
      rw [hcontent] at hitem
      exact h.mapLayer fun l hl => hl.openSubsection hP hitem _
  | heading hcontent _ =>
      rw [hcontent] at hitem
      exact (h.closed hP _).addHeading _ hitem fun path => hlink _ _ path hcontent

/-- Open sections keep a property of their nodes when several more blocks are taken in. -/
theorem Satisfies.placedAll {start : Start} {is : List Item} {s' : Nesting} (h : s.Satisfies P T)
    (hP : AtTitles P T) (his : ∀ item ∈ is, item.Satisfies P T ∧ item.LinkSatisfies P)
    (hplaced : PlacedAll start s is s') : s'.Satisfies P T :=
  hplaced.keeps
    (fun item hitem _ _ hplaced h => h.placed hP (his item hitem).1 (his item hitem).2 hplaced) h

/-- The finished tree has the property of the nodes of the open sections. -/
theorem Satisfies.finish (h : s.Satisfies P T) (hP : AtTitles P T) : Everywhere P s.finish :=
  (h.closed hP 0).root.contents

end Nesting

end Markup

open Markup

/-- What is true everywhere in the blocks of the lines of a source, and of what headings become, is true
everywhere in the document that is read from it. -/
theorem Document.everywhere_of_lines {P : Node → Prop} {T : String → Prop} {start : Start}
    {file : Option String} {source : String} {d : Document} (hP : AtTitles P T)
    (hitems : ∀ before rest, Text.lines source.toList = before ++ rest →
      ∀ item ∈ items file (before.length + 1) rest, item.Satisfies P T ∧ item.LinkSatisfies P)
    (h : Document.parse start file source = .ok d) : Everywhere P d.contents := by
  obtain ⟨n, rest, htitled, hnested, -⟩ := Document.exists_of_parse h
  obtain ⟨s, hplaced, hfinish⟩ := Nesting.ofItems_eq_ok_iff.1 hnested
  obtain ⟨before, hlines, rfl⟩ := htitled.exists_append
  rw [← hfinish]
  exact (Nesting.satisfies_empty.placedAll hP (hitems before rest hlines) hplaced).finish hP

/-- What is true everywhere in the blocks of any lines, and of what headings become, is true everywhere in a
document. -/
theorem Document.everywhere_of_parse {P : Node → Prop} {T : String → Prop} {start : Start}
    {file : Option String} {source : String} {d : Document} (hP : AtHeadings P T)
    (hitems : ∀ n ls, (∀ l ∈ ls, '\n' ∉ l) → ∀ item ∈ items file n ls, item.Satisfies P T)
    (h : Document.parse start file source = .ok d) : Everywhere P d.contents := by
  refine Document.everywhere_of_lines hP.toAtTitles (fun before rest hlines item hitem => ?_) h
  have hrest : ∀ l ∈ rest, '\n' ∉ l := by
    intro l hl hnewline
    have hmem : l ∈ Text.lines source.toList := by
      rw [hlines]
      exact List.mem_append_right before hl
    exact Text.ne_newline_of_mem_lines hmem hnewline rfl
  exact ⟨hitems _ rest hrest item hitem, fun _ _ _ _ _ => hP.importLink _ _⟩

end SpecDoc
