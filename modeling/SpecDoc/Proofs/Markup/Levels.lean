import SpecDoc.Proofs.Markup.Pieces
import SpecDoc.Proofs.Place
import SpecDoc.Proofs.Text.Lines

/-!
# Levels of headings

A heading of a level stands in the section whose heading has one number sign less, if it stands in any.
`Markup.Levelled` says so of a finished tree. A nesting has the tree in parts, one for each open section,
and every block keeps the parts as they should be.

* `Markup.Nesting.Levelled.placed`: what one more block keeps;
* `Document.levelled_of_parse`: the contents of a document are levelled;
* `Document.followsHeadings`: the places of sections, subsections and imports in a document.
-/

namespace SpecDoc

open Markup Node Text

/-! ## Headings -/

namespace Markup

/-- Whether a span is that of a line, among the lines of a file, that is a heading of a level. -/
def HeadingAt (file : Option String) (ls : List (List Char)) (level : ℕ) (span : Span) : Prop :=
  ∃ k line, span = linesSpan file (k + 1) line [] ∧ ls[k]? = some line ∧ IsHeadingLine level line

end Markup

/-- Whether a node was read from a line that is a heading of a level. -/
def Node.HeadedAt (file : Option String) (ls : List (List Char)) (level : ℕ) (n : Node) : Prop :=
  ∃ span, n.span? = some span ∧ HeadingAt file ls level span

/-! ## Levelled trees -/

namespace Markup

variable {file : Option String} {ls : List (List Char)}

/-- No heading is among the nodes of a forest. -/
def Flat (ns : List Node) : Prop := Everywhere (fun n => n.kind.isHeading = false) ns

/-- A forest whose outermost headings have levels that fit, where every section only has headings in it
that have one number sign more, and subsections and blocks have none. -/
inductive Levelled (file : Option String) (ls : List (List Char)) :
    (ℕ → Prop) → List Node → Prop where
  | nil (fits : ℕ → Prop) : Levelled file ls fits []
  | numberedSection {fits : ℕ → Prop} {level : ℕ} {s : Section} {span : Span}
      {contents ns : List Node} (hspan : HeadingAt file ls level span) (hfits : fits level)
      (hcontents : Levelled file ls (· = level + 1) contents) (hns : Levelled file ls fits ns) :
      Levelled file ls fits (.group (.numberedSection s) (some span) contents :: ns)
  | importLink {fits : ℕ → Prop} {level : ℕ} {path : String} {span : Span} {ns : List Node}
      (hspan : HeadingAt file ls level span) (hfits : fits level) (hns : Levelled file ls fits ns) :
      Levelled file ls fits (.leaf (.importLink path) (some span) :: ns)
  | subsection {fits : ℕ → Prop} {s : Subsection} {span : Option Span} {contents ns : List Node}
      (hcontents : Flat contents) (hns : Levelled file ls fits ns) :
      Levelled file ls fits (.group (.subsection s) span contents :: ns)
  | block {fits : ℕ → Prop} {n : Node} {ns : List Node} (hn : Flat [n])
      (hns : Levelled file ls fits ns) : Levelled file ls fits (n :: ns)

/-- Two levelled forests make one that is levelled. -/
theorem Levelled.append {fits : ℕ → Prop} {ms ns : List Node} (hms : Levelled file ls fits ms)
    (hns : Levelled file ls fits ns) : Levelled file ls fits (ms ++ ns) := by
  induction hms with
  | nil => exact hns
  | numberedSection hspan hfits hcontents _ _ ih =>
      exact .numberedSection hspan hfits hcontents (ih hns)
  | importLink hspan hfits _ ih => exact .importLink hspan hfits (ih hns)
  | subsection hcontents _ ih => exact .subsection hcontents (ih hns)
  | block hn _ ih => exact .block hn (ih hns)

/-! ## Layers -/

/-- A layer whose contents are levelled and whose subsection has no headings. -/
structure Layer.Levelled (file : Option String) (ls : List (List Char)) (fits : ℕ → Prop)
    (l : Layer) : Prop where
  contents : Markup.Levelled file ls fits l.contents
  subsection : ∀ s, l.subsection = some s → Flat s.contents

namespace Layer

variable {fits : ℕ → Prop} {l : Layer}

/-- There is nothing in an empty layer. -/
theorem levelled_empty (fits : ℕ → Prop) : Layer.empty.Levelled file ls fits where
  contents := .nil fits
  subsection _ h := by cases h

/-- A layer is levelled after its subsection was closed. -/
theorem Levelled.closeSubsection (h : l.Levelled file ls fits) :
    l.closeSubsection.Levelled file ls fits := by
  unfold Layer.closeSubsection
  split
  · exact h
  · next s hs =>
    exact ⟨h.contents.append (.subsection (h.subsection s hs) (.nil fits)), by simp⟩

/-- A block goes into the subsection, if one is open. -/
theorem Levelled.add (h : l.Levelled file ls fits) {n : Node} (hn : Flat [n]) :
    (l.add n).Levelled file ls fits := by
  unfold Layer.add
  split
  · exact ⟨h.contents.append (.block hn (.nil fits)), by simp⟩
  · next s hs =>
    refine ⟨h.contents, ?_⟩
    rintro t ht
    cases ht
    exact everywhere_append.2 ⟨h.subsection s hs, hn⟩

/-- A heading is added where no subsection is open. -/
theorem Levelled.add_heading (h : l.Levelled file ls fits) (hclosed : l.subsection = none) {n : Node}
    (hn : Markup.Levelled file ls fits [n]) : (l.add n).Levelled file ls fits := by
  rw [Layer.add, hclosed]
  exact ⟨h.contents.append hn, by simp⟩

/-- A layer is levelled after a subsection was opened. -/
theorem Levelled.openSubsection (h : l.Levelled file ls fits) (title : String) (span : Span) :
    (l.openSubsection title span).Levelled file ls fits where
  contents := h.closeSubsection.contents
  subsection s hs := by
    cases hs
    exact everywhere_nil

end Layer

/-! ## Nestings -/

namespace Nesting

/-- The levels that a heading has right below open sections. Outside of all sections only the first
level fits at the start of a run, and any level in the place of an import. -/
def Fits (start : Start) : List OpenSection → ℕ → Prop
  | [], level => start = .initial → level = 1
  | o :: _, level => level = o.level + 1

/-- Whether open sections have the levels of their headings and these fit, and what was read in them is
levelled. -/
def OpenLevelled (file : Option String) (ls : List (List Char)) (start : Start) :
    List OpenSection → Prop
  | [] => True
  | o :: os => HeadingAt file ls o.level o.span ∧ Fits start os o.level ∧
      o.layer.Levelled file ls (Fits start (o :: os)) ∧ OpenLevelled file ls start os

/-- The layers of a nesting, the innermost first. -/
def layers (s : Nesting) : List Layer := s.sections.map OpenSection.layer ++ [s.root]

/-- A nesting that is levelled in all its parts. A subsection is open in the innermost layer only. -/
structure Levelled (file : Option String) (ls : List (List Char)) (start : Start) (s : Nesting) :
    Prop where
  root : s.root.Levelled file ls (Fits start [])
  sections : OpenLevelled file ls start s.sections
  outer : ∀ l ∈ s.layers.tail, l.subsection = none

variable {start : Start} {s s' : Nesting}

/-- There is nothing before the first block. -/
theorem levelled_empty : Nesting.empty.Levelled file ls start where
  root := Layer.levelled_empty _
  sections := trivial
  outer := by simp [empty, layers]

/-- A change to the innermost layer. -/
theorem Levelled.mapLayer (h : s.Levelled file ls start) {f : Layer → Layer}
    (hf : ∀ l ∈ s.layers.head?, l.Levelled file ls (Fits start s.sections) →
      (f l).Levelled file ls (Fits start s.sections)) :
    (s.mapLayer f).Levelled file ls start := by
  obtain ⟨hroot, hsections, houter⟩ := h
  rcases s with ⟨_ | ⟨o, os⟩, root⟩
  · exact ⟨hf root rfl hroot, trivial, houter⟩
  · obtain ⟨hspan, hfits, hlayer, hos⟩ := hsections
    exact ⟨hroot, ⟨hspan, hfits, hf o.layer rfl hlayer, hos⟩, houter⟩

/-- With the innermost subsection closed none is open. -/
theorem Levelled.subsection_eq_none (h : s.Levelled file ls start) :
    ∀ l ∈ (s.mapLayer (·.closeSubsection)).layers, l.subsection = none := by
  have houter := h.outer
  rcases s with ⟨_ | ⟨o, os⟩, root⟩
  · exact List.forall_mem_singleton.2 (subsection_closeSubsection root)
  · exact List.forall_mem_cons.2 ⟨subsection_closeSubsection o.layer, houter⟩

/-- A section that is closed is levelled. -/
theorem levelled_node {o : OpenSection} {os : List OpenSection}
    (ho : OpenLevelled file ls start (o :: os)) :
    Markup.Levelled file ls (Fits start os) [o.node] := by
  obtain ⟨hspan, hfits, hlayer, -⟩ := ho
  exact .numberedSection hspan hfits hlayer.closeSubsection.contents (.nil _)

/-- Closing sections where no subsection is open. -/
theorem levelled_closeFrom {level : ℕ} {root : Layer} {os : List OpenSection}
    (hroot : root.Levelled file ls (Fits start [])) (hos : OpenLevelled file ls start os)
    (hclosed : ∀ l ∈ (⟨os, root⟩ : Nesting).layers, l.subsection = none) :
    (closeFrom level root os).Levelled file ls start ∧
      ∀ l ∈ (closeFrom level root os).layers, l.subsection = none := by
  fun_induction closeFrom level root os with
  | case1 => exact ⟨⟨hroot, hos, fun l hl => hclosed l (List.mem_of_mem_tail hl)⟩, hclosed⟩
  | case2 o os hlevel =>
      exact ⟨⟨hroot, hos, fun l hl => hclosed l (List.mem_of_mem_tail hl)⟩, hclosed⟩
  | case3 o hlevel =>
      have hroot' : root.subsection = none := hclosed root (by simp [layers])
      have hadd := hroot.add_heading hroot' (levelled_node hos)
      refine ⟨⟨hadd, trivial, by simp [layers]⟩, List.forall_mem_singleton.2 ?_⟩
      exact subsection_add hroot' o.node
  | case4 o hlevel p ps ih =>
      have hp : p.layer.subsection = none := hclosed p.layer (by simp [layers])
      have hnode := levelled_node hos
      obtain ⟨-, -, -, hspan, hfits, hlayer, hps⟩ := hos
      refine ih ⟨hspan, hfits, hlayer.add_heading hp hnode, hps⟩ ?_
      refine List.forall_mem_cons.2 ⟨subsection_add hp o.node, fun l hl => hclosed l ?_⟩
      exact List.mem_cons_of_mem _ (List.mem_cons_of_mem _ hl)

/-- Open sections are levelled after those of a level were closed, and no subsection is open then. -/
theorem Levelled.closed (h : s.Levelled file ls start) (level : ℕ) :
    (s.closed level).Levelled file ls start ∧
      ∀ l ∈ (s.closed level).layers, l.subsection = none := by
  have hclosed := h.mapLayer fun l _ hl => hl.closeSubsection
  exact levelled_closeFrom hclosed.root hclosed.sections h.subsection_eq_none

/-- A heading that is admitted behind sections of lower levels fits there. -/
theorem fits_of_admits {level : ℕ} (hlevel : 1 ≤ level)
    (hlt : ∀ o os, s.sections = o :: os → o.level < level) (h : s.Admits start level) :
    Fits start s.sections level := by
  rcases s with ⟨_ | ⟨o, os⟩, root⟩
  · rintro rfl
    have hle := h 1 rfl
    omega
  · have hle := h (o.level + 1) rfl
    have hlt := hlt o os rfl
    show level = o.level + 1
    omega

/-- A heading that fits where no subsection is open. -/
theorem Levelled.addHeading (h : s.Levelled file ls start)
    (hclosed : ∀ l ∈ s.layers, l.subsection = none) {level : ℕ} {span : Span}
    (hspan : HeadingAt file ls level span) (hfits : Fits start s.sections level)
    (text : List Char) : (s.addHeading level text span).Levelled file ls start := by
  unfold Nesting.addHeading
  split
  · refine h.mapLayer fun l hl hlayer => hlayer.add_heading ?_ (.importLink hspan hfits (.nil _))
    exact hclosed l (List.mem_of_mem_head? hl)
  · exact ⟨h.root, ⟨hspan, hfits, Layer.levelled_empty _, h.sections⟩, hclosed⟩

/-- Open sections are levelled after one more block was taken in, if its line is what it should be. -/
theorem Levelled.placed {item : Item} (h : s.Levelled file ls start)
    (hblock : ∀ node, item.content = .block node → Flat [node])
    (hheading : ∀ level text, item.content = .heading level text →
      HeadingAt file ls level item.span)
    (hplaced : Placed start s item s') : s'.Levelled file ls start := by
  cases hplaced with
  | block hcontent => exact h.mapLayer fun l _ hl => hl.add (hblock _ hcontent)
  | subsection _ => exact h.mapLayer fun l _ hl => hl.openSubsection _ _
  | @heading level text hcontent hadmits =>
      have hspan := hheading level text hcontent
      obtain ⟨hlevelled, hclosed⟩ := h.closed level
      have hone : 1 ≤ level := by
        obtain ⟨-, -, -, -, hone, -⟩ := hspan
        exact hone
      exact hlevelled.addHeading hclosed hspan
        (fits_of_admits hone (fun o os => lt_of_closeFrom) hadmits) text

/-- Open sections are levelled after several more blocks were taken in. -/
theorem Levelled.placedAll {is : List Item} (h : s.Levelled file ls start)
    (hblock : ∀ item ∈ is, ∀ node, item.content = .block node → Flat [node])
    (hheading : ∀ item ∈ is, ∀ level text, item.content = .heading level text →
      HeadingAt file ls level item.span)
    (hplaced : PlacedAll start s is s') : s'.Levelled file ls start :=
  hplaced.keeps
    (fun item hitem _ _ hplaced h => h.placed (hblock item hitem) (hheading item hitem) hplaced) h

/-- The finished tree of open sections that are levelled is levelled. -/
theorem Levelled.finish (h : s.Levelled file ls start) :
    Markup.Levelled file ls (Fits start []) s.finish :=
  (h.closed 0).1.root.contents

end Nesting

/-! ## Places -/

/-- Where a heading is in a levelled forest that stands in `around`: only sections are between, each of
them adds one to the level, and the nearest one has the level before. -/
theorem Levelled.of_mem_placesIn {fits : ℕ → Prop} {ns : List Node}
    (h : Levelled file ls fits ns) {around : List Node} {p : Place} (hp : p ∈ placesIn around ns)
    (hkind : p.node.kind.isHeading = true) :
    ∃ inner, p.around = inner ++ around ∧ (∀ n ∈ inner, n.kind = .numberedSection) ∧
      (p.node.kind ≠ .subsection → ∃ level, fits level ∧
        p.node.HeadedAt file ls (level + inner.length) ∧
        ∀ n ∈ inner.head?, ∃ m, n.HeadedAt file ls m ∧ level + inner.length = m + 1) := by
  induction h generalizing around with
  | nil => cases hp
  | @numberedSection fits level s span contents ns hspan hfits _ _ ihcontents ihns =>
      rw [placesIn, placesBelow, List.mem_cons, List.mem_append] at hp
      rcases hp with rfl | hp | hp
      · exact ⟨[], rfl, by simp, fun _ => ⟨level, hfits, ⟨span, rfl, hspan⟩, by simp⟩⟩
      · obtain ⟨inner, haround, hinner, hheaded⟩ := ihcontents hp
        refine ⟨inner ++ [.group (.numberedSection s) (some span) contents], ?_, ?_, fun hne => ?_⟩
        · rw [haround, List.append_assoc, List.singleton_append]
        · exact List.forall_mem_append.2 ⟨hinner, List.forall_mem_singleton.2 rfl⟩
        · obtain ⟨_, rfl, hat, hnearest⟩ := hheaded hne
          rw [List.length_append, List.length_singleton]
          rw [Nat.add_right_comm] at hat hnearest
          refine ⟨level, hfits, hat, fun n hn => ?_⟩
          cases inner with
          | nil =>
              cases hn
              exact ⟨level, ⟨span, rfl, hspan⟩, rfl⟩
          | cons m inner => exact hnearest n hn
      · exact ihns hp
  | @importLink fits level path span ns hspan hfits _ ih =>
      rw [placesIn, placesBelow, List.nil_append, List.mem_cons] at hp
      rcases hp with rfl | hp
      · exact ⟨[], rfl, by simp, fun _ => ⟨level, hfits, ⟨span, rfl, hspan⟩, by simp⟩⟩
      · exact ih hp
  | subsection hcontents _ ih =>
      rw [placesIn, placesBelow, List.mem_cons, List.mem_append] at hp
      rcases hp with rfl | hp | hp
      · exact ⟨[], rfl, by simp, fun hne => absurd rfl hne⟩
      · rw [hcontents _ ((mem_preorder_iff _).2 ⟨p, hp, rfl⟩)] at hkind
        cases hkind
      · exact ih hp
  | @block fits n ns hn _ ih =>
      rw [placesIn, List.mem_cons, List.mem_append, ← or_assoc] at hp
      rcases hp with hp | hp
      · -- The node is the block or below it, and none of these is a heading.
        have hnode : p.node ∈ preorder [n] := by
          refine (mem_preorder_iff around).2 ⟨p, ?_, rfl⟩
          rw [placesIn, List.mem_cons, List.mem_append]
          rcases hp with hp | hp
          · exact .inl hp
          · exact .inr (.inl hp)
        rw [hn _ hnode] at hkind
        cases hkind
      · exact ih hp

/-- No heading is in a subsection. -/
theorem Levelled.everywhere_subsection {fits : ℕ → Prop} {ns : List Node}
    (h : Levelled file ls fits ns) :
    Everywhere (fun n => n.kind = .subsection → Flat n.children) ns := by
  have hflat : ∀ {ms : List Node}, Flat ms →
      Everywhere (fun n => n.kind = .subsection → Flat n.children) ms := by
    refine fun hms => hms.mono fun n hn hkind => ?_
    rw [hkind] at hn
    cases hn
  induction h with
  | nil => exact everywhere_nil
  | numberedSection _ _ _ _ ihcontents ihns =>
      refine everywhere_group.2 ⟨fun hkind => ?_, ihcontents, ihns⟩
      exact absurd hkind (by simp [kind, Group.kind])
  | importLink _ _ _ ih =>
      exact everywhere_leaf.2 ⟨fun hkind => absurd hkind (by simp [kind, Leaf.kind]), ih⟩
  | subsection hcontents _ ih =>
      exact everywhere_group.2 ⟨fun _ => hcontents, hflat hcontents, ih⟩
  | block hn _ ih =>
      rw [← List.singleton_append, everywhere_append]
      exact ⟨hflat hn, ih⟩

/-! ## Documents -/

/-- A block that stands by itself has no headings among its nodes. -/
theorem flat_of_mem_items {n : ℕ} {item : Item} (hitem : item ∈ items file n ls) {node : Node}
    (h : item.content = .block node) : Flat [node] := by
  obtain ⟨before, line, rest, -, -, rfl⟩ := exists_of_mem_items hitem
  have hnode := isBlockNode_of_blockContent h
  exact everywhere_singleton.2 ⟨hnode.not_isHeading, hnode.parts.mono fun _ hm => hm.not_isHeading⟩

/-- A heading among the blocks behind the title was read from its line of the source. -/
theorem headingAt_of_mem_items {start : Start} {title : Option String} {n : ℕ}
    {rest : List (List Char)} (htitled : Titled start ls title n rest) {item : Item}
    (hitem : item ∈ items file n rest) {level : ℕ} {text : List Char}
    (h : item.content = .heading level text) : HeadingAt file ls level item.span := by
  obtain ⟨front, rfl, rfl⟩ := htitled.exists_append
  obtain ⟨before, line, behind, rfl, -, rfl⟩ := exists_of_mem_items hitem
  have hheading := heading?_of_blockContent _ _ h
  refine ⟨front.length + before.length, line, ?_, ?_, isHeadingLine_of_heading? hheading⟩
  · rw [blockItem, blockTail_of_heading? hheading, Nat.add_right_comm]
  · rw [← List.append_assoc, ← List.length_append, List.getElem?_append_right (Nat.le_refl _),
      Nat.sub_self]
    rfl

/-- The tree of a single heading is one node. -/
theorem Nesting.exists_finish_addHeading_empty (level : ℕ) (text : List Char) (span : Span) :
    ∃ n, (Nesting.empty.addHeading level text span).finish = [n] ∧
      n.kind = (if (importPath? text).isSome then .importLink else .numberedSection) ∧
      n.span? = some span := by
  cases hpath : importPath? text with
  | some path =>
      refine ⟨.leaf (.importLink (String.ofList path)) (some span), ?_, rfl, rfl⟩
      rw [Nesting.addHeading, hpath, Nesting.finish_eq]
      exact congrArg (·.root.contents) (Nesting.closeFrom_nil 0 _)
  | none =>
      obtain ⟨title, override, h⟩ : ∃ title override, Nesting.empty.addHeading level text span
          = ⟨[⟨level, title, override, span, Layer.empty⟩], Layer.empty⟩ := by
        rw [Nesting.addHeading, hpath]
        exact ⟨_, _, rfl⟩
      refine ⟨(⟨level, title, override, span, Layer.empty⟩ : OpenSection).node, ?_, rfl, rfl⟩
      have hclosed : (⟨[⟨level, title, override, span, Layer.empty⟩], Layer.empty⟩ :
          Nesting).closed 0 = _ := Nesting.closeFrom_singleton Layer.empty (Nat.not_lt_zero level)
      rw [h, Nesting.finish_eq, hclosed]
      rfl

end Markup

namespace Document

variable {start : Start} {file : Option String} {source : String} {d : Document}

/-- The contents of a document are levelled. -/
theorem levelled_of_parse (h : Document.parse start file source = .ok d) :
    Levelled file (lines source.toList) (Nesting.Fits start []) d.contents := by
  obtain ⟨n, rest, htitled, hitems, -⟩ := Document.exists_of_parse h
  obtain ⟨s, hplaced, hfinish⟩ := Nesting.ofItems_eq_ok_iff.1 hitems
  rw [← hfinish]
  refine (Nesting.levelled_empty.placedAll ?_ ?_ hplaced).finish
  · exact fun item hitem node => flat_of_mem_items hitem
  · exact fun item hitem level text => headingAt_of_mem_items htitled hitem

end Document

/-- The sections around a place, the innermost first. -/
def Place.enclosing (p : Place) : List Node := p.around.filter (·.kind == .numberedSection)

/-- How the tree of a document follows the headings of its source. Only sections are around a section,
a subsection or an import, and so none of these is below a subsection. The heading of a section, or
of an import, has one number sign more than that of the nearest section around it, and at the start of
a run one more than there are sections around it. -/
structure Document.FollowsHeadings (start : Start) (file : Option String) (ls : List (List Char))
    (d : Document) : Prop where
  around : ∀ p ∈ d.places, p.node.kind.isHeading = true → ∀ n ∈ p.around, n.kind = .numberedSection
  headed : ∀ p ∈ d.places, p.node.kind = .numberedSection ∨ p.node.kind = .importLink →
    ∃ level, p.node.HeadedAt file ls level ∧
      (start = .initial → level = p.enclosing.length + 1) ∧
      ∀ n ∈ p.enclosing.head?, ∃ outer, n.HeadedAt file ls outer ∧ level = outer + 1
  subsection : ∀ n ∈ d.descendants, n.kind = .subsection →
    ∀ m ∈ n.descendants, m.kind.isHeading = false

namespace Document

variable {start : Start} {file : Option String} {source : String} {d : Document}

/-- Where the sections, the subsections and the imports of a document are. -/
theorem followsHeadings_of_parse (h : Document.parse start file source = .ok d) :
    d.FollowsHeadings start file (lines source.toList) := by
  have hlevelled := levelled_of_parse h
  constructor
  · intro p hp hkind
    obtain ⟨inner, haround, hinner, -⟩ := hlevelled.of_mem_placesIn hp hkind
    rw [haround, List.append_nil]
    exact hinner
  · intro p hp hkind
    have hheading : p.node.kind.isHeading = true := by
      rcases hkind with hkind | hkind <;> rw [hkind] <;> rfl
    obtain ⟨inner, haround, hinner, hheaded⟩ := hlevelled.of_mem_placesIn hp hheading
    obtain ⟨level, hfits, hat, hnearest⟩ := hheaded fun hsub => by simp [hsub] at hkind
    have henclosing : p.enclosing = inner := by
      rw [Place.enclosing, haround, List.append_nil, List.filter_eq_self]
      exact fun n hn => beq_iff_eq.2 (hinner n hn)
    refine ⟨level + inner.length, hat, fun hstart => ?_, ?_⟩
    · rw [henclosing, hfits hstart, Nat.add_comm]
    · rw [henclosing]
      exact hnearest
  · intro n hn hkind
    rw [n.descendants_eq]
    rw [d.descendants_eq] at hn
    exact hlevelled.everywhere_subsection n hn hkind

/-- In the place of an import a source may be a heading of any level. -/
theorem exists_parse_of_heading? (file : Option String) {line text : List Char} {level : ℕ}
    (hlines : lines source.toList = [line]) (h : heading? line = some (level, text)) :
    ∃ d n, Document.parse .imported file source = .ok d ∧ d.contents = [n] ∧
      n.kind = (if (importPath? text).isSome then .importLink else .numberedSection) ∧
      n.HeadedAt file (lines source.toList) level := by
  obtain ⟨n, hfinish, hkind, hspan⟩ :=
    Nesting.exists_finish_addHeading_empty level text (linesSpan file 1 line [])
  have hitems : Nesting.ofItems .imported file (items file 1 [line]) = .ok [n] := by
    have hadmits : (Nesting.empty.closed level).Admits .imported level := by
      rw [Nesting.closed_empty]
      intro deepest hdeepest
      cases hdeepest
    have hplaced : Nesting.Placed .imported .empty
        ⟨1, linesSpan file 1 line [], .heading level text⟩ _ := .heading rfl hadmits
    rw [Nesting.closed_empty] at hplaced
    rw [items_of_heading? file h]
    exact Nesting.ofItems_eq_ok_iff.2 ⟨_, .cons hplaced (.nil _), hfinish⟩
  refine ⟨⟨none, [n], sourceSpan file [line]⟩, n, ?_, rfl, hkind, _, hspan, 0, line, rfl, ?_,
    isHeadingLine_of_heading? h⟩
  · simp only [Document.parse, hlines, hitems]
  · rw [hlines]
    rfl

/-- **Sections follow the levels of their headings.** The tree of every document that is read follows
its headings, and an imported document may start with a section or an import of any level. -/
theorem followsHeadings :
    (∀ (start : Start) (file : Option String) (source : String) (d : Document),
      Document.parse start file source = .ok d →
        d.FollowsHeadings start file (lines source.toList)) ∧
    ∀ (file : Option String) (kind : Kind) (level : ℕ),
      kind = .numberedSection ∨ kind = .importLink → 1 ≤ level → level ≤ 6 →
        ∃ source d n, Document.parse .imported file source = .ok d ∧ d.contents = [n] ∧
          n.kind = kind ∧ n.HeadedAt file (lines source.toList) level := by
  refine ⟨fun start file source d h => followsHeadings_of_parse h, ?_⟩
  intro file kind level hkind hone hsix
  obtain ⟨text, htrim, hline, htext⟩ : ∃ text, trim (' ' :: text) = text ∧ '\n' ∉ text ∧
      kind = if (importPath? text).isSome then .importLink else .numberedSection := by
    rcases hkind with rfl | rfl
    · exact ⟨"Annex".toList, rfl, by decide, rfl⟩
    · exact ⟨"[Annex](annex.md)".toList, rfl, by decide, rfl⟩
  have hheading := heading?_replicate_append hone hsix (c := ' ') rfl text
  rw [htrim] at hheading
  have hlines : lines (String.ofList (List.replicate level '#' ++ ' ' :: text)).toList
      = [List.replicate level '#' ++ ' ' :: text] := by
    rw [String.toList_ofList]
    exact lines_eq_singleton (by simp) (by simp [hline])
  obtain ⟨d, n, hparse, hcontents, hn, hat⟩ := exists_parse_of_heading? file hlines hheading
  exact ⟨_, d, n, hparse, hcontents, hn.trans htext.symm, hat⟩

/-- An imported document that goes back to a level above that of its first heading. -/
def rulesSource : String :=
  "### Rules\n\nAll of them.\n\n**Detail**\n\nMore.\n\n#### [Terms](terms.md)\n\n#### Forms\n\n" ++
    "##### Short\n\n## Notes\n"

/-- The rules follow their headings, and an imported document may start with an import of the sixth level. -/
theorem followsHeadings_rulesSource :
    (∃ d, Document.parse .imported (some "rules.md") rulesSource = .ok d ∧
      (d.places.filter (·.node.kind.isHeading)).map (fun p => (p.node.kind, p.enclosing.length))
        = [(.numberedSection, 0), (.subsection, 1), (.importLink, 1), (.numberedSection, 1),
          (.numberedSection, 2), (.numberedSection, 0)] ∧
      d.FollowsHeadings .imported (some "rules.md") (lines rulesSource.toList)) ∧
    ∃ source d n, Document.parse .imported none source = .ok d ∧ d.contents = [n] ∧
      n.kind = .importLink ∧ n.HeadedAt none (lines source.toList) 6 := by
  refine ⟨?_, followsHeadings.2 none .importLink 6 (.inr rfl) (by decide) (by decide)⟩
  have hplaces : (Document.parse .imported (some "rules.md") rulesSource).toOption.map (fun d =>
      (d.places.filter (·.node.kind.isHeading)).map fun p => (p.node.kind, p.enclosing.length))
      = some [(.numberedSection, 0), (.subsection, 1), (.importLink, 1), (.numberedSection, 1),
        (.numberedSection, 2), (.numberedSection, 0)] := by
    decide +kernel
  cases hd : Document.parse .imported (some "rules.md") rulesSource with
  | error e =>
      rw [hd] at hplaces
      cases hplaces
  | ok d =>
      rw [hd] at hplaces
      exact ⟨d, rfl, Option.some.inj hplaces, followsHeadings.1 _ _ _ d hd⟩

end Document

end SpecDoc
