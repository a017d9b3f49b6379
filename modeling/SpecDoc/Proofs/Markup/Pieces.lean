import Mathlib.Data.List.Forall2
import SpecDoc.Proofs.Markup.Moved

/-!
# Nesting in pieces

A heading of the first level closes everything before it. So the blocks of a source can be nested in
pieces that start with such headings, each piece by itself, and the trees stand one after the other.

* `PlacedAll.bare`: nesting does not depend on places;
* `PlacedAll.behind`: what was read before the first block stays in front;
* `finish_of_pieces`: the tree of several pieces.
-/

namespace SpecDoc.Markup

/-! ## Nestings without places -/

/-- The subsection without its places. -/
def OpenSubsection.bare (s : OpenSubsection) : OpenSubsection :=
  ⟨s.title, .origin, s.contents.map Node.bare⟩

/-- The layer without its places. -/
def Layer.bare (l : Layer) : Layer :=
  ⟨l.contents.map Node.bare, l.subsection.map OpenSubsection.bare⟩

/-- The section without its places. -/
def OpenSection.bare (o : OpenSection) : OpenSection :=
  ⟨o.level, o.title, o.override, .origin, o.layer.bare⟩

/-- The nesting without its places. -/
def Nesting.bare (s : Nesting) : Nesting := ⟨s.sections.map OpenSection.bare, s.root.bare⟩

/-- To forget the places of a layer is to change its spans. -/
theorem Layer.bare_eq_mapSpans (l : Layer) : l.bare = l.mapSpans fun _ => .origin := by
  rcases l with ⟨contents, _ | s⟩
  · simp [bare, mapSpans, Node.bare_eq_mapSpans]
  · simp [bare, mapSpans, OpenSubsection.bare, OpenSubsection.mapSpans, Node.bare_eq_mapSpans]

namespace Nesting

variable {start : Start} {s s' : Nesting}

/-- To forget the places of a nesting is to change its spans. -/
theorem bare_eq_mapSpans (s : Nesting) : s.bare = s.mapSpans fun _ => .origin := by
  have hsection : OpenSection.bare = OpenSection.mapSpans fun _ => .origin := by
    funext o
    rw [OpenSection.bare, OpenSection.mapSpans, Layer.bare_eq_mapSpans]
  rw [bare, mapSpans, hsection, Layer.bare_eq_mapSpans]

/-- What one more block does does not depend on where it stands. -/
theorem Placed.bare {item : Item} (h : Placed start s item s') :
    Placed start s.bare item.bare s'.bare := by
  have hplace : s.bare.place start none item.bare
      = ((s.place start none item).map (Nesting.mapSpans fun _ => .origin)).mapError
          fun e => { e with line := 1 } := by
    rw [bare_eq_mapSpans]
    exact place_mapSpans (Content.bare_eq_mapSpans _) rfl (fun _ => rfl) s
  rw [place_eq_ok_iff.2 h] at hplace
  rw [bare_eq_mapSpans s']
  exact place_eq_ok_iff.1 hplace

/-- What several more blocks do does not depend on where they stand. -/
theorem PlacedAll.bare {is : List Item} (h : PlacedAll start s is s') :
    PlacedAll start s.bare (is.map Item.bare) s'.bare := by
  induction h with
  | nil s => exact .nil _
  | cons hitem _ ih => exact .cons hitem.bare ih

/-- Open sections without their places make the same tree without its places. -/
theorem finish_bare (s : Nesting) : s.bare.finish = s.finish.map Node.bare := by
  rw [bare_eq_mapSpans, finish_mapSpans, Node.bare_eq_mapSpans]

end Nesting

/-! ## What was read before -/

/-- The layer with nodes in front of all that was read. -/
def Layer.behind (ns : List Node) (l : Layer) : Layer := { l with contents := ns ++ l.contents }

/-- The nesting with nodes in front of all that was read. -/
def Nesting.behind (ns : List Node) (s : Nesting) : Nesting := { s with root := s.root.behind ns }

namespace Layer

variable (ns : List Node) (l : Layer)

theorem closeSubsection_behind : (l.behind ns).closeSubsection = l.closeSubsection.behind ns := by
  rcases l with ⟨contents, _ | s⟩
  · rfl
  · simp [closeSubsection, behind]

theorem add_behind (n : Node) : (l.behind ns).add n = (l.add n).behind ns := by
  rcases l with ⟨contents, _ | s⟩ <;> simp [add, behind]

theorem openSubsection_behind (title : String) (span : Span) :
    (l.behind ns).openSubsection title span = (l.openSubsection title span).behind ns := by
  rw [openSubsection, closeSubsection_behind]
  rfl

end Layer

namespace Nesting

variable {start start' : Start} {s s' t t' : Nesting} {ns : List Node}

theorem mapLayer_behind {f : Layer → Layer} (h : ∀ l : Layer, f (l.behind ns) = (f l).behind ns)
    (s : Nesting) : (s.behind ns).mapLayer f = (s.mapLayer f).behind ns := by
  rcases s with ⟨_ | ⟨o, os⟩, root⟩
  · simp [mapLayer, behind, h]
  · rfl

theorem closeFrom_behind (ns : List Node) (level : ℕ) (root : Layer) (os : List OpenSection) :
    closeFrom level (root.behind ns) os = (closeFrom level root os).behind ns := by
  fun_induction closeFrom level root os with
  | case1 => exact closeFrom_nil level _
  | case2 o os hlevel => exact closeFrom_of_lt _ hlevel os
  | case3 o hlevel =>
      rw [closeFrom_singleton _ hlevel, Layer.add_behind]
      rfl
  | case4 o hlevel p ps ih => rw [closeFrom_cons_cons _ hlevel, ih]

theorem closed_behind (ns : List Node) (s : Nesting) (level : ℕ) :
    (s.behind ns).closed level = (s.closed level).behind ns := by
  rw [closed, closed, mapLayer_behind (Layer.closeSubsection_behind ns), ← closeFrom_behind]
  rfl

theorem addHeading_behind (ns : List Node) (s : Nesting) (level : ℕ) (text : List Char)
    (span : Span) :
    (s.behind ns).addHeading level text span = (s.addHeading level text span).behind ns := by
  unfold addHeading
  split
  · exact mapLayer_behind (fun l => Layer.add_behind ns l _) s
  · rfl

/-- A block does the same behind other nodes, whatever the start allows. -/
theorem Placed.behind {item : Item} (h : Placed start' t item t')
    (hs : Placed start (t.behind ns) item s') : s' = t'.behind ns := by
  cases h with
  | block hcontent =>
      rw [hs.of_block hcontent]
      exact mapLayer_behind (fun l => Layer.add_behind ns l _) t
  | subsection hcontent =>
      rw [hs.of_subsection hcontent]
      exact mapLayer_behind (fun l => Layer.openSubsection_behind ns l _ _) t
  | heading hcontent _ => rw [hs.of_heading hcontent, closed_behind, addHeading_behind]

/-- Several blocks do the same behind other nodes. -/
theorem PlacedAll.behind {is : List Item} (h : PlacedAll start' t is t')
    (hs : PlacedAll start (t.behind ns) is s') : s' = t'.behind ns := by
  induction h with
  | nil t =>
      cases hs
      rfl
  | cons hitem _ ih =>
      cases hs with
      | cons hitem' his' =>
          obtain rfl := hitem.behind hitem'
          exact ih his'

/-- Open sections behind other nodes make their tree behind these nodes. -/
theorem finish_behind (ns : List Node) (s : Nesting) : (s.behind ns).finish = ns ++ s.finish := by
  rw [finish_eq, finish_eq, closed_behind]
  rfl

/-! ## What a heading closes -/

/-- A closed subsection is not open. -/
theorem subsection_closeSubsection (l : Layer) : l.closeSubsection.subsection = none := by
  rcases l with ⟨contents, _ | s⟩ <;> rfl

/-- The sections that are left open have levels above the one that is closed. -/
theorem lt_of_closeFrom {level : ℕ} {root : Layer} {os os' : List OpenSection} {o : OpenSection}
    (h : (closeFrom level root os).sections = o :: os') : o.level < level := by
  fun_induction closeFrom level root os with
  | case1 => cases h
  | case2 p ps hlevel =>
      cases h
      exact hlevel
  | case3 => cases h
  | case4 p hlevel q ps ih => exact ih h

/-- When all sections are closed none is left open. -/
theorem sections_closed_zero (s : Nesting) : (s.closed 0).sections = [] := by
  cases hsections : (s.closed 0).sections with
  | nil => rfl
  | cons o os => exact absurd (lt_of_closeFrom hsections) (Nat.not_lt_zero _)

/-- A nesting whose sections have levels from one, and where no subsection stands outside them. -/
structure Sound (s : Nesting) : Prop where
  levels : ∀ o ∈ s.sections, 1 ≤ o.level
  root : s.sections ≠ [] → s.root.subsection = none

/-- There is nothing before the first block. -/
theorem sound_empty : Nesting.empty.Sound := ⟨by simp [empty], fun h => absurd rfl h⟩

/-- A change to the innermost layer leaves the sections where they are. -/
theorem Sound.mapLayer (h : s.Sound) (f : Layer → Layer) : (s.mapLayer f).Sound := by
  obtain ⟨hlevels, hroot⟩ := h
  rcases s with ⟨_ | ⟨o, os⟩, root⟩
  · exact ⟨by simp [Nesting.mapLayer], fun h => absurd rfl h⟩
  · rw [List.forall_mem_cons] at hlevels
    exact ⟨List.forall_mem_cons.2 hlevels, fun _ => hroot (by simp)⟩

/-- The innermost subsection is closed, so there is none outside of sections. -/
theorem Sound.subsection_mapLayer_closeSubsection (h : s.Sound) :
    (s.mapLayer (·.closeSubsection)).root.subsection = none := by
  rcases s with ⟨_ | ⟨o, os⟩, root⟩
  · exact subsection_closeSubsection root
  · exact h.root (by simp)

/-- A node goes to the contents of a layer without a subsection. -/
theorem subsection_add {l : Layer} (h : l.subsection = none) (n : Node) :
    (l.add n).subsection = none := by
  rw [Layer.add, h]

/-- Closing sections does not open any. -/
theorem sound_closeFrom (level : ℕ) {root : Layer} {os : List OpenSection}
    (hos : ∀ o ∈ os, 1 ≤ o.level) (hroot : root.subsection = none) :
    (closeFrom level root os).Sound ∧ (closeFrom level root os).root.subsection = none := by
  fun_induction closeFrom level root os with
  | case1 => exact ⟨⟨hos, fun _ => hroot⟩, hroot⟩
  | case2 o os hlevel => exact ⟨⟨hos, fun _ => hroot⟩, hroot⟩
  | case3 o hlevel =>
      have hroot' := subsection_add hroot o.node
      exact ⟨⟨by simp, fun _ => hroot'⟩, hroot'⟩
  | case4 o hlevel p ps ih =>
      rw [List.forall_mem_cons, List.forall_mem_cons] at hos
      exact ih (List.forall_mem_cons.2 ⟨hos.2.1, hos.2.2⟩)

/-- To close the sections of the first level is to close all. -/
theorem closeFrom_one {root : Layer} {os : List OpenSection} (hos : ∀ o ∈ os, 1 ≤ o.level)
    (hroot : root.subsection = none) :
    closeFrom 1 root os = ⟨[], ⟨(closeFrom 0 root os).root.contents, none⟩⟩ := by
  have heta : ∀ {l : Layer}, l.subsection = none → l = ⟨l.contents, none⟩ := by
    rintro ⟨contents, sub⟩ rfl
    rfl
  fun_induction closeFrom 0 root os with
  | case1 => rw [closeFrom_nil, ← heta hroot]
  -- No level is below zero, so there is nothing that the one leaves open and the other closes.
  | case2 o os hlevel => omega
  | case3 o hlevel =>
      rw [List.forall_mem_singleton] at hos
      rw [closeFrom_singleton _ (by omega), ← heta (subsection_add hroot o.node)]
  | case4 o hlevel p ps ih =>
      rw [List.forall_mem_cons, List.forall_mem_cons] at hos
      rw [closeFrom_cons_cons _ (by omega)]
      exact ih (List.forall_mem_cons.2 ⟨hos.2.1, hos.2.2⟩)

/-- Before a heading of the first level there is only what was read. -/
theorem Sound.closed_one (h : s.Sound) : s.closed 1 = Nesting.empty.behind s.finish := by
  rw [closed, closeFrom_one (h.mapLayer _).levels h.subsection_mapLayer_closeSubsection, finish_eq,
    Nesting.behind, Layer.behind, closed]
  simp [empty, Layer.empty]

/-- Before the first block there is nothing to close. -/
theorem closed_empty (level : ℕ) : Nesting.empty.closed level = Nesting.empty :=
  closeFrom_nil level Layer.empty

/-- Closing sections keeps a nesting sound. -/
theorem Sound.closed (h : s.Sound) (level : ℕ) :
    (s.closed level).Sound ∧ (s.closed level).root.subsection = none :=
  sound_closeFrom level (h.mapLayer _).levels h.subsection_mapLayer_closeSubsection

/-- A heading with a level from one keeps a nesting sound. -/
theorem Sound.placed {item : Item} (h : s.Sound)
    (hitem : ∀ level text, item.content = .heading level text → 1 ≤ level)
    (hplaced : Placed start s item s') : s'.Sound := by
  cases hplaced with
  | block _ => exact h.mapLayer _
  | subsection _ => exact h.mapLayer _
  | @heading level text hcontent _ =>
      obtain ⟨hsound, hroot⟩ := h.closed level
      unfold addHeading
      split
      · exact hsound.mapLayer _
      · exact ⟨List.forall_mem_cons.2 ⟨hitem level text hcontent, hsound.levels⟩, fun _ => hroot⟩

/-- Blocks whose headings have levels from one keep a nesting sound. -/
theorem Sound.placedAll {is : List Item} (h : s.Sound)
    (his : ∀ item ∈ is, ∀ level text, item.content = .heading level text → 1 ≤ level)
    (hplaced : PlacedAll start s is s') : s'.Sound :=
  hplaced.keeps (fun item hitem _ _ hplaced h => h.placed (his item hitem) hplaced) h

/-! ## Pieces -/

/-- Blocks that start with a heading of the first level. -/
def StartsSection (is : List Item) : Prop :=
  ∃ item rest text, is = item :: rest ∧ item.content = .heading 1 text

/-- A piece that starts a section is nested behind others as it is by itself. -/
theorem finish_of_piece {is : List Item} (h : s.Sound) (hstarts : StartsSection is)
    (hpiece : PlacedAll start' empty is t) (hs : PlacedAll start s is s') :
    s'.finish = s.finish ++ t.finish := by
  obtain ⟨item, rest, text, rfl, hcontent⟩ := hstarts
  cases hpiece with
  | @cons _ t₁ _ _ _ hitem hrest =>
  cases hs with
  | @cons _ s₁ _ _ _ hitem' hrest' =>
  -- The heading closes all that is open, and in the piece there is nothing before it.
  have hfirst : s₁ = t₁.behind s.finish := by
    rw [hitem'.of_heading hcontent, hitem.of_heading hcontent, h.closed_one, addHeading_behind,
      closed_empty]
  rw [hfirst] at hrest'
  rw [hrest.behind hrest', finish_behind]

/-- Several pieces are nested one behind the other as they are by themselves. -/
theorem finish_of_pieces {pieces : List (List Item)} {forests : List (List Node)} (h : s.Sound)
    (hpieces : List.Forall₂ (fun is ns => StartsSection is ∧
      (∀ item ∈ is, ∀ level text, item.content = .heading level text → 1 ≤ level) ∧
      ∃ t, PlacedAll start' empty is t ∧ t.finish = ns) pieces forests)
    (hs : PlacedAll start s pieces.flatten s') : s'.finish = s.finish ++ forests.flatten := by
  induction hpieces generalizing s with
  | nil =>
      cases hs
      rw [List.flatten_nil, List.append_nil]
  | cons hpiece _ ih =>
      obtain ⟨hstarts, hlevels, t, ht, rfl⟩ := hpiece
      rw [List.flatten_cons, placedAll_append_iff] at hs
      obtain ⟨s₁, hs₁, hs⟩ := hs
      rw [ih (h.placedAll hlevels hs₁) hs, finish_of_piece h hstarts ht hs₁, List.flatten_cons,
        List.append_assoc]

end Nesting

end SpecDoc.Markup

namespace SpecDoc

open Markup

/-- A document without its places is made of the blocks behind its title, without theirs. -/
theorem Document.exists_bare_of_parse {start : Start} {file : Option String} {source : String}
    {d : Document} (h : Document.parse start file source = .ok d) :
    ∃ n rest s, Titled start (Text.lines source.toList) d.title n rest ∧
      Nesting.PlacedAll start Nesting.empty (bareItems rest) s ∧
      s.finish = d.contents.map Node.bare ∧ d.span = sourceSpan file (Text.lines source.toList) := by
  obtain ⟨n, rest, htitled, hitems, hspan⟩ := Document.exists_of_parse h
  obtain ⟨s, hplaced, hfinish⟩ := Nesting.ofItems_eq_ok_iff.1 hitems
  have hbare := hplaced.bare
  rw [map_bare_items] at hbare
  refine ⟨n, rest, s.bare, htitled, hbare, ?_, hspan⟩
  rw [Nesting.finish_bare, hfinish]

end SpecDoc
