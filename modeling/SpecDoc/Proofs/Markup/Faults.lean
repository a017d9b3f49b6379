import Mathlib.Order.Bounds.Defs
import SpecDoc.Proofs.Markup.Extent
import SpecDoc.Proofs.Markup.Placing

/-!
# Sources that are not well formed

A source is refused for one of three faults: it does not begin with a title where it should, a block of
code has no end, or a heading is not well placed behind those before it. `FaultAt` says this of the lines
of a source and of their blocks, without the sections that are open while it is read.

* `titleLine_eq_error_iff`: what is wrong with a title;
* `Titled.faultAt_iff`: behind a title the faults are those among the blocks;
* `Document.parse_fails_iff_faultAt`: a source is refused if it has a fault, and for the first one.
-/

namespace SpecDoc

open Text

namespace Markup

variable {start : Start} {file : Option String} {n k : ℕ} {ls rest : List (List Char)} {item : Item}

/-! ## Where blocks start -/

/-- A block starts on one of the lines. -/
theorem le_line_of_mem_items (h : item ∈ items file n ls) : n ≤ item.line := by
  obtain ⟨before, line, rest, -, -, rfl⟩ := exists_of_mem_items h
  exact Nat.le_add_right n before.length

/-- Blocks are in the order of their lines. -/
theorem pairwise_line_items (file : Option String) (n : ℕ) (ls : List (List Char)) :
    (items file n ls).Pairwise (·.line < ·.line) := by
  fun_induction items file n ls with
  | case1 => exact .nil
  | case2 n line rest hblank ih => exact ih
  | case3 n line rest hblank extent ih =>
      refine List.pairwise_cons.2 ⟨fun item hitem => ?_, ih⟩
      have hle := le_line_of_mem_items hitem
      show n < item.line
      omega

/-- No block starts on a blank line. -/
theorem items_append_of_allBlank (file : Option String) (n : ℕ) {before : List (List Char)}
    (h : ∀ l ∈ before, allBlank l = true) (ls : List (List Char)) :
    items file n (before ++ ls) = items file (n + before.length) ls := by
  induction before generalizing n with
  | nil => rfl
  | cons l before ih =>
      rw [List.forall_mem_cons] at h
      rw [List.cons_append, items, if_pos h.1, ih _ h.2, List.length_cons, Nat.add_right_comm,
        Nat.add_assoc]

/-- A block is the one that starts at its line. -/
theorem eq_blockItem_of_mem_items {before : List (List Char)} {line : List Char}
    (hitem : item ∈ items file n (before ++ line :: rest)) (hline : item.line = n + before.length) :
    item = blockItem file (n + before.length) line rest := by
  obtain ⟨before', line', rest', heq, -, rfl⟩ := exists_of_mem_items hitem
  have hlength : before'.length = before.length := Nat.add_left_cancel hline
  obtain ⟨-, hbehind⟩ := List.append_inj heq hlength.symm
  cases hbehind
  rw [hlength]

/-- Code is open if no line behind its fence closes it. -/
theorem content_blockItem_eq_openFence_iff {line : List Char} :
    (blockItem file n line rest).content = .openFence ↔
      (fence? line).isSome = true ∧ ∀ l ∈ rest, closesCode l = false := by
  rw [blockItem, blockContent_eq_openFence_iff, List.any_eq_false]
  simp only [Bool.not_eq_true]

/-! ## Titles -/

/-- Whether a line is a title: a heading of the first level that has a text and is no import. -/
def IsTitleLine (line : List Char) : Prop :=
  ∃ text, heading? line = some (1, text) ∧ text ≠ [] ∧ importPath? text = none

/-- Whether lines from a number on do not begin with a title, as the line `k` shows: the first of them that
is not blank is none. If all are blank it is the first line of the source. -/
inductive Untitled (n : ℕ) (ls : List (List Char)) : ℕ → Prop where
  | blank (hblank : ∀ l ∈ ls, allBlank l = true) : Untitled n ls 1
  | line {before rest : List (List Char)} {line : List Char} (hls : ls = before ++ line :: rest)
      (hbefore : ∀ l ∈ before, allBlank l = true) (hline : allBlank line = false)
      (htitle : ¬IsTitleLine line) : Untitled n ls (n + before.length)

/-- A blank line stands before the title. -/
theorem titleLine_cons_of_allBlank {l : List Char} (h : allBlank l = true) (n : ℕ)
    (ls : List (List Char)) : titleLine n (l :: ls) = titleLine (n + 1) ls := by
  rw [titleLine, if_pos h]

/-- Any other line that is no title is at fault. -/
theorem titleLine_cons_eq_error_iff {l : List Char} (h : allBlank l = false) (n : ℕ)
    (ls : List (List Char)) : titleLine n (l :: ls) = .error k ↔ ¬IsTitleLine l ∧ k = n := by
  rw [titleLine, if_neg (by simp [h])]
  split
  · next text hheading =>
    split
    · next htext =>
      refine iff_of_false (fun herror => by cases herror) ?_
      rintro ⟨hnot, -⟩
      exact hnot ⟨text, hheading, htext⟩
    · next htext =>
      have hnot : ¬IsTitleLine l := by
        rintro ⟨text', hheading', htext'⟩
        rw [hheading] at hheading'
        cases hheading'
        exact htext htext'
      simp [hnot, eq_comm]
  · next hheading =>
    have hnot : ¬IsTitleLine l := by
      rintro ⟨text, hheading', -⟩
      exact hheading text hheading'
    simp [hnot, eq_comm]

/-- **What is wrong with a title.** -/
theorem titleLine_eq_error_iff : titleLine n ls = .error k ↔ Untitled n ls k := by
  constructor
  · intro h
    induction ls generalizing n with
    | nil =>
        cases h
        exact .blank (by simp)
    | cons l ls ih =>
        cases hblank : allBlank l with
        | true =>
            rw [titleLine_cons_of_allBlank hblank] at h
            cases ih h with
            | blank hls => exact .blank (List.forall_mem_cons.2 ⟨hblank, hls⟩)
            | @line before rest line hls hbefore hline htitle =>
                have hn : n + 1 + before.length = n + (l :: before).length := by
                  rw [List.length_cons]
                  omega
                rw [hn]
                exact .line (congrArg (l :: ·) hls) (List.forall_mem_cons.2 ⟨hblank, hbefore⟩) hline
                  htitle
        | false =>
            obtain ⟨htitle, rfl⟩ := (titleLine_cons_eq_error_iff hblank n ls).1 h
            have hfirst : Untitled k (l :: ls) (k + ([] : List (List Char)).length) :=
              .line rfl (by simp) hblank htitle
            exact hfirst
  · intro h
    cases h with
    | blank hblank =>
        induction ls generalizing n with
        | nil => rfl
        | cons l ls ih =>
            rw [List.forall_mem_cons] at hblank
            rw [titleLine_cons_of_allBlank hblank.1]
            exact ih hblank.2
    | @line before rest line hls hbefore hline htitle =>
        subst hls
        induction before generalizing n with
        | nil => exact (titleLine_cons_eq_error_iff hline n rest).2 ⟨htitle, rfl⟩
        | cons l before ih =>
            rw [List.forall_mem_cons] at hbefore
            rw [List.cons_append, titleLine_cons_of_allBlank hbefore.1, ih hbefore.2, List.length_cons,
              Nat.add_right_comm, Nat.add_assoc]

/-- No block starts before the line that shows that there is no title. -/
theorem Untitled.le_line (h : Untitled 1 ls k) (hitem : item ∈ items file 1 ls) : k ≤ item.line := by
  cases h with
  | blank _ => exact le_line_of_mem_items hitem
  | line hls hbefore _ _ =>
      rw [hls, items_append_of_allBlank file 1 hbefore] at hitem
      exact le_line_of_mem_items hitem

/-! ## Faults -/

/-- The blocks that are nested: all of them, but at the start of a document not the first one, which is
its title. -/
def nestedItems (start : Start) (ls : List (List Char)) : List Item :=
  match start with
  | .initial => (items none 1 ls).tail
  | .imported => items none 1 ls

/-- What is wrong with lines, and on which of them it lies. -/
inductive FaultAt (start : Start) (ls : List (List Char)) : ℕ → Prop where
  /-- There is no title at the start of a document. -/
  | title {k : ℕ} (hstart : start = .initial) (huntitled : Untitled 1 ls k) : FaultAt start ls k
  /-- A fence starts a block, and no line behind it closes the code. -/
  | fence {before rest : List (List Char)} {line : List Char} {item : Item}
      (hls : ls = before ++ line :: rest) (hitem : item ∈ items none 1 ls)
      (hat : item.line = before.length + 1) (hfence : (fence? line).isSome = true)
      (hopen : ∀ l ∈ rest, closesCode l = false) : FaultAt start ls item.line
  /-- A heading below the first level is not well placed behind those before it. -/
  | heading {before behind : List Item} {item : Item} {level : ℕ} {text : List Char}
      (hitems : nestedItems start ls = before ++ item :: behind)
      (hcontent : item.content = .heading level text) (hlevel : 2 ≤ level)
      (hplaced : ¬WellPlaced start (headings before) level) : FaultAt start ls item.line

/-- The nested blocks are blocks of the lines. -/
theorem mem_items_of_mem_nestedItems (h : item ∈ nestedItems start ls) : item ∈ items none 1 ls := by
  cases start with
  | initial => exact List.mem_of_mem_tail h
  | imported => exact h

/-- Nothing is wrong before the line that shows that there is no title. -/
theorem Untitled.isLeast (h : Untitled 1 ls k) : IsLeast {k | FaultAt .initial ls k} k := by
  refine ⟨.title rfl h, ?_⟩
  intro k' hk'
  cases hk' with
  | title _ huntitled =>
      rw [← titleLine_eq_error_iff] at h huntitled
      rw [h] at huntitled
      cases huntitled
      exact Nat.le_refl k
  | fence _ hitem _ _ _ => exact h.le_line hitem
  | heading hitems _ _ _ =>
      have hmem : ∀ item ∈ nestedItems .initial ls, item ∈ items none 1 ls :=
        fun _ => mem_items_of_mem_nestedItems
      refine h.le_line (hmem _ ?_)
      rw [hitems]
      simp

section Titled

variable {title : Option String} (h : Titled start ls title n rest)

include h

/-- Behind a title all blocks are nested. -/
theorem Titled.nestedItems_eq : nestedItems start ls = items none n rest := by
  cases h with
  | imported => rfl
  | initial htitle =>
      obtain ⟨before, line, rfl, rfl, hbefore, hheading, -⟩ := exists_of_titleLine htitle
      rw [nestedItems, items_append_of_allBlank none 1 hbefore, items_cons_of_heading? none hheading]
      rfl

/-- There is a title. -/
theorem Titled.not_untitled (hstart : start = .initial) : ¬Untitled 1 ls k := by
  intro huntitled
  rw [← titleLine_eq_error_iff] at huntitled
  cases h with
  | imported => cases hstart
  | initial htitle =>
      rw [htitle] at huntitled
      cases huntitled

/-- A block that is no heading is nested. -/
theorem Titled.mem_nestedItems (hitem : item ∈ items none 1 ls)
    (hcontent : ∀ level text, item.content ≠ .heading level text) : item ∈ nestedItems start ls := by
  cases h with
  | imported => exact hitem
  | initial htitle =>
      obtain ⟨before, line, rfl, rfl, hbefore, hheading, -⟩ := exists_of_titleLine htitle
      rw [nestedItems]
      rw [items_append_of_allBlank none 1 hbefore, items_cons_of_heading? none hheading] at hitem ⊢
      rcases List.mem_cons.1 hitem with rfl | hitem
      · exact absurd rfl (hcontent _ _)
      · exact hitem

/-- **Behind a title the faults are those among the blocks.** -/
theorem Titled.faultAt_iff :
    FaultAt start ls k ↔ ∃ item, FaultAmong start [] (items none n rest) item ∧ item.line = k := by
  constructor
  · intro hfault
    cases hfault with
    | title hstart huntitled => exact absurd huntitled (h.not_untitled hstart)
    | @fence before rest' line item hls hitem hat hfence hopen =>
        have hblock := hitem
        rw [hls] at hblock
        have hcontent : item.content = .openFence := by
          rw [eq_blockItem_of_mem_items hblock (by rw [hat, Nat.add_comm])]
          exact content_blockItem_eq_openFence_iff.2 ⟨hfence, hopen⟩
        refine ⟨item, ?_, rfl⟩
        have hmem := h.mem_nestedItems hitem (by simp [hcontent])
        rw [h.nestedItems_eq] at hmem
        obtain ⟨is, js, heq⟩ := List.append_of_mem hmem
        exact ⟨is, js, heq, .inl hcontent⟩
    | @heading before behind item level text hitems hcontent hlevel hplaced =>
        rw [h.nestedItems_eq] at hitems
        exact ⟨item, ⟨before, behind, hitems, .inr ⟨level, text, hcontent, hlevel, hplaced⟩⟩, rfl⟩
  · rintro ⟨item, ⟨before, behind, hitems, hfault⟩, rfl⟩
    rw [← h.nestedItems_eq] at hitems
    have hmem : item ∈ nestedItems start ls := by
      rw [hitems]
      simp
    rcases hfault with hcontent | ⟨level, text, hcontent, hlevel, hplaced⟩
    · have hitem := mem_items_of_mem_nestedItems hmem
      obtain ⟨before', line, rest', hls, -, heq⟩ := exists_of_mem_items hitem
      have hline : item.line = before'.length + 1 := by
        rw [heq, Nat.add_comm]
        rfl
      rw [heq] at hcontent
      obtain ⟨hfence, hopen⟩ := content_blockItem_eq_openFence_iff.1 hcontent
      exact .fence hls hitem hline hfence hopen
    · exact .heading hitems hcontent hlevel hplaced

/-- Blocks behind a title are refused for the first fault. -/
theorem Titled.isLeast_of_ofItems {e : ParseError}
    (he : Nesting.ofItems start none (items none n rest) = .error e) :
    IsLeast {k | FaultAt start ls k} e.line := by
  obtain ⟨item, hitem, hline, hfirst⟩ :=
    Nesting.tracks_empty.exists_of_foldlM_place (pairwise_line_items none n rest)
      (Nesting.foldlM_place_of_ofItems_eq_error he)
  rw [hline]
  refine ⟨h.faultAt_iff.2 ⟨item, hitem, rfl⟩, ?_⟩
  intro k hk
  obtain ⟨item', hitem', rfl⟩ := h.faultAt_iff.1 hk
  exact hfirst item' hitem'

/-- Blocks behind a title that are taken in have no fault. -/
theorem Titled.not_faultAt_of_ofItems {contents : List Node}
    (hcontents : Nesting.ofItems start none (items none n rest) = .ok contents) (k : ℕ) :
    ¬FaultAt start ls k := by
  obtain ⟨s, hplaced, -⟩ := Nesting.ofItems_eq_ok_iff.1 hcontents
  rw [h.faultAt_iff]
  rintro ⟨item, hitem, -⟩
  exact Nesting.tracks_empty.not_faultAmong hplaced item hitem

end Titled

end Markup

namespace Document

open Markup

variable {start : Start} {source : String}

/-- A source of no file is refused for its first fault. -/
theorem isLeast_of_parse_none {e : ParseError} (h : Document.parse start none source = .error e) :
    IsLeast {k | FaultAt start (lines source.toList) k} e.line := by
  rcases exists_of_parse_eq_error h with ⟨rfl, k, htitle, rfl⟩ | ⟨title, n, rest, htitled, hitems⟩
  · exact (titleLine_eq_error_iff.1 htitle).isLeast
  · exact htitled.isLeast_of_ofItems hitems

/-- The file that a source belongs to has no part in whether it is refused and on which line. -/
theorem exists_parse_eq_error_iff (start : Start) (file : Option String) (source : String) (k : ℕ) :
    (∃ e, Document.parse start file source = .error e ∧ e.line = k) ↔
      ∃ e, Document.parse start none source = .error e ∧ e.line = k := by
  obtain ⟨f, hf⟩ := exists_moves none file 0 0
  rw [Document.parse_of_moves (k := fun e => { e with file }) hf fun _ _ => rfl]
  cases Document.parse start none source with
  | error e => simp [Except.map, Except.mapError]
  | ok d => simp [Except.map, Except.mapError]

/-- **A source is refused if it has a fault, and for the first one.** -/
theorem parse_fails_iff_faultAt (start : Start) (file : Option String) (source : String) :
    ((∃ e, Document.parse start file source = .error e) ↔
        ∃ k, FaultAt start (lines source.toList) k) ∧
      ∀ e, Document.parse start file source = .error e →
        IsLeast {k | FaultAt start (lines source.toList) k} e.line := by
  have hleast : ∀ e, Document.parse start file source = .error e →
      IsLeast {k | FaultAt start (lines source.toList) k} e.line := by
    intro e he
    obtain ⟨e', he', hline⟩ := (exists_parse_eq_error_iff start file source e.line).1 ⟨e, he, rfl⟩
    rw [← hline]
    exact isLeast_of_parse_none he'
  refine ⟨⟨?_, ?_⟩, hleast⟩
  · rintro ⟨e, he⟩
    exact ⟨e.line, (hleast e he).1⟩
  · rintro ⟨k, hk⟩
    cases hnone : Document.parse start none source with
    | error e' =>
        obtain ⟨e, he, -⟩ := (exists_parse_eq_error_iff start file source e'.line).2 ⟨e', hnone, rfl⟩
        exact ⟨e, he⟩
    | ok d =>
        obtain ⟨n, rest, htitled, hitems, -⟩ := Document.exists_of_parse hnone
        exact absurd hk (htitled.not_faultAt_of_ofItems hitems k)

/-- A source whose heading in code is none, and with two headings that are not well placed: the section
that they would lie in is an import, or has another level. -/
def skippingSource : String :=
  "# Guide\n\n# Scope\n\x60\x60\x60\n### Code\n\x60\x60\x60\n## [Terms](terms.md)\n### Forms\n" ++
    "## Short\n#### Long\n"

/-- A source with two headings that are not well placed is refused for the first of them. -/
theorem parse_fails_iff_faultAt_skippingSource :
    ∃ e, Document.parse .initial none skippingSource = .error e ∧ e.problem = .skippedLevel 3 2 ∧
      IsLeast {k | FaultAt .initial (lines skippingSource.toList) k} 8 := by
  have hmap : (Document.parse .initial none skippingSource).map (fun _ => ())
      = .error (Nesting.problemAt none 8 (.skippedLevel 3 2)) := by
    decide +kernel
  cases hparse : Document.parse .initial none skippingSource with
  | error e =>
      rw [hparse] at hmap
      cases hmap
      exact ⟨_, rfl, rfl, (parse_fails_iff_faultAt .initial none skippingSource).2 _ hparse⟩
  | ok d =>
      rw [hparse] at hmap
      cases hmap

end Document

end SpecDoc
