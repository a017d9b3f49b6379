import SpecDoc.Proofs.Markup.Moved
import SpecDoc.Proofs.Markup.Pieces

/-!
# Headings that are well placed

How deep a heading may go depends on the headings before it alone. `OpenBehind` says which of their
sections are still open, and `WellPlaced` which levels a heading may have, both without the sections
themselves.

* `Nesting.Tracks` are nestings whose open sections are those, and `Tracks.placed` is what a block keeps;
* `Nesting.Tracks.admits_iff`: the headings that fit are those that are well placed;
* `Nesting.Tracks.exists_of_foldlM_place`: blocks are refused for the first one at fault.
-/

namespace SpecDoc

open Text

namespace Markup

/-! ## Headings -/

/-- A heading: its level, and whether it is an import and no section. -/
structure Heading where
  level : ℕ
  isImport : Bool

/-- The heading that a block is. -/
def Item.toHeading? (item : Item) : Option Heading :=
  match item.content with
  | .heading level text => some ⟨level, (importPath? text).isSome⟩
  | _ => none

/-- The headings among blocks, in order. -/
def headings (is : List Item) : List Heading := is.filterMap Item.toHeading?

/-- The headings among blocks are those of the first one and of the others. -/
theorem headings_cons (i : Item) (is : List Item) : headings (i :: is) = headings [i] ++ headings is :=
  List.filterMap_append (l := [i])

/-- Whether a section of a level is open behind headings: one of them is its heading, and all headings
behind that have greater levels. -/
def OpenBehind (hs : List Heading) (level : ℕ) : Prop :=
  ∃ before h between, hs = before ++ h :: between ∧ h.isImport = false ∧ h.level = level ∧
    ∀ g ∈ between, level < g.level

/-- Whether a heading of a level is well placed behind others: a section of the level before is open, or,
in the place of an import, none of a lower level. -/
def WellPlaced (start : Start) (hs : List Heading) (level : ℕ) : Prop :=
  OpenBehind hs (level - 1) ∨ start = .imported ∧ ∀ e, e < level → ¬OpenBehind hs e

/-- No section is open before the first heading. -/
theorem not_openBehind_nil (level : ℕ) : ¬OpenBehind [] level := by
  rintro ⟨before, h, between, heq, -⟩
  exact absurd heq.symm (by simp)

/-- One more heading opens its own section, and the sections of lower levels remain open. -/
theorem openBehind_concat {hs : List Heading} {h : Heading} {level : ℕ} :
    OpenBehind (hs ++ [h]) level
      ↔ h.isImport = false ∧ h.level = level ∨ level < h.level ∧ OpenBehind hs level := by
  constructor
  · rintro ⟨before, g, between, heq, hsection, hlevel, hbetween⟩
    rcases List.eq_nil_or_concat between with rfl | ⟨between', h', rfl⟩
    · obtain ⟨-, hlast⟩ := List.append_inj' heq rfl
      cases hlast
      exact .inl ⟨hsection, hlevel⟩
    · rw [List.concat_eq_append, ← List.cons_append, ← List.append_assoc] at heq
      obtain ⟨hinit, hlast⟩ := List.append_inj' heq rfl
      cases hlast
      refine .inr ⟨hbetween h (by simp), before, g, between', hinit, hsection, hlevel, ?_⟩
      intro g' hg'
      exact hbetween g' (by simp [hg'])
  · rintro (⟨hsection, hlevel⟩ | ⟨hlt, before, g, between, rfl, hsection, hlevel, hbetween⟩)
    · exact ⟨hs, h, [], rfl, hsection, hlevel, by simp⟩
    · refine ⟨before, g, between ++ [h], by simp, hsection, hlevel, ?_⟩
      exact List.forall_mem_append.2 ⟨hbetween, List.forall_mem_singleton.2 hlt⟩

/-! ## Levels of open sections -/

namespace Nesting

variable {start : Start} {file : Option String} {s s' : Nesting} {hs : List Heading}

/-- The levels of the open sections, the innermost first. -/
def levels (s : Nesting) : List ℕ := s.sections.map OpenSection.level

/-- A change to the innermost layer leaves the levels as they are. -/
theorem levels_mapLayer (s : Nesting) (f : Layer → Layer) : (s.mapLayer f).levels = s.levels := by
  rcases s with ⟨_ | ⟨o, os⟩, root⟩ <;> rfl

/-- What remains open are the sections behind those of a level and of deeper ones. -/
theorem levels_closeFrom (level : ℕ) (root : Layer) (os : List OpenSection) :
    (closeFrom level root os).levels
      = (os.map OpenSection.level).dropWhile (decide <| level ≤ ·) := by
  fun_induction closeFrom level root os with
  | case1 => rfl
  | case2 o os hlevel =>
      rw [List.map_cons, List.dropWhile_cons_of_neg (by simpa using hlevel)]
      rfl
  | case3 o hlevel =>
      rw [List.map_singleton, List.dropWhile_cons_of_pos (by simpa using hlevel)]
      rfl
  | case4 o hlevel p ps ih =>
      rw [ih, List.map_cons, List.map_cons, List.map_cons,
        List.dropWhile_cons_of_pos (a := o.level) (by simpa using hlevel)]

/-- The levels that remain when a heading closes what it ends. -/
theorem levels_closed (s : Nesting) (level : ℕ) :
    (s.closed level).levels = s.levels.dropWhile (decide <| level ≤ ·) := by
  rw [closed, levels_closeFrom]
  exact congrArg (List.dropWhile _) (levels_mapLayer s _)

/-- A section adds its level, and an import none. -/
theorem levels_addHeading (s : Nesting) (level : ℕ) (text : List Char) (span : Span) :
    (s.addHeading level text span).levels
      = if (importPath? text).isSome then s.levels else level :: s.levels := by
  unfold addHeading
  split
  · next path hpath =>
    rw [hpath, levels_mapLayer]
    rfl
  · next hpath =>
    rw [hpath]
    rfl

/-- Below an open section a heading goes down by one level at most. -/
theorem admits_of_levels_eq_cons {e level : ℕ} {es : List ℕ} (h : s.levels = e :: es) :
    s.Admits start level ↔ level ≤ e + 1 := by
  rcases s with ⟨_ | ⟨o, os⟩, root⟩
  · cases h
  · cases h
    constructor
    · intro hadmits
      exact hadmits _ rfl
    · rintro hle deepest hdeepest
      cases hdeepest
      exact hle

/-- Outside of all sections a document only has headings of the first level, and an import has any. -/
theorem admits_of_levels_eq_nil {level : ℕ} (h : s.levels = []) :
    s.Admits start level ↔ (start = .initial → level ≤ 1) := by
  rcases s with ⟨_ | ⟨o, os⟩, root⟩
  · cases start with
    | initial =>
        constructor
        · intro hadmits _
          exact hadmits 1 rfl
        · intro hle deepest hdeepest
          cases hdeepest
          exact hle rfl
    | imported =>
        constructor
        · intro _ hinitial
          cases hinitial
        · intro _ deepest hdeepest
          cases hdeepest
  · cases h

/-- A nesting whose open sections are those that headings leave open, the innermost of which has the
greatest level. -/
structure Tracks (hs : List Heading) (s : Nesting) : Prop where
  mem_iff : ∀ level, level ∈ s.levels ↔ OpenBehind hs level
  sorted : s.levels.Pairwise (· > ·)

/-- Before the first block no section is open. -/
theorem tracks_empty : Tracks [] empty where
  mem_iff level := iff_of_false List.not_mem_nil (not_openBehind_nil level)
  sorted := .nil

/-- In a decreasing list those at the front are dropped that are not less than a bound. -/
theorem mem_dropWhile_iff_of_pairwise {levels : List ℕ} (h : levels.Pairwise (· > ·)) {level e : ℕ} :
    e ∈ levels.dropWhile (decide <| level ≤ ·) ↔ e < level ∧ e ∈ levels := by
  induction levels with
  | nil => simp
  | cons d ds ih =>
      obtain ⟨hd, hds⟩ := List.pairwise_cons.1 h
      by_cases hle : level ≤ d
      · rw [List.dropWhile_cons_of_pos (by simpa using hle), ih hds, List.mem_cons]
        constructor
        · rintro ⟨hlt, hmem⟩
          exact ⟨hlt, .inr hmem⟩
        · rintro ⟨hlt, rfl | hmem⟩
          · omega
          · exact ⟨hlt, hmem⟩
      · rw [List.dropWhile_cons_of_neg (by simpa using hle)]
        refine ⟨fun hmem => ⟨?_, hmem⟩, fun hmem => hmem.2⟩
        rcases List.mem_cons.1 hmem with rfl | hmem
        · omega
        · have := hd e hmem
          omega

/-- Behind what a heading closes the open sections of lower levels remain. -/
theorem Tracks.mem_levels_closed (h : Tracks hs s) {level e : ℕ} :
    e ∈ (s.closed level).levels ↔ e < level ∧ OpenBehind hs e := by
  rw [levels_closed, mem_dropWhile_iff_of_pairwise h.sorted, h.mem_iff]

/-- The levels that remain open behind a heading are in order. -/
theorem Tracks.sorted_closed (h : Tracks hs s) (level : ℕ) :
    (s.closed level).levels.Pairwise (· > ·) := by
  rw [levels_closed]
  exact h.sorted.sublist (List.dropWhile_sublist _)

/-- Below a heading no section of a lower level is open, or the innermost one that is has the greatest of
these levels. -/
theorem Tracks.levels_closed_cases (h : Tracks hs s) (level : ℕ) :
    ((s.closed level).levels = [] ∧ ∀ e, e < level → ¬OpenBehind hs e) ∨
      ∃ e es, (s.closed level).levels = e :: es ∧ e < level ∧ OpenBehind hs e ∧
        ∀ d, d < level → OpenBehind hs d → d ≤ e := by
  cases hlevels : (s.closed level).levels with
  | nil =>
      refine .inl ⟨rfl, fun e he hopen => ?_⟩
      have hmem := h.mem_levels_closed.2 ⟨he, hopen⟩
      rw [hlevels] at hmem
      cases hmem
  | cons e es =>
      have hsorted := h.sorted_closed level
      rw [hlevels] at hsorted
      obtain ⟨hlt, hopen⟩ : e < level ∧ OpenBehind hs e := by
        apply h.mem_levels_closed.1
        rw [hlevels]
        exact List.mem_cons_self
      refine .inr ⟨e, es, rfl, hlt, hopen, fun d hd hdopen => ?_⟩
      have hmem := h.mem_levels_closed.2 ⟨hd, hdopen⟩
      rw [hlevels, List.mem_cons] at hmem
      rcases hmem with rfl | hmem
      · exact Nat.le_refl d
      · exact Nat.le_of_lt ((List.pairwise_cons.1 hsorted).1 d hmem)

/-- **The headings that fit are those that are well placed.** Those of the first level always are. -/
theorem Tracks.admits_iff (h : Tracks hs s) (level : ℕ) :
    (s.closed level).Admits start level ↔ (2 ≤ level → WellPlaced start hs level) := by
  rcases h.levels_closed_cases level with ⟨hlevels, hnone⟩ | ⟨e, es, hlevels, hlt, hopen, hgreatest⟩
  · rw [admits_of_levels_eq_nil hlevels]
    constructor
    · intro hadmits htwo
      cases start with
      | initial =>
          have hle := hadmits rfl
          omega
      | imported => exact .inr ⟨rfl, hnone⟩
    · rintro hplaced rfl
      by_contra hdeep
      rcases hplaced (by omega) with hopen | ⟨himported, -⟩
      · exact hnone (level - 1) (by omega) hopen
      · cases himported
  · rw [admits_of_levels_eq_cons hlevels]
    constructor
    · intro hle _
      have hbefore : level - 1 = e := by omega
      left
      rw [hbefore]
      exact hopen
    · intro hplaced
      by_cases htwo : 2 ≤ level
      · rcases hplaced htwo with hbefore | ⟨-, hnone⟩
        · have hle := hgreatest (level - 1) (by omega) hbefore
          omega
        · exact absurd hopen (hnone e hlt)
      · omega

/-- The open sections follow the headings also after one more heading. -/
theorem Tracks.addHeading (h : Tracks hs s) (level : ℕ) (text : List Char) (span : Span) :
    Tracks (hs ++ [⟨level, (importPath? text).isSome⟩])
      ((s.closed level).addHeading level text span) := by
  have hsorted := h.sorted_closed level
  constructor
  · intro e
    rw [levels_addHeading, openBehind_concat]
    cases (importPath? text).isSome with
    | true => simp [h.mem_levels_closed]
    | false => simp [h.mem_levels_closed, eq_comm]
  · rw [levels_addHeading]
    split
    · exact hsorted
    · refine List.pairwise_cons.2 ⟨fun e he => ?_, hsorted⟩
      exact (h.mem_levels_closed.1 he).1

/-- The open sections follow the headings also after one more block. -/
theorem Tracks.placed {item : Item} (h : Tracks hs s) (hplaced : Placed start s item s') :
    Tracks (hs ++ headings [item]) s' := by
  have hlayer : ∀ f, headings [item] = [] → Tracks (hs ++ headings [item]) (s.mapLayer f) := by
    intro f hnone
    rw [hnone, List.append_nil]
    constructor
    · intro e
      rw [levels_mapLayer, h.mem_iff]
    · rw [levels_mapLayer]
      exact h.sorted
  cases hplaced with
  | block hcontent => exact hlayer _ (by simp [headings, Item.toHeading?, hcontent])
  | subsection hcontent => exact hlayer _ (by simp [headings, Item.toHeading?, hcontent])
  | @heading level text hcontent _ =>
      have hone : headings [item] = [⟨level, (importPath? text).isSome⟩] := by
        simp [headings, Item.toHeading?, hcontent]
      rw [hone]
      exact h.addHeading level text item.span

end Nesting

/-! ## Blocks at fault -/

/-- Whether a block is at fault behind headings: it is code without an end, or a heading that is not well
placed. Those of the first level always are. -/
def Item.AtFault (start : Start) (hs : List Heading) (item : Item) : Prop :=
  item.content = .openFence ∨
    ∃ level text, item.content = .heading level text ∧ 2 ≤ level ∧ ¬WellPlaced start hs level

/-- Whether a block is at fault among those behind headings. -/
def FaultAmong (start : Start) (hs : List Heading) (is : List Item) (item : Item) : Prop :=
  ∃ before behind, is = before ++ item :: behind ∧ item.AtFault start (hs ++ headings before)

section FaultAmong

variable {start : Start} {hs : List Heading} {i item : Item} {is : List Item}

/-- Without blocks none is at fault. -/
theorem not_faultAmong_nil : ¬FaultAmong start hs [] item := by
  rintro ⟨before, behind, heq, -⟩
  exact absurd heq.symm (by simp)

/-- The first block is at fault, or one of those behind it. -/
theorem faultAmong_cons_iff :
    FaultAmong start hs (i :: is) item ↔
      item = i ∧ i.AtFault start hs ∨ FaultAmong start (hs ++ headings [i]) is item := by
  constructor
  · rintro ⟨_ | ⟨b, before⟩, behind, heq, hfault⟩
    · cases heq
      refine .inl ⟨rfl, ?_⟩
      rwa [headings, List.filterMap_nil, List.append_nil] at hfault
    · cases heq
      refine .inr ⟨before, behind, rfl, ?_⟩
      rwa [headings_cons, ← List.append_assoc] at hfault
  · rintro (⟨rfl, hfault⟩ | ⟨before, behind, rfl, hfault⟩)
    · refine ⟨[], is, rfl, ?_⟩
      rwa [headings, List.filterMap_nil, List.append_nil]
    · refine ⟨i :: before, behind, rfl, ?_⟩
      rwa [headings_cons, ← List.append_assoc]

/-- What is at fault is one of the blocks. -/
theorem FaultAmong.mem (h : FaultAmong start hs is item) : item ∈ is := by
  obtain ⟨before, behind, rfl, -⟩ := h
  simp

end FaultAmong

namespace Nesting

variable {start : Start} {file : Option String} {s s' : Nesting} {hs : List Heading}

/-- A block is taken in unless it is at fault. -/
theorem Tracks.exists_placed_iff {item : Item} (h : Tracks hs s) :
    (∃ s', Placed start s item s') ↔ ¬item.AtFault start hs := by
  constructor
  · rintro ⟨s', hplaced⟩ (hopen | ⟨level, text, hcontent, htwo, hnot⟩)
    · cases hplaced <;> simp_all
    · cases hplaced with
      | block hblock => simp [hblock] at hcontent
      | subsection hsubsection => simp [hsubsection] at hcontent
      | heading hheading hadmits =>
          rw [hheading] at hcontent
          cases hcontent
          exact hnot ((h.admits_iff level).1 hadmits htwo)
  · intro hfault
    cases hcontent : item.content with
    | openFence => exact absurd (.inl hcontent) hfault
    | block node => exact ⟨_, .block hcontent⟩
    | subsection title => exact ⟨_, .subsection hcontent⟩
    | heading level text =>
        refine ⟨_, .heading hcontent ((h.admits_iff level).2 fun htwo => ?_)⟩
        by_contra hnot
        exact hfault (.inr ⟨level, text, hcontent, htwo, hnot⟩)

/-- Blocks that are taken in are not at fault. -/
theorem Tracks.not_faultAmong {is : List Item} (h : Tracks hs s) (hplaced : PlacedAll start s is s')
    (item : Item) : ¬FaultAmong start hs is item := by
  induction hplaced generalizing hs with
  | nil s => exact not_faultAmong_nil
  | cons hitem _ ih =>
      rw [faultAmong_cons_iff, not_or]
      refine ⟨?_, ih (h.placed hitem)⟩
      rintro ⟨-, hfault⟩
      exact h.exists_placed_iff.1 ⟨_, hitem⟩ hfault

/-- **Blocks are refused for the first one at fault.** -/
theorem Tracks.exists_of_foldlM_place {is : List Item} {e : ParseError} (h : Tracks hs s)
    (hlines : is.Pairwise (·.line < ·.line)) (he : is.foldlM (place start file) s = .error e) :
    ∃ item, FaultAmong start hs is item ∧ e.line = item.line ∧
      ∀ item', FaultAmong start hs is item' → item.line ≤ item'.line := by
  induction is generalizing s hs with
  | nil => cases he
  | cons i is ih =>
      obtain ⟨hi, his⟩ := List.pairwise_cons.1 hlines
      rw [List.foldlM_cons] at he
      cases hplace : s.place start file i with
      | error e' =>
          rw [hplace] at he
          cases he
          have hfault : i.AtFault start hs := by
            by_contra hnot
            obtain ⟨s', hplaced⟩ := h.exists_placed_iff.2 hnot
            rw [place_eq_ok_iff.2 hplaced] at hplace
            cases hplace
          obtain ⟨problem, rfl⟩ := exists_of_place_eq_error hplace
          refine ⟨i, faultAmong_cons_iff.2 (.inl ⟨rfl, hfault⟩), rfl, fun item' hitem' => ?_⟩
          rcases List.mem_cons.1 hitem'.mem with rfl | hmem
          · exact Nat.le_refl _
          · exact Nat.le_of_lt (hi item' hmem)
      | ok s₁ =>
          rw [hplace] at he
          have hplaced := place_eq_ok_iff.1 hplace
          obtain ⟨item, hitem, hline, hfirst⟩ := ih (h.placed hplaced) his he
          refine ⟨item, faultAmong_cons_iff.2 (.inr hitem), hline, fun item' hitem' => ?_⟩
          rcases faultAmong_cons_iff.1 hitem' with ⟨-, hfault⟩ | hitem'
          · exact absurd hfault (h.exists_placed_iff.1 ⟨s₁, hplaced⟩)
          · exact hfirst item' hitem'

end Nesting

end Markup

end SpecDoc
