import Mathlib.Data.Nat.Notation
import SpecDoc.Markup

/-!
# What a block does to a nesting

`Placed` says once what one more block can do to the open sections, and `PlacedAll` what a sequence
of blocks can do, so that facts about nestings are proved by one case for each kind of block.

* `place_eq_ok_iff` and `foldlM_place_eq_ok_iff`: what happens is one of these;
* `Document.exists_of_parse`: a document is a title and the nesting of the blocks behind it.
-/

namespace SpecDoc

namespace Markup

namespace Nesting

variable {start : Start} {file : Option String} {s s' : Nesting}

/-- The nesting with the sections of a level and of deeper ones closed, and no open subsection. -/
def closed (s : Nesting) (level : ℕ) : Nesting :=
  closeFrom level (s.mapLayer (·.closeSubsection)).root (s.mapLayer (·.closeSubsection)).sections

section Closing

variable {level : ℕ} {o p : OpenSection} {ps : List OpenSection} (root : Layer)

theorem closeFrom_nil (level : ℕ) (root : Layer) : closeFrom level root [] = ⟨[], root⟩ := by
  rw [closeFrom]

theorem closeFrom_of_lt (h : o.level < level) (ps : List OpenSection) :
    closeFrom level root (o :: ps) = ⟨o :: ps, root⟩ := by
  rw [closeFrom.eq_def]
  exact if_pos h

theorem closeFrom_singleton (h : ¬o.level < level) :
    closeFrom level root [o] = ⟨[], root.add o.node⟩ := by
  rw [closeFrom.eq_def]
  exact if_neg h

theorem closeFrom_cons_cons (h : ¬o.level < level) :
    closeFrom level root (o :: p :: ps)
      = closeFrom level root ({ p with layer := p.layer.add o.node } :: ps) := by
  rw [closeFrom.eq_def]
  exact if_neg h

end Closing

/-- Whether a heading of a level may stand here. -/
def Admits (start : Start) (s : Nesting) (level : ℕ) : Prop :=
  ∀ deepest, s.deepest? start = some deepest → level ≤ deepest

/-- A finished tree has everything closed. -/
theorem finish_eq (s : Nesting) : s.finish = (s.closed 0).root.contents := rfl

/-- What a block can do to a nesting: a block that stands by itself goes into the innermost layer,
as does a subsection, and a heading closes what it ends before it is added. -/
inductive Placed (start : Start) (s : Nesting) (item : Item) : Nesting → Prop where
  | block {node : Node} (hcontent : item.content = .block node) :
      Placed start s item (s.mapLayer (·.add node))
  | subsection {title : String} (hcontent : item.content = .subsection title) :
      Placed start s item (s.mapLayer (·.openSubsection title item.span))
  | heading {level : ℕ} {text : List Char} (hcontent : item.content = .heading level text)
      (hadmits : (s.closed level).Admits start level) :
      Placed start s item ((s.closed level).addHeading level text item.span)

namespace Placed

variable {item : Item}

/-- A block that stands by itself goes into the innermost layer. -/
theorem of_block {node : Node} (hcontent : item.content = .block node)
    (h : Placed start s item s') : s' = s.mapLayer (·.add node) := by
  cases h <;> simp_all

/-- A subsection is opened in the innermost layer. -/
theorem of_subsection {title : String} (hcontent : item.content = .subsection title)
    (h : Placed start s item s') : s' = s.mapLayer (·.openSubsection title item.span) := by
  cases h <;> simp_all

/-- A heading closes the sections of its level and is added behind them. -/
theorem of_heading {level : ℕ} {text : List Char} (hcontent : item.content = .heading level text)
    (h : Placed start s item s') : s' = (s.closed level).addHeading level text item.span := by
  cases h <;> simp_all

end Placed

/-- A block that is taken in does one of the things of `Placed`. -/
theorem place_eq_ok_iff {item : Item} :
    s.place start file item = .ok s' ↔ Placed start s item s' := by
  unfold Nesting.place
  constructor
  · intro h
    cases hcontent : item.content with
    | openFence =>
        rw [hcontent] at h
        cases h
    | block node =>
        rw [hcontent] at h
        cases h
        exact .block hcontent
    | subsection title =>
        rw [hcontent] at h
        cases h
        exact .subsection hcontent
    | heading level text =>
        rw [hcontent] at h
        dsimp only at h
        rw [← closed] at h
        split at h
        · next hnone =>
          cases h
          exact .heading hcontent (by simp [Admits, hnone])
        · next deepest hdeepest =>
          split at h
          · cases h
          · next hle =>
            cases h
            exact .heading hcontent (by simp [Admits, hdeepest]; omega)
  · intro h
    cases h with
    | block hcontent => rw [hcontent]
    | subsection hcontent => rw [hcontent]
    | @heading level text hcontent hadmits =>
        rw [hcontent]
        dsimp only
        rw [← closed]
        split
        · rfl
        · next deepest hdeepest => rw [if_neg (by have := hadmits deepest hdeepest; omega)]

/-- What a sequence of blocks can do to a nesting. -/
inductive PlacedAll (start : Start) : Nesting → List Item → Nesting → Prop where
  | nil (s : Nesting) : PlacedAll start s [] s
  | cons {s s₁ s₂ : Nesting} {item : Item} {is : List Item} (hitem : Placed start s item s₁)
      (his : PlacedAll start s₁ is s₂) : PlacedAll start s (item :: is) s₂

/-- Blocks that are taken in do one of the things of `Placed`, each after the other. -/
theorem foldlM_place_eq_ok_iff {is : List Item} :
    is.foldlM (Nesting.place start file) s = .ok s' ↔ PlacedAll start s is s' := by
  induction is generalizing s with
  | nil =>
      constructor
      · intro h
        cases h
        exact .nil _
      · intro h
        cases h
        rfl
  | cons item is ih =>
      rw [List.foldlM_cons]
      cases hplace : s.place start file item with
      | error e =>
          constructor
          · intro h
            cases h
          · intro h
            cases h with
            | cons hitem _ =>
                rw [place_eq_ok_iff.2 hitem] at hplace
                cases hplace
      | ok s₁ =>
          constructor
          · intro h
            exact .cons (place_eq_ok_iff.1 hplace) (ih.1 h)
          · intro h
            cases h with
            | cons hitem his =>
                rw [place_eq_ok_iff.2 hitem, Except.ok.injEq] at hplace
                subst hplace
                exact ih.2 his

/-- Of two sequences of blocks the first is taken in first. -/
theorem placedAll_append_iff {is js : List Item} :
    PlacedAll start s (is ++ js) s' ↔
      ∃ s₁, PlacedAll start s is s₁ ∧ PlacedAll start s₁ js s' := by
  induction is generalizing s with
  | nil =>
      constructor
      · intro h
        exact ⟨s, .nil s, h⟩
      · rintro ⟨s₁, hnil, h⟩
        cases hnil
        exact h
  | cons item is ih =>
      constructor
      · intro h
        cases h with
        | cons hitem his =>
            obtain ⟨s₁, his, hjs⟩ := ih.1 his
            exact ⟨s₁, .cons hitem his, hjs⟩
      · rintro ⟨s₁, his, hjs⟩
        cases his with
        | cons hitem his => exact .cons hitem (ih.2 ⟨s₁, his, hjs⟩)

/-- What every single block keeps is kept by all of them. -/
theorem PlacedAll.keeps {I : Nesting → Prop} {is : List Item} (h : PlacedAll start s is s')
    (hitem : ∀ item ∈ is, ∀ t t', Placed start t item t' → I t → I t') (hs : I s) : I s' := by
  induction h with
  | nil s => exact hs
  | cons hplaced _ ih =>
      rw [List.forall_mem_cons] at hitem
      exact ih hitem.2 (hitem.1 _ _ hplaced hs)

/-- Code without an end is never taken in. -/
theorem PlacedAll.content_ne_openFence {is : List Item} (h : PlacedAll start s is s') :
    ∀ item ∈ is, item.content ≠ .openFence := by
  induction h with
  | nil s => simp
  | cons hitem _ ih =>
      refine List.forall_mem_cons.2 ⟨?_, ih⟩
      cases hitem <;> simp_all

/-- The tree of a sequence of blocks is that of a nesting that they make. -/
theorem ofItems_eq_ok_iff {is : List Item} {ns : List Node} :
    ofItems start file is = .ok ns ↔ ∃ s, PlacedAll start empty is s ∧ s.finish = ns := by
  rw [ofItems]
  cases hfold : is.foldlM (Nesting.place start file) empty with
  | error e =>
      constructor
      · intro h
        cases h
      · rintro ⟨s, hs, -⟩
        rw [foldlM_place_eq_ok_iff.2 hs] at hfold
        cases hfold
  | ok s₁ =>
      constructor
      · intro h
        cases h
        exact ⟨s₁, foldlM_place_eq_ok_iff.1 hfold, rfl⟩
      · rintro ⟨s, hs, rfl⟩
        rw [foldlM_place_eq_ok_iff.2 hs, Except.ok.injEq] at hfold
        rw [hfold]
        rfl

/-- A block that is not taken in has a problem that lies at its first line. -/
theorem exists_of_place_eq_error {item : Item} {e : ParseError}
    (h : s.place start file item = .error e) : ∃ problem, e = problemAt file item.line problem := by
  unfold Nesting.place at h
  split at h
  · cases h
    exact ⟨_, rfl⟩
  · cases h
  · cases h
  · dsimp only at h
    split at h
    · cases h
    · split at h
      · cases h
        exact ⟨_, rfl⟩
      · cases h

/-- Blocks that do not make a tree have one that is not taken in. -/
theorem foldlM_place_of_ofItems_eq_error {is : List Item} {e : ParseError}
    (h : ofItems start file is = .error e) :
    is.foldlM (Nesting.place start file) empty = .error e := by
  rw [ofItems] at h
  cases hall : is.foldlM (Nesting.place start file) empty with
  | error e' =>
      rw [hall] at h
      cases h
      rfl
  | ok s₁ =>
      rw [hall] at h
      cases h

/-- The problem of blocks that do not make a tree lies in their file. -/
theorem file_of_ofItems_eq_error {is : List Item} {e : ParseError}
    (h : ofItems start file is = .error e) : e.file = file := by
  have hfold : ∀ s, is.foldlM (Nesting.place start file) s = .error e → e.file = file := by
    clear h
    induction is with
    | nil =>
        intro s h
        cases h
    | cons item is ih =>
        intro s h
        rw [List.foldlM_cons] at h
        cases hplace : s.place start file item with
        | error e' =>
            rw [hplace] at h
            cases h
            obtain ⟨problem, rfl⟩ := exists_of_place_eq_error hplace
            rfl
        | ok s₁ =>
            rw [hplace] at h
            exact ih s₁ h
  exact hfold empty (foldlM_place_of_ofItems_eq_error h)

end Nesting

/-! ## Documents -/

/-- What stands before the blocks of a source: a title at the start of a document, nothing in the
place of an import. The line behind it has a number. -/
inductive Titled : Start → List (List Char) → Option String → ℕ → List (List Char) → Prop where
  | initial {ls rest : List (List Char)} {title : List Char} {n : ℕ}
      (htitle : titleLine 1 ls = .ok (title, n, rest)) :
      Titled .initial ls (some (String.ofList title)) n rest
  | imported (ls : List (List Char)) : Titled .imported ls none 1 ls

/-- A title is the heading on the first line that is not blank, and it has a text. -/
theorem exists_of_titleLine {n n' : ℕ} {ls rest : List (List Char)} {title : List Char}
    (h : titleLine n ls = .ok (title, n', rest)) :
    ∃ before line, ls = before ++ line :: rest ∧ n' = n + before.length + 1 ∧
      (∀ l ∈ before, Text.allBlank l = true) ∧ heading? line = some (1, title) ∧ title ≠ [] := by
  induction ls generalizing n with
  | nil => cases h
  | cons l ls ih =>
      rw [titleLine] at h
      split at h
      · next hblank =>
        obtain ⟨before, line, rfl, rfl, hbefore, hline⟩ := ih h
        refine ⟨l :: before, line, rfl, ?_, List.forall_mem_cons.2 ⟨hblank, hbefore⟩, hline⟩
        rw [List.length_cons]
        omega
      · split at h
        · next text hheading =>
          split at h
          · next htext =>
            cases h
            exact ⟨[], l, rfl, rfl, by simp, hheading, htext.1⟩
          · cases h
        · cases h

/-- The blocks of a source stand on its last lines, and these are numbered from the first one. -/
theorem Titled.exists_append {start : Start} {ls rest : List (List Char)} {title : Option String}
    {n : ℕ} (h : Titled start ls title n rest) :
    ∃ before, ls = before ++ rest ∧ n = before.length + 1 := by
  cases h with
  | imported => exact ⟨[], rfl, rfl⟩
  | initial htitle =>
      obtain ⟨before, line, rfl, rfl, -⟩ := exists_of_titleLine htitle
      refine ⟨before ++ [line], by simp, ?_⟩
      rw [List.length_append, List.length_singleton]
      omega

end Markup

open Markup

/-- A document has the title of its source, the nesting of the blocks behind it as its contents, and
the span of all lines. -/
theorem Document.exists_of_parse {start : Start} {file : Option String} {source : String}
    {d : Document} (h : Document.parse start file source = .ok d) :
    ∃ n rest, Titled start (Text.lines source.toList) d.title n rest ∧
      Nesting.ofItems start file (items file n rest) = .ok d.contents ∧
      d.span = sourceSpan file (Text.lines source.toList) := by
  unfold Document.parse at h
  cases start with
  | initial =>
      cases htitle : titleLine 1 (Text.lines source.toList) with
      | error n =>
          simp only [htitle] at h
          cases h
      | ok p =>
          obtain ⟨title, n, rest⟩ := p
          simp only [htitle, Except.map] at h
          cases hitems : Nesting.ofItems .initial file (items file n rest) with
          | error e =>
              rw [hitems] at h
              cases h
          | ok contents =>
              rw [hitems] at h
              cases h
              exact ⟨n, rest, .initial htitle, hitems, rfl⟩
  | imported =>
      cases hitems : Nesting.ofItems .imported file (items file 1 (Text.lines source.toList)) with
      | error e =>
          simp only [hitems] at h
          cases h
      | ok contents =>
          simp only [hitems] at h
          cases h
          exact ⟨1, _, .imported _, hitems, rfl⟩

/-- A source that is no document has no title where it should, or blocks behind it that do not make a
tree. -/
theorem Document.exists_of_parse_eq_error {start : Start} {file : Option String} {source : String}
    {e : ParseError} (h : Document.parse start file source = .error e) :
    (start = .initial ∧ ∃ k, titleLine 1 (Text.lines source.toList) = .error k ∧
        e = Nesting.problemAt file k .missingTitle) ∨
      ∃ title n rest, Titled start (Text.lines source.toList) title n rest ∧
        Nesting.ofItems start file (items file n rest) = .error e := by
  unfold Document.parse at h
  cases start with
  | initial =>
      cases htitle : titleLine 1 (Text.lines source.toList) with
      | error k =>
          simp only [htitle, Except.map] at h
          cases h
          exact .inl ⟨rfl, k, rfl, rfl⟩
      | ok p =>
          obtain ⟨title, n, rest⟩ := p
          simp only [htitle, Except.map] at h
          cases hitems : Nesting.ofItems .initial file (items file n rest) with
          | error e' =>
              rw [hitems] at h
              cases h
              exact .inr ⟨_, n, rest, .initial htitle, hitems⟩
          | ok contents =>
              rw [hitems] at h
              cases h
  | imported =>
      cases hitems : Nesting.ofItems .imported file (items file 1 (Text.lines source.toList)) with
      | error e' =>
          simp only [hitems] at h
          cases h
          exact .inr ⟨none, 1, _, .imported _, hitems⟩
      | ok contents =>
          simp only [hitems] at h
          cases h

/-- The error of a source that is no document lies in its file. -/
theorem Document.file_of_parse_eq_error {start : Start} {file : Option String} {source : String}
    {e : ParseError} (h : Document.parse start file source = .error e) : e.file = file := by
  rcases Document.exists_of_parse_eq_error h with ⟨-, k, -, rfl⟩ | ⟨title, n, rest, -, hitems⟩
  · rfl
  · exact Nesting.file_of_ofItems_eq_error hitems

end SpecDoc
