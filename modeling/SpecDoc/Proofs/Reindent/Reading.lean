import SpecDoc.Proofs.Reindent.Lines

/-!
# Reading sources that differ in the layout of examples

Blocks that differ only in the layout of examples nest in the same way. So a source with other spaces in
its examples is read whenever the given one is, and the documents are alike.

* `Nesting.Alike` says of two nestings that they are in step, and `PlacedAll.alike` that blocks keep this;
* `Document.exists_alike_of_parse`: the documents that are read.
-/

namespace SpecDoc

open Text

namespace Markup

/-! ## Nestings -/

/-- Whether two open subsections differ at most in the layout of examples. -/
structure OpenSubsection.Alike (s s' : OpenSubsection) : Prop where
  title : s'.title = s.title
  span : s'.span = s.span
  contents : Node.Alike s.contents s'.contents

/-- Whether two layers differ at most in the layout of examples. -/
structure Layer.Alike (l l' : Layer) : Prop where
  contents : Node.Alike l.contents l'.contents
  subsection : Option.Rel OpenSubsection.Alike l.subsection l'.subsection

/-- Whether two open sections differ at most in the layout of examples. -/
structure OpenSection.Alike (o o' : OpenSection) : Prop where
  level : o'.level = o.level
  title : o'.title = o.title
  override : o'.override = o.override
  span : o'.span = o.span
  layer : o.layer.Alike o'.layer

/-- Whether two nestings differ at most in the layout of examples. -/
structure Nesting.Alike (s s' : Nesting) : Prop where
  sections : List.Forall₂ OpenSection.Alike s.sections s'.sections
  root : s.root.Alike s'.root

/-- The node of a block is the same, or an example that differs in its layout. -/
theorem Content.Alike.node {c' : Content} {n : Node} (h : Content.Alike (.block n) c') :
    ∃ n', c' = .block n' ∧ Node.Alike [n] [n'] := by
  cases h with
  | same => exact ⟨n, rfl, .refl _⟩
  | code hcode => exact ⟨_, rfl, .code hcode .nil⟩

/-- All other contents are the same. -/
theorem Content.Alike.eq {c c' : Content} (h : Content.Alike c c') (hc : ∀ n, c ≠ .block n) :
    c' = c := by
  cases h with
  | same => rfl
  | code hcode => exact absurd rfl (hc _)

namespace Layer.Alike

variable {l l' : Layer}

/-- Subsections that are alike are so when they are closed. -/
theorem subsectionNode {s s' : OpenSubsection} (h : s.Alike s') :
    Node.Alike [Layer.subsectionNode s] [Layer.subsectionNode s'] := by
  rw [Layer.subsectionNode, Layer.subsectionNode, h.title, h.span]
  exact .group rfl h.contents .nil

theorem closeSubsection (h : l.Alike l') : l.closeSubsection.Alike l'.closeSubsection := by
  obtain ⟨contents, s⟩ := l
  obtain ⟨contents', s'⟩ := l'
  cases h.subsection with
  | none => exact h
  | some hs => exact ⟨h.contents.append (subsectionNode hs), .none⟩

theorem add (h : l.Alike l') {n n' : Node} (hn : Node.Alike [n] [n']) :
    (l.add n).Alike (l'.add n') := by
  obtain ⟨contents, s⟩ := l
  obtain ⟨contents', s'⟩ := l'
  cases h.subsection with
  | none => exact ⟨h.contents.append hn, .none⟩
  | some hs => exact ⟨h.contents, .some ⟨hs.title, hs.span, hs.contents.append hn⟩⟩

theorem openSubsection (h : l.Alike l') (title : String) (span : Span) :
    (l.openSubsection title span).Alike (l'.openSubsection title span) :=
  ⟨h.closeSubsection.contents, .some ⟨rfl, rfl, .nil⟩⟩

end Layer.Alike

/-- Sections that are alike are so when they are closed. -/
theorem OpenSection.Alike.node {o o' : OpenSection} (h : o.Alike o') :
    Node.Alike [o.node] [o'.node] := by
  rw [OpenSection.node, OpenSection.node, h.title, h.override, h.span]
  exact .group rfl h.layer.closeSubsection.contents .nil

namespace Nesting

variable {start : Start} {s s' t : Nesting}

namespace Alike

theorem mapLayer (h : s.Alike s') {f g : Layer → Layer}
    (hfg : ∀ l l', l.Alike l' → (f l).Alike (g l')) : (s.mapLayer f).Alike (s'.mapLayer g) := by
  obtain ⟨os, root⟩ := s
  obtain ⟨os', root'⟩ := s'
  cases h.sections with
  | nil => exact ⟨.nil, hfg _ _ h.root⟩
  | cons ho hos =>
      exact ⟨.cons ⟨ho.level, ho.title, ho.override, ho.span, hfg _ _ ho.layer⟩ hos, h.root⟩

/-- Sections are closed up to the same one. -/
theorem closeFrom {level : ℕ} {root root' : Layer} {os os' : List OpenSection}
    (hos : List.Forall₂ OpenSection.Alike os os') (hroot : root.Alike root') :
    (closeFrom level root os).Alike (closeFrom level root' os') := by
  revert os'
  fun_induction Nesting.closeFrom level root os with
  | case1 =>
      intro os' hos
      cases hos
      rw [closeFrom_nil]
      exact ⟨.nil, hroot⟩
  | case2 o os hlevel =>
      intro os' hos
      cases hos with
      | cons ho hos =>
          rw [closeFrom_of_lt _ (ho.level ▸ hlevel)]
          exact ⟨.cons ho hos, hroot⟩
  | case3 o hlevel =>
      intro os' hos
      cases hos with
      | cons ho hos =>
          cases hos
          rw [closeFrom_singleton _ (ho.level ▸ hlevel)]
          exact ⟨.nil, hroot.add ho.node⟩
  | case4 o hlevel p ps ih =>
      intro os' hos
      cases hos with
      | cons ho hos =>
          cases hos with
          | cons hp hps =>
              rw [closeFrom_cons_cons _ (ho.level ▸ hlevel)]
              exact ih (.cons ⟨hp.level, hp.title, hp.override, hp.span, hp.layer.add ho.node⟩ hps)

theorem closed (h : s.Alike s') (level : ℕ) : (s.closed level).Alike (s'.closed level) := by
  have hclose := h.mapLayer fun _ _ hl => Layer.Alike.closeSubsection hl
  exact closeFrom hclose.sections hclose.root

/-- The same headings may stand behind open sections that are alike. -/
theorem deepest?_eq (h : s.Alike s') (start : Start) : s'.deepest? start = s.deepest? start := by
  obtain ⟨os, root⟩ := s
  obtain ⟨os', root'⟩ := s'
  cases h.sections with
  | nil => rfl
  | cons ho _ => cases start <;> exact congrArg (fun k => some (k + 1)) ho.level

theorem addHeading (h : s.Alike s') (level : ℕ) (text : List Char) (span : Span) :
    (s.addHeading level text span).Alike (s'.addHeading level text span) := by
  unfold Nesting.addHeading
  split
  · exact h.mapLayer fun _ _ hl => hl.add (.refl _)
  · exact ⟨.cons ⟨rfl, rfl, rfl, rfl, .nil, .none⟩ h.sections, h.root⟩

/-- The finished trees of nestings that are alike are alike. -/
theorem finish (h : s.Alike s') : Node.Alike s.finish s'.finish := by
  rw [finish_eq, finish_eq]
  exact (h.closed 0).root.contents

end Alike

/-- Two nestings that are alike are so when each has taken in one more block, and these are alike. -/
theorem Placed.alike {item item' : Item} (h : Placed start s item t) (hitem : item.Alike item')
    (hs : s.Alike s') : ∃ t', Placed start s' item' t' ∧ t.Alike t' := by
  have hcontent' := hitem.content
  cases h with
  | block hcontent =>
      rw [hcontent] at hcontent'
      obtain ⟨n', hn', hn⟩ := hcontent'.node
      exact ⟨_, .block hn', hs.mapLayer fun _ _ hl => hl.add hn⟩
  | @subsection title hcontent =>
      rw [hcontent] at hcontent'
      rw [← hitem.span]
      exact ⟨_, .subsection (hcontent'.eq fun _ => Content.noConfusion),
        hs.mapLayer fun _ _ hl => hl.openSubsection title _⟩
  | @heading level text hcontent hadmits =>
      rw [hcontent] at hcontent'
      have hclosed := hs.closed level
      rw [← hitem.span]
      refine ⟨_, .heading (hcontent'.eq fun _ => Content.noConfusion) fun deepest hdeepest => ?_,
        hclosed.addHeading level text _⟩
      exact hadmits deepest (hclosed.deepest?_eq start ▸ hdeepest)

/-- Two nestings that are alike are so when each has taken in several more blocks, and these are alike. -/
theorem PlacedAll.alike {is is' : List Item} (h : PlacedAll start s is t)
    (his : List.Forall₂ Item.Alike is is') (hs : s.Alike s') :
    ∃ t', PlacedAll start s' is' t' ∧ t.Alike t' := by
  induction h generalizing is' s' with
  | nil s =>
      cases his
      exact ⟨s', .nil _, hs⟩
  | cons hplaced _ ih =>
      cases his with
      | cons hitem his =>
          obtain ⟨t₁, hplaced', ht₁⟩ := hplaced.alike hitem hs
          obtain ⟨t', hplacedAll', ht'⟩ := ih his ht₁
          exact ⟨t', .cons hplaced' hplacedAll', ht'⟩

/-- Blocks that differ in the layout of examples make trees that are alike. -/
theorem exists_alike_of_ofItems {file file' : Option String} {is is' : List Item} {ns : List Node}
    (h : ofItems start file is = .ok ns) (his : List.Forall₂ Item.Alike is is') :
    ∃ ns', ofItems start file' is' = .ok ns' ∧ Node.Alike ns ns' := by
  obtain ⟨s, hplaced, rfl⟩ := ofItems_eq_ok_iff.1 h
  have hempty : empty.Alike empty := ⟨.nil, .nil, .none⟩
  obtain ⟨s', hplaced', hs⟩ := hplaced.alike his hempty
  exact ⟨_, ofItems_eq_ok_iff.2 ⟨s', hplaced', rfl⟩, hs.finish⟩

end Nesting

/-! ## Titles -/

/-- Lines with other spaces in examples have the same title, and the lines behind it differ in the same way. -/
theorem exists_reindented_of_titleLine {file : Option String} {n n' : ℕ} {title : List Char}
    {ls ls' rest : List (List Char)} (h : titleLine n ls = .ok (title, n', rest))
    (hls : Reindented file n ls ls') :
    ∃ rest', titleLine n ls' = .ok (title, n', rest') ∧ Reindented file n' rest rest' := by
  induction ls generalizing n ls' with
  | nil => cases h
  | cons l ls ih =>
      cases ls' with
      | nil => cases RespacedAt.length_eq hls
      | cons l' ls' =>
          obtain rfl := hls.head_eq
          rw [titleLine] at h ⊢
          cases hblank : allBlank l' with
          | true =>
              rw [if_pos hblank] at h
              rw [if_pos rfl]
              exact ih h (hls.of_allBlank hblank)
          | false =>
              rw [if_neg (by simp [hblank])] at h
              rw [if_neg (by simp)]
              split at h
              · next text hheading =>
                have hdrop := hls.drop hblank
                rw [blockTail_of_heading? hheading] at hdrop
                split at h
                · next htext =>
                  cases h
                  exact ⟨ls', if_pos htext, hdrop⟩
                · cases h
              · cases h

/-- What stands before the blocks. -/
theorem Titled.exists_reindented {file : Option String} {start : Start} {title : Option String} {n : ℕ}
    {ls ls' rest : List (List Char)} (h : Titled start ls title n rest)
    (hls : Reindented file 1 ls ls') :
    ∃ rest', Titled start ls' title n rest' ∧ Reindented file n rest rest' := by
  cases h with
  | imported => exact ⟨ls', .imported ls', hls⟩
  | initial htitle =>
      obtain ⟨rest', htitle', hrest⟩ := exists_reindented_of_titleLine htitle hls
      exact ⟨rest', .initial htitle', hrest⟩

/-- The last line is never in an example. -/
theorem Reindented.sourceSpan_eq {file : Option String} {ls ls' : List (List Char)}
    (h : Reindented file 1 ls ls') : sourceSpan file ls' = sourceSpan file ls := by
  have hlength := RespacedAt.length_eq h
  have hlast : ls'.getLast? = ls.getLast? := RespacedAt.getLast?_eq h fun k hk hin => by
    have := (lt_of_inExample hin).2
    omega
  cases ls with
  | nil => rw [List.length_eq_zero_iff.1 hlength]
  | cons l ls =>
      cases ls' with
      | nil => cases hlength
      | cons l' ls' =>
          obtain rfl := h.head_eq
          rw [List.getLast?_cons, List.getLast?_cons, Option.some.injEq] at hlast
          rw [List.length_cons, List.length_cons, Nat.add_right_cancel_iff] at hlength
          rw [sourceSpan, sourceSpan, linesSpan, linesSpan, hlength, hlast]

end Markup

/-! ## Documents -/

open Markup

/-- A title and the nesting of the blocks behind it make a document. -/
theorem Document.parse_eq_ok {start : Start} {file : Option String} {source : String}
    {title : Option String} {n : ℕ} {rest : List (List Char)} {contents : List Node}
    (htitled : Titled start (lines source.toList) title n rest)
    (hitems : Nesting.ofItems start file (items file n rest) = .ok contents) :
    Document.parse start file source
      = .ok ⟨title, contents, sourceSpan file (lines source.toList)⟩ := by
  unfold Document.parse
  cases htitled with
  | imported => simp only [hitems]
  | initial htitle => simp only [htitle, Except.map, hitems]

/-- A source with other spaces in its examples is read as well, and the documents are alike. -/
theorem Document.exists_alike_of_parse {start : Start} {file : Option String} {source source' : String}
    {d : Document} (h : Document.parse start file source = .ok d)
    (hlines : Reindented file 1 (lines source.toList) (lines source'.toList))
    (hone : ∀ l ∈ lines source.toList, IsOneLine l) :
    ∃ d', Document.parse start file source' = .ok d' ∧ d.Alike d' := by
  obtain ⟨n, rest, htitled, hitems, hspan⟩ := Document.exists_of_parse h
  obtain ⟨rest', htitled', hrest⟩ := htitled.exists_reindented hlines
  obtain ⟨before, hbefore, -⟩ := htitled.exists_append
  have halike := hrest.alike_items fun l hl => hone l (hbefore ▸ List.mem_append_right before hl)
  obtain ⟨contents', hitems', hcontents⟩ := Nesting.exists_alike_of_ofItems hitems halike
  refine ⟨_, Document.parse_eq_ok htitled' hitems', rfl, ?_, hcontents⟩
  rw [hspan]
  exact hlines.sourceSpan_eq

end SpecDoc
