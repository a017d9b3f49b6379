import SpecDoc.Proofs.Markup.Blocks
import SpecDoc.Proofs.Markup.Nesting

/-!
# Sources of another file

The file that a source belongs to only shows in the spans of the document and in the error for it. So
what is read for one file is read for another one, with other spans.

* `Nesting.place_mapSpans`: what one more block does;
* `Document.parse_of_moves`: what is read of a source.
-/

namespace SpecDoc.Markup

variable (f : Span → Span)

/-! ## Nestings with other spans -/

/-- The subsection with its spans changed. -/
def OpenSubsection.mapSpans (s : OpenSubsection) : OpenSubsection :=
  ⟨s.title, f s.span, s.contents.map (Node.mapSpans f)⟩

/-- The layer with its spans changed. -/
def Layer.mapSpans (l : Layer) : Layer :=
  ⟨l.contents.map (Node.mapSpans f), l.subsection.map (OpenSubsection.mapSpans f)⟩

/-- The section with its spans changed. -/
def OpenSection.mapSpans (o : OpenSection) : OpenSection :=
  ⟨o.level, o.title, o.override, f o.span, o.layer.mapSpans f⟩

/-- The nesting with its spans changed. -/
def Nesting.mapSpans (s : Nesting) : Nesting :=
  ⟨s.sections.map (OpenSection.mapSpans f), s.root.mapSpans f⟩

namespace Layer

theorem mapSpans_closeSubsection (l : Layer) :
    l.closeSubsection.mapSpans f = (l.mapSpans f).closeSubsection := by
  rcases l with ⟨contents, _ | s⟩
  · rfl
  · simp [closeSubsection, mapSpans, subsectionNode, OpenSubsection.mapSpans]

theorem mapSpans_add (l : Layer) (n : Node) :
    (l.add n).mapSpans f = (l.mapSpans f).add (n.mapSpans f) := by
  rcases l with ⟨contents, _ | s⟩ <;> simp [add, mapSpans, OpenSubsection.mapSpans]

theorem mapSpans_openSubsection (l : Layer) (title : String) (span : Span) :
    (l.openSubsection title span).mapSpans f = (l.mapSpans f).openSubsection title (f span) := by
  rw [openSubsection, openSubsection, ← mapSpans_closeSubsection]
  rfl

end Layer

theorem OpenSection.mapSpans_node (o : OpenSection) :
    o.node.mapSpans f = (o.mapSpans f).node := by
  rw [OpenSection.node, OpenSection.node, Node.mapSpans_group, mapSpans,
    ← Layer.mapSpans_closeSubsection]
  rfl

namespace Nesting

theorem mapSpans_mapLayer {g h : Layer → Layer} (hgh : ∀ l, (g l).mapSpans f = h (l.mapSpans f))
    (s : Nesting) : (s.mapLayer g).mapSpans f = (s.mapSpans f).mapLayer h := by
  rcases s with ⟨_ | ⟨o, os⟩, root⟩
  · simp [mapLayer, mapSpans, hgh]
  · simp [mapLayer, mapSpans, OpenSection.mapSpans, hgh]

theorem mapSpans_closeFrom (level : ℕ) (root : Layer) (os : List OpenSection) :
    (closeFrom level root os).mapSpans f
      = closeFrom level (root.mapSpans f) (os.map (OpenSection.mapSpans f)) := by
  fun_induction closeFrom level root os with
  | case1 => exact (closeFrom_nil level (root.mapSpans f)).symm
  | case2 o os hlevel =>
      rw [List.map_cons, closeFrom_of_lt _ (by exact hlevel)]
      rfl
  | case3 o hlevel =>
      rw [List.map_cons, List.map_nil, closeFrom_singleton _ (by exact hlevel),
        ← OpenSection.mapSpans_node, ← Layer.mapSpans_add]
      rfl
  | case4 o hlevel p ps ih =>
      rw [ih, List.map_cons, List.map_cons, List.map_cons, closeFrom_cons_cons _ (by exact hlevel),
        ← OpenSection.mapSpans_node]
      congr 2
      simp only [OpenSection.mapSpans, Layer.mapSpans_add]

theorem mapSpans_closed (s : Nesting) (level : ℕ) :
    (s.closed level).mapSpans f = (s.mapSpans f).closed level := by
  rw [closed, closed, mapSpans_closeFrom, ← mapSpans_mapLayer f (Layer.mapSpans_closeSubsection f)]
  rfl

theorem deepest?_mapSpans (start : Start) (s : Nesting) :
    (s.mapSpans f).deepest? start = s.deepest? start := by
  rcases s with ⟨_ | ⟨o, os⟩, root⟩ <;> rfl

theorem mapSpans_addHeading (s : Nesting) (level : ℕ) (text : List Char) (span : Span) :
    (s.addHeading level text span).mapSpans f
      = (s.mapSpans f).addHeading level text (f span) := by
  unfold addHeading
  split
  · refine mapSpans_mapLayer f (fun l => ?_) s
    rw [Layer.mapSpans_add, Node.mapSpans_leaf]
    rfl
  · rfl

/-- Open sections with other spans make the same tree with these spans. -/
theorem finish_mapSpans (s : Nesting) :
    (s.mapSpans f).finish = s.finish.map (Node.mapSpans f) := by
  rw [finish_eq, finish_eq, ← mapSpans_closed]
  rfl

/-! ## Taking blocks in -/

variable {f} {start : Start} {file file' : Option String} {k : ParseError → ParseError}

/-- What one more block does only depends on where it stands as far as spans and errors do. -/
theorem place_mapSpans {item item' : Item} (hcontent : item'.content = item.content.mapSpans f)
    (hspan : item'.span = f item.span)
    (hk : ∀ problem, k (problemAt file item.line problem) = problemAt file' item'.line problem)
    (s : Nesting) :
    (s.mapSpans f).place start file' item'
      = ((s.place start file item).map (Nesting.mapSpans f)).mapError k := by
  unfold Nesting.place
  rw [hcontent, hspan]
  cases item.content with
  | openFence => exact congrArg Except.error (hk _).symm
  | block node => exact congrArg Except.ok (mapSpans_mapLayer f (Layer.mapSpans_add f · node) s).symm
  | subsection title =>
      refine congrArg Except.ok (mapSpans_mapLayer f (fun l => ?_) s).symm
      exact Layer.mapSpans_openSubsection f l title item.span
  | heading level text =>
      dsimp only [Content.mapSpans]
      rw [← closed, ← closed, ← mapSpans_closed, deepest?_mapSpans]
      cases (s.closed level).deepest? start with
      | none => exact congrArg Except.ok (mapSpans_addHeading f _ level text item.span).symm
      | some deepest =>
          dsimp only
          split
          · exact congrArg Except.error (hk _).symm
          · exact congrArg Except.ok (mapSpans_addHeading f _ level text item.span).symm

/-- What several more blocks do. -/
theorem foldlM_place_mapSpans
    (hk : ∀ line problem, k (problemAt file line problem) = problemAt file' line problem)
    (is : List Item) (s : Nesting) :
    (is.map (Item.mapSpans f)).foldlM (place start file') (s.mapSpans f)
      = ((is.foldlM (place start file) s).map (Nesting.mapSpans f)).mapError k := by
  induction is generalizing s with
  | nil => rfl
  | cons item is ih =>
      have hitem : (item.mapSpans f).content = item.content.mapSpans f := rfl
      rw [List.map_cons, List.foldlM_cons, List.foldlM_cons, place_mapSpans hitem rfl (hk item.line)]
      cases s.place start file item with
      | error e => rfl
      | ok s₁ => exact ih s₁

/-- Blocks with other spans make the same tree with these spans, or the same error in its other place. -/
theorem ofItems_mapSpans
    (hk : ∀ line problem, k (problemAt file line problem) = problemAt file' line problem)
    (is : List Item) :
    ofItems start file' (is.map (Item.mapSpans f))
      = ((ofItems start file is).map (List.map (Node.mapSpans f))).mapError k := by
  have hfold : (is.map (Item.mapSpans f)).foldlM (place start file') empty
      = ((is.foldlM (place start file) empty).map (Nesting.mapSpans f)).mapError k :=
    foldlM_place_mapSpans hk is empty
  rw [ofItems, ofItems, hfold]
  cases is.foldlM (place start file) empty with
  | error e => rfl
  | ok s => exact congrArg Except.ok (finish_mapSpans f s)

end Nesting

/-! ## Documents -/

variable {f} {file file' : Option String}

/-- The span of all lines is moved as they are. -/
theorem sourceSpan_of_moves (hf : Moves f file file' 0 0) (ls : List (List Char)) :
    sourceSpan file' ls = (sourceSpan file ls).map f := by
  cases ls with
  | nil => rfl
  | cons l ls => exact congrArg some ((hf.add 1).linesSpan_eq l ls).symm

end SpecDoc.Markup

namespace SpecDoc

open Markup

/-- A source is read for another file as it is for the first one. Only the spans of a document are others,
and so is the file of an error. -/
theorem Document.parse_of_moves {f : Span → Span} {file file' : Option String}
    {k : ParseError → ParseError} (hf : Moves f file file' 0 0)
    (hk : ∀ line problem,
      k (Nesting.problemAt file line problem) = Nesting.problemAt file' line problem)
    (start : Start) (source : String) :
    Document.parse start file' source
      = ((Document.parse start file source).map (Document.mapSpans f)).mapError k := by
  have hitems : ∀ n ls, items file' n ls = (items file n ls).map (Item.mapSpans f) := by
    intro n ls
    have hn := hf.add n
    rw [Nat.zero_add] at hn
    exact (map_mapSpans_items hn ls).symm
  unfold Document.parse
  dsimp only
  split
  · next n _ => exact congrArg Except.error (hk n _).symm
  · next title n rest _ =>
    rw [hitems, Nesting.ofItems_mapSpans hk]
    cases Nesting.ofItems start file (items file n rest) with
    | error e => rfl
    | ok contents =>
        dsimp only [Except.map, Except.mapError]
        rw [sourceSpan_of_moves hf]
        rfl

end SpecDoc
