import Mathlib.Data.Nat.Notation
import SpecDoc.Excerpt
import SpecDoc.Proofs.Text.Decimal
import SpecDoc.Proofs.Text.Lines

/-!
# Carets of excerpts

The caret of an excerpt is meant to stand below a column of the line that is shown above it. The number in
front of this line takes three columns, or more if it needs them, but the caret is put behind the same number of
spaces for every line. So from line 1000 on it stands too far to the left.

* `ShowsCaret` says where a line and the caret below it stand, and `PointsAt` that they go together;
* `showsCaret_excerptLines`: where they stand in an excerpt;
* `pointsAt_excerptLines_iff`: in which excerpts they go together;
* `not_pointsAt_sparseSource`: the first line for which they do not.
-/

namespace SpecDoc

open Text

/-! ## Lines with a caret below -/

/-- The lines of an excerpt. Each of them has a line feed behind it. -/
def excerptLines (source : String) (line column : ℕ) : List (List Char) :=
  (cut (· == '\n') (excerpt source line column).toList).dropLast

/-- `ShowsCaret ls text offset indent`: the last but one of the lines shows the text behind `offset` other
characters, and the last one is a caret behind `indent` spaces. -/
def ShowsCaret (ls : List (List Char)) (text : List Char) (offset indent : ℕ) : Prop :=
  ∃ above mark, mark.length = offset ∧
    ls = above ++ [mark ++ text, List.replicate indent ' ' ++ ['^']]

/-- Whether the caret stands below a column of the text, counted from one. -/
def PointsAt (ls : List (List Char)) (text : List Char) (column : ℕ) : Prop :=
  ∃ offset, ShowsCaret ls text offset (offset + (column - 1))

/-- There is only one place where the text and the caret stand. -/
theorem ShowsCaret.unique {ls : List (List Char)} {text : List Char} {i j i' j' : ℕ}
    (h : ShowsCaret ls text i j) (h' : ShowsCaret ls text i' j') : i = i' ∧ j = j' := by
  obtain ⟨above, mark, rfl, rfl⟩ := h
  obtain ⟨above', mark', rfl, heq⟩ := h'
  obtain ⟨-, hlast⟩ := List.append_inj' heq rfl
  obtain ⟨hshown, hcaret⟩ : mark ++ text = mark' ++ text ∧
      List.replicate j ' ' ++ ['^'] = List.replicate j' ' ' ++ ['^'] := by
    simpa using hlast
  constructor
  · exact congrArg List.length (List.append_cancel_right hshown)
  · have hlength := congrArg List.length hcaret
    simpa using hlength

/-- A caret that is known to stand somewhere points at a column if this is the place of the column. -/
theorem ShowsCaret.pointsAt_iff {ls : List (List Char)} {text : List Char} {offset indent : ℕ}
    (h : ShowsCaret ls text offset indent) (column : ℕ) :
    PointsAt ls text column ↔ indent = offset + (column - 1) := by
  constructor
  · rintro ⟨offset', h'⟩
    obtain ⟨rfl, rfl⟩ := h.unique h'
    rfl
  · rintro rfl
    exact ⟨offset, h⟩

/-! ## The lines of an excerpt -/

/-- A number takes three columns, or more if it needs them. -/
theorem length_padNumber (n : ℕ) : (padNumber n).length = max 3 (Nat.repr n).length := by
  rw [padNumber, List.length_append, List.length_replicate, String.length_toList]
  omega

/-- What stands in front of a line that is shown. -/
def lineMark (mark : List Char) (number : ℕ) : List Char := mark ++ padNumber number ++ [' ', '|', ' ']

/-- A mark in front of a line is no line break if what it starts with is none. -/
theorem newline_notMem_lineMark {mark : List Char} (hmark : '\n' ∉ mark) (number : ℕ) :
    '\n' ∉ lineMark mark number := by
  have hdigits : '\n' ∉ (Nat.repr number).toList := mt isDigit_of_mem_repr (by decide)
  have hpad : '\n' ∉ padNumber number := by
    rw [padNumber, List.mem_append, not_or]
    exact ⟨fun hspace => absurd (List.eq_of_mem_replicate hspace) (by decide), hdigits⟩
  rw [lineMark, List.mem_append, not_or, List.mem_append, not_or]
  exact ⟨⟨hmark, hpad⟩, by decide⟩

/-- The line before the one that is shown, if there is one. -/
def linesAbove (ls : List (List Char)) : ℕ → List (List Char)
  | 0 => []
  | n + 1 => [lineMark [' ', ' ', ' '] (n + 1) ++ ls.getD n []]

/-- An excerpt is the line above the one that is shown, this line, and the caret. -/
theorem excerptLines_eq {source : String} {above : ℕ} {text : List Char}
    (htext : (lines source.toList)[above]? = some text) (column : ℕ) :
    excerptLines source (above + 1) column
      = linesAbove (lines source.toList) above ++
        [lineMark ['>', '>', ' '] (above + 1) ++ text,
          List.replicate (9 + (column - 1)) ' ' ++ ['^']] := by
  have hline : ∀ l ∈ lines source.toList, '\n' ∉ l := fun l hl hmem => ne_newline_of_mem_lines hl hmem rfl
  have habove : ∀ l ∈ linesAbove (lines source.toList) above, '\n' ∉ l := by
    cases above with
    | zero => simp [linesAbove]
    | succ n =>
        refine List.forall_mem_singleton.2 ?_
        rw [List.mem_append, not_or, List.getD_eq_getElem?_getD]
        refine ⟨newline_notMem_lineMark (by decide) _, ?_⟩
        cases hl : (lines source.toList)[n]? with
        | none => simp
        | some l => exact hline l (List.mem_of_getElem? hl)
  have hall : ∀ l ∈ linesAbove (lines source.toList) above ++
      [lineMark ['>', '>', ' '] (above + 1) ++ text, List.replicate (9 + (column - 1)) ' ' ++ ['^']],
      '\n' ∉ l := by
    refine List.forall_mem_append.2 ⟨habove, List.forall_mem_cons.2 ⟨?_, List.forall_mem_singleton.2 ?_⟩⟩
    · rw [List.mem_append, not_or]
      exact ⟨newline_notMem_lineMark (by decide) _, hline _ (List.mem_of_getElem? htext)⟩
    · rw [List.mem_append, not_or]
      exact ⟨fun hspace => absurd (List.eq_of_mem_replicate hspace) (by decide), by decide⟩
  have hexcerpt : (excerpt source (above + 1) column).toList
      = (linesAbove (lines source.toList) above ++
        [lineMark ['>', '>', ' '] (above + 1) ++ text,
          List.replicate (9 + (column - 1)) ' ' ++ ['^']]).flatMap fun l => l ++ ['\n'] := by
    simp only [excerpt, htext, String.toList_ofList]
    cases above <;> simp [linesAbove, lineMark, quoteLine, caretLine]
  rw [excerptLines, hexcerpt, cut_flatMap_concat hall, List.dropLast_concat]

/-- The text stands behind its number, and the caret behind the spaces that a number of three digits needs. -/
theorem showsCaret_excerptLines {source : String} {above : ℕ} {text : List Char}
    (htext : (lines source.toList)[above]? = some text) (column : ℕ) :
    ShowsCaret (excerptLines source (above + 1) column) text (6 + max 3 (Nat.repr (above + 1)).length)
      (9 + (column - 1)) := by
  refine ⟨linesAbove (lines source.toList) above, lineMark ['>', '>', ' '] (above + 1), ?_,
    excerptLines_eq htext column⟩
  rw [lineMark, List.length_append, List.length_append, length_padNumber]
  simp only [List.length_cons, List.length_nil]
  omega

/-- **Carets up to line 999.** The last line of an excerpt is a caret behind spaces, and it is never too far to
the right. It stands below its column exactly if the number of the line has three digits at most. -/
theorem pointsAt_excerptLines_iff {source : String} {above : ℕ} {text : List Char}
    (htext : (lines source.toList)[above]? = some text) (column : ℕ) :
    (∃ offset indent, ShowsCaret (excerptLines source (above + 1) column) text offset indent ∧
      indent ≤ offset + (column - 1)) ∧
      (PointsAt (excerptLines source (above + 1) column) text column ↔ above + 1 < 1000) := by
  have hshows := showsCaret_excerptLines htext column
  refine ⟨⟨_, _, hshows, by omega⟩, ?_⟩
  have hdigits : (Nat.repr (above + 1)).length ≤ 3 ↔ above + 1 < 10 ^ 3 :=
    Nat.length_repr_le_iff (by decide)
  rw [hshows.pointsAt_iff column]
  omega

/-- A source with a single character, below so many lines that are empty. -/
def sparseSource (above : ℕ) : String := String.ofList (List.replicate above '\n' ++ ['x'])

/-- The character stands on the last line. -/
theorem getElem?_lines_sparseSource (above : ℕ) :
    (lines (sparseSource above).toList)[above]? = some ['x'] := by
  rw [sparseSource, String.toList_ofList]
  induction above with
  | zero => rfl
  | succ n ih =>
      rw [List.replicate_succ, List.cons_append, lines_cons_newline, List.getElem?_cons_succ]
      exact ih

/-- The caret for a column stands below it on line 999, and on line 1000 no longer. -/
theorem pointsAt_excerptLines_sparseSource :
    (lines (sparseSource 998).toList)[998]? = some ['x'] ∧
      PointsAt (excerptLines (sparseSource 998) 999 1) ['x'] 1 ∧
      (lines (sparseSource 999).toList)[999]? = some ['x'] ∧
      ¬PointsAt (excerptLines (sparseSource 999) 1000 1) ['x'] 1 := by
  have hbefore := getElem?_lines_sparseSource 998
  have hbehind := getElem?_lines_sparseSource 999
  refine ⟨hbefore, ?_, hbehind, ?_⟩
  · exact (pointsAt_excerptLines_iff hbefore 1).2.2 (by decide)
  · exact fun h => absurd ((pointsAt_excerptLines_iff hbehind 1).2.1 h) (by decide)

/-- Not every caret stands below its column. -/
theorem not_pointsAt_sparseSource :
    ¬∀ (source : String) (above column : ℕ) (text : List Char),
      (lines source.toList)[above]? = some text → 1 ≤ column → column ≤ text.length + 1 →
        PointsAt (excerptLines source (above + 1) column) text column := by
  intro hclaim
  have hshown := getElem?_lines_sparseSource 999
  have hpoints := hclaim (sparseSource 999) 999 1 ['x'] hshown (by decide) (by decide)
  rw [(showsCaret_excerptLines hshown 1).pointsAt_iff 1] at hpoints
  exact absurd hpoints (by decide)

end SpecDoc
