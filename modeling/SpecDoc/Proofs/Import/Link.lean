import SpecDoc.Import.Resolve
import SpecDoc.Proofs.Markup.Blocks
import SpecDoc.Proofs.Path
import SpecDoc.Proofs.Text.Lines
import SpecDoc.Proofs.Text.Utf8

/-!
# Imports of files next to a file

A heading whose text is a link imports the file that the link names. If the name is plain, this is
the file of that name in the same directory.

* `isPlainName` are the names that mean nothing else in a path or a link;
* `bareItems_importHeading`: the heading is one block, and `importPath?_linkText` is the name in it;
* `importTarget_of_isPlainName`: the name leads to the file next to the one that imports it.
-/

namespace SpecDoc

open Markup Text

/-! ## Plain names -/

/-- Whether a character has no meaning of its own in a path or in the target of a link. -/
def isPlainChar (c : Char) : Bool := c != '/' && c != '%' && c != ']' && c != ')'

/-- A plain file name: it is the name of a file, and no part of it means anything else. -/
def isPlainName (name : List Char) : Bool :=
  name.all isPlainChar && !name.isEmpty && name != ['.'] && name != ['.', '.']

section Plain

variable {name : List Char} (h : isPlainName name = true)

include h

/-- A plain name has plain characters only. -/
theorem not_mem_of_isPlainName {c : Char} (hc : isPlainChar c = false) : c ∉ name := by
  intro hmem
  simp only [isPlainName, Bool.and_eq_true] at h
  rw [List.all_eq_true.1 h.1.1.1 c hmem] at hc
  cases hc

/-- A plain name is not empty, nor does it name a directory. -/
theorem ne_of_isPlainName : name ≠ [] ∧ name ≠ ['.'] ∧ name ≠ ['.', '.'] := by
  simp only [isPlainName, Bool.and_eq_true, Bool.not_eq_eq_eq_not, Bool.not_true,
    List.isEmpty_eq_false_iff, bne_iff_ne] at h
  exact ⟨h.1.1.2, h.1.2, h.2⟩

/-- A plain name is a path of one step. -/
theorem ofString_of_isPlainName :
    Path.ofString (String.ofList name) = ⟨false, [.into (String.ofList name)]⟩ := by
  obtain ⟨hne, hcurrent, hup⟩ := ne_of_isPlainName h
  have hslash : ∀ c ∈ name, (c == '/') = false := by
    intro c hc
    refine beq_false_of_ne ?_
    rintro rfl
    exact not_mem_of_isPlainName h (by decide) hc
  have habsolute : (name.head? == some '/') = false := by
    cases name with
    | nil => rfl
    | cons c r => simpa using hslash c List.mem_cons_self
  have hstep : Path.stepOfPart name = some (.into (String.ofList name)) := by
    rw [Path.stepOfPart, if_neg (not_or.2 ⟨hne, hcurrent⟩), if_neg hup]
  rw [Path.ofString, String.toList_ofList, habsolute, cut_eq_singleton hslash,
    List.filterMap_cons_some hstep, List.filterMap_nil]

/-- The import of a plain name leads to the file of that name next to the one that imports it. -/
theorem importTarget_of_isPlainName {path : Path} (hpath : path.IsNormal) :
    importTarget path (String.ofList name) = path.sibling (String.ofList name) := by
  have hpercent : '%' ∉ name := not_mem_of_isPlainName h (by decide)
  rw [importTarget, String.toList_ofList, percentDecode_eq_self hpercent,
    ofString_of_isPlainName h, ← Path.sibling, Path.normalize_eq_self_iff.2 (hpath.sibling _)]

end Plain

/-! ## Import headings -/

/-- A link. -/
def linkText (label name : List Char) : List Char :=
  '[' :: (label ++ ']' :: '(' :: (name ++ [')']))

/-- A heading that imports a file. -/
def importHeading (label name : List Char) : List Char := '#' :: ' ' :: linkText label name

/-- A text that does not end with a blank has none to take off its end. -/
theorem trimEnd_concat {c : Char} (hc : isBlank c = false) (s : List Char) :
    trimEnd (s ++ [c]) = s ++ [c] := by
  induction s with
  | nil => simp [trimEnd, hc]
  | cons d s ih =>
      rw [List.cons_append, trimEnd, ih]
      cases s <;> rfl

/-- An import heading has the link as its text. -/
theorem heading?_importHeading (label name : List Char) :
    heading? (importHeading label name) = some (1, linkText label name) := by
  have htrim : trim (' ' :: linkText label name) = linkText label name := by
    have hend : linkText label name = ('[' :: (label ++ ']' :: '(' :: name)) ++ [')'] := by
      simp [linkText]
    rw [trim, show trimStart (' ' :: linkText label name) = linkText label name from rfl, hend,
      trimEnd_concat (by decide)]
  rw [← htrim]
  rfl

/-- Without a closing bracket there is no link. -/
theorem lastTarget?_eq_none {s : List Char} (h : ']' ∉ s) : lastTarget? s = none := by
  induction s with
  | nil => rfl
  | cons c s ih =>
      rw [List.mem_cons, not_or] at h
      rw [lastTarget?.eq_def]
      dsimp only
      rw [ih h.2]
      dsimp only
      split
      · exact absurd rfl h.1
      · rfl

/-- What is in front of a link does not matter. -/
theorem lastTarget?_append {s target : List Char} (h : lastTarget? s = some target)
    (label : List Char) : lastTarget? (label ++ s) = some target := by
  induction label with
  | nil => exact h
  | cons c label ih =>
      rw [List.cons_append, lastTarget?.eq_def]
      dsimp only
      rw [ih]

/-- The link names the file. -/
theorem importPath?_linkText (label : List Char) {name : List Char}
    (h : isPlainName name = true) : importPath? (linkText label name) = some name := by
  have hbracket : ']' ∉ '(' :: (name ++ [')']) := by
    have := not_mem_of_isPlainName h (c := ']') (by decide)
    simpa using this
  have htarget : closedTarget? (name ++ [')']) = some name := by
    have hne : name ≠ [] := (ne_of_isPlainName h).1
    have hclosed : ')' ∉ name := not_mem_of_isPlainName h (by decide)
    simp [closedTarget?, hne, hclosed]
  -- Behind the bracket in front of the target there is no other one.
  refine lastTarget?_append ?_ label
  rw [lastTarget?, lastTarget?_eq_none hbracket]
  exact htarget

/-- An import heading is one block. -/
theorem bareItems_importHeading (label name : List Char) :
    bareItems [importHeading label name]
      = [⟨1, .origin, .heading 1 (linkText label name)⟩] := by
  rw [bareItems, items_of_heading? none (heading?_importHeading label name)]
  rfl

end SpecDoc
