import SpecDoc.Proofs.Import.Expansion
import SpecDoc.Proofs.Import.Link
import SpecDoc.Proofs.Markup.Throughout
import SpecDoc.Proofs.Markup.Written

/-!
# Headings that become imports

A heading becomes an import if its text is a link. What a link is, is decided in two places: for a heading, its
target stands behind the last brackets, and for inline text behind the first ones. So they agree exactly for
labels without a closing bracket, and a text with several links becomes an import of the last one.

* `importPath?_eq_some`: a text that becomes an import is written like a link;
* `isSingleLink_linkText_iff`: for inline text, it is one exactly if its label has no closing bracket;
* `Document.isSingleLink_of_mem_importsIn`: all imports of a document come from such headings;
* `not_isSingleLink_twoLinksSource`: an import with a label that has one.
-/

namespace SpecDoc

open Node Text

namespace Markup

/-! ## The text of an import -/

/-- A closed target is not empty and ends at the only parenthesis that closes it. -/
theorem closedTarget?_eq_some {s target : List Char} (h : closedTarget? s = some target) :
    s = target ++ [')'] ∧ target ≠ [] ∧ ')' ∉ target := by
  unfold closedTarget? at h
  dsimp only at h
  split at h
  · next hclosed =>
    obtain ⟨hlast, hne, hnot⟩ := hclosed
    cases h
    obtain ⟨front, rfl⟩ := List.getLast?_eq_some_iff.1 hlast
    rw [List.dropLast_concat] at hne hnot ⊢
    exact ⟨rfl, hne, hnot⟩
  · cases h

/-- The target that is read from a text stands at its end, behind a label. -/
theorem lastTarget?_eq_some {s target : List Char} (h : lastTarget? s = some target) :
    ∃ label, s = label ++ ']' :: '(' :: (target ++ [')']) ∧ target ≠ [] ∧ ')' ∉ target := by
  fun_induction lastTarget? s with
  | case1 => cases h
  | case2 c r behind hbehind ih =>
      cases h
      obtain ⟨label, rfl, htarget⟩ := ih hbehind
      exact ⟨c :: label, rfl, htarget⟩
  | case3 t hnone ih =>
      obtain ⟨rfl, htarget⟩ := closedTarget?_eq_some h
      exact ⟨[], rfl, htarget⟩
  | case4 => cases h

/-- A text that becomes an import is written like a link to its path. -/
theorem importPath?_eq_some {text path : List Char} (h : importPath? text = some path) :
    ∃ label, text = linkText label path ∧ path ≠ [] ∧ ')' ∉ path := by
  unfold importPath? at h
  split at h
  · obtain ⟨label, rfl, hpath⟩ := lastTarget?_eq_some h
    exact ⟨label, rfl, hpath⟩
  · cases h

/-! ## Links in inline text -/

/-- Whether a text is a single link to a path, as inline text. -/
def IsSingleLink (text : List Char) (path : String) : Prop :=
  ∃ contents, inlines text = [.group (.link path) none contents]

/-- The first occurrence of a character is behind a part that does not hold it. -/
theorem splitAtFirst?_append_cons {d : Char} {a : List Char} (ha : d ∉ a) (b : List Char) :
    splitAtFirst? d (a ++ d :: b) = some (a, b) := by
  induction a with
  | nil => rw [List.nil_append, splitAtFirst?, if_pos rfl]
  | cons c a ih =>
      rw [List.mem_cons, not_or] at ha
      rw [List.cons_append, splitAtFirst?, if_neg (Ne.symm ha.1), ih ha.2]
      rfl

/-- A link whose label has no closing bracket is one piece. -/
theorem cutPieces_linkText {label path : List Char} (hlabel : ']' ∉ label) (hpath : ')' ∉ path) :
    cutPieces (linkText label path) = [.link label path] := by
  have hpiece : nextPiece '[' (label ++ ']' :: '(' :: (path ++ [')'])) = (.link label path, []) := by
    simp [nextPiece, splitAtFirst?_append_cons hlabel, splitAtFirst?_append_cons hpath]
  rw [linkText, cutPieces, hpiece, cutPieces]

/-- A link in front of other nodes is a piece in front of others. -/
theorem exists_of_nodesOfPieces_eq_link {label : List Char → List Node} {ps : List Piece} {url : String}
    {span : Option Span} {contents ns : List Node}
    (h : nodesOfPieces label ps = .group (.link url) span contents :: ns) :
    ∃ l target r, ps = .link l target :: r ∧ contents = label l := by
  have htext : ∀ (s : List Char) (ms : List Node),
      consText s ms ≠ .group (.link url) span contents :: ns := by
    intro s ms heq
    unfold consText at heq
    split at heq <;> cases heq
  revert h
  fun_cases nodesOfPieces label ps with
  | case1 => intro h; cases h
  | case2 p r g hg a as b hsplit hlength =>
      intro h
      cases h
      cases p <;> cases hg
  | case3 p r g hg hsplit => exact fun h => absurd h (htext _ _)
  | case4 => intro h; cases h
  | case5 r l target hg =>
      intro h
      cases h
      exact ⟨l, target, r, rfl, rfl⟩
  | case6 p r hg hcode hlink => exact fun h => absurd h (htext _ _)

/-- Whatever becomes a link has a label without a closing bracket. -/
theorem isSingleLink_linkText_iff {label path : List Char} (hpath : ')' ∉ path) :
    IsSingleLink (linkText label path) (String.ofList path) ↔ ']' ∉ label := by
  constructor
  · rintro ⟨contents, hlink⟩
    have hwritten := inlines_written (linkText label path)
    rw [hlink] at hwritten
    obtain ⟨l, target, r, hpieces, rfl⟩ := exists_of_nodesOfPieces_eq_link hlink
    have hl := (written_ne_nil_of_mem_cutPieces (linkText label path) (.link l target)
      (hpieces ▸ List.mem_cons_self)).2 l target rfl
    have heq : l = label := by
      rw [writtenAll, written, writtenAll, writtenAll_labelNodes, String.toList_ofList] at hwritten
      simpa [linkText] using hwritten
    rwa [← heq]
  · intro hlabel
    refine ⟨labelNodes label, ?_⟩
    rw [inlines, cutPieces_linkText hlabel hpath]
    simp [nodesOfPieces, Piece.group?]

end Markup

/-! ## Imports of documents -/

open Markup

/-- Only headings become imports. -/
theorem Node.import?_of_not_isHeading {n : Node} (h : n.kind.isHeading = false) : n.import? = none := by
  unfold import?
  split
  · cases h
  · rfl

/-- Every import of a document is a heading whose text becomes an import. -/
theorem Document.exists_heading?_of_mem_importsIn {start : Start} {file : Option String} {source : String}
    {d : Document} (h : Document.parse start file source = .ok d) :
    ∀ i ∈ importsIn d.contents, ∃ k line level text, (lines source.toList)[k]? = some line ∧
      i.2 = some (linesSpan file (k + 1) line []) ∧ heading? line = some (level, text) ∧
      importPath? text = some i.1.toList := by
  intro i hi
  obtain ⟨node, hnode, himport⟩ := List.mem_filterMap.1 hi
  revert node
  refine Document.everywhere_of_lines (T := fun _ => True) ⟨?_, ?_⟩ ?_ h
  · intro _ _ _ _ himport
    cases himport
  · intro _ _ _ _ _ himport
    cases himport
  intro before rest hlines item hitem
  obtain ⟨front, line, behind, rfl, -, rfl⟩ := exists_of_mem_items hitem
  constructor
  · unfold Item.Satisfies
    split
    · next node hcontent =>
      -- A block is no import, and neither are its parts.
      have hnode := isBlockNode_of_blockContent hcontent
      have hnone : ∀ m : Node, m.kind.isHeading = false → m.import? ≠ some i := by
        intro m hm himport
        rw [import?_of_not_isHeading hm] at himport
        cases himport
      exact everywhere_singleton.2 ⟨fun himport => absurd himport (hnone _ hnode.not_isHeading),
        hnode.parts.mono fun m hm himport => absurd himport (hnone m hm.not_isHeading)⟩
    all_goals trivial
  · rintro level text path hcontent hpath himport
    cases himport
    have hheading := heading?_of_blockContent _ _ hcontent
    refine ⟨before.length + front.length, line, level, text, ?_, ?_, hheading, ?_⟩
    · rw [hlines, ← List.append_assoc, ← List.length_append, List.getElem?_append_right le_rfl,
        Nat.sub_self, List.getElem?_cons_zero]
    · rw [blockItem, blockTail_of_heading? hheading, Nat.add_right_comm]
    · rw [hpath, String.toList_ofList]

/-- **Imports are links with any label.** Every import of a document stands on a line of its own, and the text
of this heading is a link to its path with some label. For inline text it is a single link to this path exactly
if there is no closing bracket in the label. -/
theorem Document.isSingleLink_of_mem_importsIn {start : Start} {file : Option String} {source : String}
    {d : Document} (h : Document.parse start file source = .ok d) :
    ∀ i ∈ importsIn d.contents, ∃ k line level label, (lines source.toList)[k]? = some line ∧
      i.2 = some (linesSpan file (k + 1) line []) ∧
      heading? line = some (level, linkText label i.1.toList) ∧
      (IsSingleLink (linkText label i.1.toList) i.1 ↔ ']' ∉ label) := by
  intro i hi
  obtain ⟨k, line, level, text, hline, hspan, hheading, hpath⟩ :=
    Document.exists_heading?_of_mem_importsIn h i hi
  obtain ⟨label, rfl, -, hclosed⟩ := importPath?_eq_some hpath
  have hlink : IsSingleLink (linkText label i.1.toList) (String.ofList i.1.toList) ↔ ']' ∉ label :=
    isSingleLink_linkText_iff hclosed
  rw [String.ofList_toList] at hlink
  exact ⟨k, line, level, label, hline, hspan, hheading, hlink⟩

/-- A document with two imports. The heading of the second one has two links. -/
def twoLinksSource : String :=
  "# Specification\n\n# [Scope](scope.md)\n\n# [Scope](scope.md) and [Terms](terms.md)\n"

/-- The second heading is a link with a label that has a closing bracket in it, so it is no single link. -/
theorem not_isSingleLink_twoLinks :
    ¬IsSingleLink "[Scope](scope.md) and [Terms](terms.md)".toList "terms.md" := by
  have hlink : IsSingleLink (linkText "Scope](scope.md) and [Terms".toList "terms.md".toList) "terms.md" ↔
      ']' ∉ "Scope](scope.md) and [Terms".toList :=
    isSingleLink_linkText_iff (by decide)
  exact fun h => absurd (hlink.1 h) (by decide)

/-- The imports of a document in which one heading has two links are links with labels. -/
theorem isSingleLink_twoLinksSource :
    ∃ d, Document.parse .initial none twoLinksSource = .ok d ∧
      (importsIn d.contents).map Prod.fst = ["scope.md", "terms.md"] ∧
      ∀ i ∈ importsIn d.contents, ∃ k line level label,
        (lines twoLinksSource.toList)[k]? = some line ∧
          i.2 = some (linesSpan none (k + 1) line []) ∧
          heading? line = some (level, linkText label i.1.toList) ∧
          (IsSingleLink (linkText label i.1.toList) i.1 ↔ ']' ∉ label) := by
  have himports : (Document.parse .initial none twoLinksSource).toOption.map (fun d =>
      (importsIn d.contents).map Prod.fst) = some ["scope.md", "terms.md"] := by
    decide +kernel
  cases hd : Document.parse .initial none twoLinksSource with
  | error e =>
      rw [hd] at himports
      cases himports
  | ok d =>
      rw [hd] at himports
      exact ⟨d, rfl, Option.some.inj himports, Document.isSingleLink_of_mem_importsIn hd⟩

/-- The heading of an import is not always a single link for inline text. -/
theorem not_isSingleLink_twoLinksSource :
    ¬∀ start file source d, Document.parse start file source = .ok d →
      ∀ i ∈ importsIn d.contents, ∀ k line level text, (lines source.toList)[k]? = some line →
        i.2 = some (linesSpan file (k + 1) line []) → heading? line = some (level, text) →
          IsSingleLink text i.1 := by
  intro hclaim
  have hline : (lines twoLinksSource.toList)[4]?
      = some "# [Scope](scope.md) and [Terms](terms.md)".toList := by
    decide +kernel
  have himport : (Document.parse .initial none twoLinksSource).toOption.any (fun d =>
      ("terms.md", some (linesSpan none 5 "# [Scope](scope.md) and [Terms](terms.md)".toList []))
        ∈ importsIn d.contents) = true := by
    decide +kernel
  cases hd : Document.parse .initial none twoLinksSource with
  | error e =>
      rw [hd] at himport
      cases himport
  | ok d =>
      rw [hd] at himport
      have hmem := of_decide_eq_true himport
      exact not_isSingleLink_twoLinks (hclaim _ _ _ d hd _ hmem 4 _ 1 _ hline rfl rfl)

end SpecDoc
