import SpecDoc.Proofs.Text.Margins

/-!
# Normal forms of content

The normal form of a text says what its trimmed lines are, and nothing else. So blanks at the ends of lines and
the kind of line break do not matter to it, and two texts with one normal form have the same trimmed lines.

* `trimmedLines_normalizeCode`: the trimmed lines of a text are found again in its normal form;
* `normalized_joined`: the normal forms of lines that were padded and joined;
* `normalize_canonical`: the normal form is canonical.
-/

namespace SpecDoc.ContentHash

open Text

/-! ## Trimmed lines -/

/-- The lines of a text without the blanks at their ends. -/
def trimmedLines (text : String) : List (List Char) := (breaks text.toList).map trim

/-- The normal form of code has the trimmed lines of the text. -/
theorem normalizeCode_eq (text : String) :
    normalizeCode text = String.ofList (join ['\n'] (trimmedLines text)) := rfl

/-- The normal form of prose has them in one line. -/
theorem normalizeProse_eq (text : String) :
    normalizeProse text = String.ofList (join [' '] (trimmedLines text)) := rfl

/-- A trimmed line is still one line. -/
theorem isOneLine_of_mem_trimmedLines {text : String} {l : List Char} (hl : l ∈ trimmedLines text) :
    IsOneLine l := by
  obtain ⟨raw, hraw, rfl⟩ := List.mem_map.1 hl
  exact (isOneLine_of_mem_breaks hraw).of_subset (trim_subset raw)

/-- There is nothing to trim in a trimmed line. -/
theorem map_trim_trimmedLines (text : String) : (trimmedLines text).map trim = trimmedLines text := by
  rw [trimmedLines, List.map_map]
  exact List.map_congr_left fun l _ => trim_trim l

/-- The trimmed lines of a text are those of its normal form. -/
theorem trimmedLines_normalizeCode (text : String) :
    trimmedLines (normalizeCode text) = trimmedLines text := by
  have hne : trimmedLines text ≠ [] := by
    rw [trimmedLines, ne_eq, List.map_eq_nil_iff]
    exact breaks_ne_nil _
  have hbreaks : breaks (normalizeCode text).toList = trimmedLines text := by
    rw [normalizeCode_eq, String.toList_ofList]
    exact breaks_join .feed (fun l hl => isOneLine_of_mem_trimmedLines hl) hne
  rw [trimmedLines, hbreaks, map_trim_trimmedLines]

/-! ## Padded lines -/

/-- Whether a text consists of blanks that break no line. -/
def IsPadding (s : List Char) : Prop := allBlank s = true ∧ IsOneLine s

/-- Whether a line is another one with blanks around it. -/
def Padded (l padded : List Char) : Prop :=
  ∃ before behind, IsPadding before ∧ IsPadding behind ∧ padded = before ++ l ++ behind

/-- A padded line is trimmed to the same. -/
theorem Padded.trim_eq {l padded : List Char} (h : Padded l padded) : trim padded = trim l := by
  obtain ⟨before, behind, hbefore, hbehind, rfl⟩ := h
  exact trim_append_append l hbefore.1 hbehind.1

/-- A padded line is one line. -/
theorem Padded.isOneLine {l padded : List Char} (h : Padded l padded) (hl : IsOneLine l) :
    IsOneLine padded := by
  obtain ⟨before, behind, hbefore, hbehind, rfl⟩ := h
  exact isOneLine_append.2 ⟨isOneLine_append.2 ⟨hbefore.2, hl⟩, hbehind.2⟩

/-- Lines that were padded and joined are found again, but for their blanks. No line at all is joined to an empty
one. -/
theorem trimmedLines_joined (b : LineBreak) {ls padded : List (List Char)}
    (hls : ∀ l ∈ ls, IsOneLine l) (hpadded : List.Forall₂ Padded ls padded) :
    trimmedLines (String.ofList (join b.chars padded)) = if ls = [] then [[]] else ls.map trim := by
  have hone : ∀ l ∈ padded, IsOneLine l := by
    induction hpadded with
    | nil => simp
    | cons hl _ ih =>
        obtain ⟨hfirst, hrest⟩ := List.forall_mem_cons.1 hls
        exact List.forall_mem_cons.2 ⟨hl.isOneLine hfirst, ih hrest⟩
  have htrim : padded.map trim = ls.map trim := by
    clear hls hone
    induction hpadded with
    | nil => rfl
    | cons hl _ ih => rw [List.map_cons, List.map_cons, hl.trim_eq, ih]
  rw [trimmedLines, String.toList_ofList]
  cases hpadded with
  | nil => rfl
  | cons _ _ =>
      rw [breaks_join b hone (List.cons_ne_nil _ _), htrim, if_neg (List.cons_ne_nil _ _)]

/-- The normal forms of padded lines are made of the trimmed lines, whatever the padding and the breaks are. -/
theorem normalized_joined (b : LineBreak) {ls padded : List (List Char)}
    (hls : ∀ l ∈ ls, IsOneLine l) (hpadded : List.Forall₂ Padded ls padded) :
    normalizeCode (String.ofList (join b.chars padded)) = String.ofList (join ['\n'] (ls.map trim)) ∧
      normalizeProse (String.ofList (join b.chars padded)) = String.ofList (join [' '] (ls.map trim)) := by
  rw [normalizeCode_eq, normalizeProse_eq, trimmedLines_joined b hls hpadded]
  split
  · next hnil =>
    subst hnil
    exact ⟨rfl, rfl⟩
  · exact ⟨rfl, rfl⟩

/-! ## The normal form -/

/-- **Normal forms of content.** Lines without breaks may be padded at both ends by blanks that are no breaks, and
joined by breaks of any one kind: the normal form of code is the trimmed lines with line feeds between them, that of
prose the same with spaces. The normal form of code is its own normal form, and it is the same for two texts
exactly if they have the same trimmed lines. -/
theorem normalize_canonical :
    (∀ (b : LineBreak) (ls padded : List (List Char)), (∀ l ∈ ls, IsOneLine l) →
      List.Forall₂ Padded ls padded →
        normalizeCode (String.ofList (join b.chars padded)) = String.ofList (join ['\n'] (ls.map trim)) ∧
        normalizeProse (String.ofList (join b.chars padded))
          = String.ofList (join [' '] (ls.map trim))) ∧
      (∀ text, normalizeCode (normalizeCode text) = normalizeCode text) ∧
      ∀ s t, normalizeCode s = normalizeCode t ↔ trimmedLines s = trimmedLines t := by
  refine ⟨fun b ls padded hls hpadded => normalized_joined b hls hpadded, ?_, ?_⟩
  · intro text
    rw [normalizeCode_eq (normalizeCode text), trimmedLines_normalizeCode, ← normalizeCode_eq]
  · intro s t
    constructor
    · intro heq
      rw [← trimmedLines_normalizeCode s, heq, trimmedLines_normalizeCode]
    · intro hlines
      rw [normalizeCode_eq, normalizeCode_eq, hlines]

/-- A line with a tab, a form feed and a next-line character around it, and an empty one, with carriage returns
between them. -/
theorem normalize_canonical_field :
    (∀ l ∈ ["a  b".toList, []], IsOneLine l) ∧
      List.Forall₂ Padded ["a  b".toList, []] ["\t\x0ca  b\u0085".toList, "\u3000".toList] ∧
      normalizeCode "\t\x0ca  b\u0085\r\u3000" = "a  b\n" ∧
      normalizeProse "\t\x0ca  b\u0085\r\u3000" = "a  b " := by
  have hls : ∀ l ∈ ["a  b".toList, []], IsOneLine l := by
    intro l hl
    rcases List.mem_pair.1 hl with rfl | rfl <;> exact ⟨by decide, by decide⟩
  have hpadded : List.Forall₂ Padded ["a  b".toList, []] ["\t\x0ca  b\u0085".toList, "\u3000".toList] := by
    refine .cons ⟨['\t', '\x0c'], ['\u0085'], ?_, ?_, by decide⟩
      (.cons ⟨['\u3000'], [], ?_, ?_, by decide⟩ .nil) <;>
      exact ⟨by decide, by decide, by decide⟩
  have hnormal := normalize_canonical.1 .carriageReturn _ _ hls hpadded
  exact ⟨hls, hpadded, hnormal.1, hnormal.2⟩

end SpecDoc.ContentHash
