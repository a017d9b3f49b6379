import SpecDoc.Proofs.Markup.Throughout
import SpecDoc.Proofs.Text.Margins

/-!
# Texts that are read from lines

What a recogniser takes from a line consists of characters of the line. So a title and a name stand on one
line, and so does the text of a paragraph, whose lines are joined by spaces.

* `heading?_subset`, `subsection?_subset`, `algorithm?_subset` and `production?_subset`: titles and names;
* `newline_notMem_flowText`: the text of a paragraph;
* `isWord_lang_ofText`: the language of code is a word.
-/

namespace SpecDoc

namespace Markup

open Text

/-! ## Titles -/

/-- The text of a heading is part of its line. -/
theorem heading?_subset {line text : List Char} {level : ℕ}
    (h : heading? line = some (level, text)) : text ⊆ line := by
  unfold heading? at h
  dsimp only at h
  split at h
  · cases h
  · next c r hrest =>
    split at h
    · cases h
      have hsuffix : c :: r <:+ line := hrest ▸ List.dropWhile_suffix _
      exact List.Subset.trans (trim_subset _) hsuffix.subset
    · cases h

/-- The title of a heading is part of its text. -/
theorem headingTitle_subset (text : List Char) : (headingTitle text).toList ⊆ text := by
  unfold headingTitle
  rw [String.toList_ofList]
  cases htoken : numberingToken? text with
  | none => exact List.Subset.refl text
  | some p =>
      rw [numberingToken?, Option.ite_none_right_eq_some, Option.some.injEq] at htoken
      obtain ⟨-, rfl⟩ := htoken
      exact List.Subset.trans (trimStart_isSuffix _).subset (List.dropWhile_suffix _).subset

/-- The title of a subsection is part of its line. -/
theorem subsection?_subset {line title : List Char} (h : subsection? line = some title) :
    title ⊆ line := by
  unfold subsection? at h
  split at h
  · next r =>
    dsimp only at h
    split at h
    · split at h
      · cases h
        have hrun : r.takeWhile (· != '*') ⊆ r := (List.takeWhile_prefix _).subset
        have htitle := List.Subset.trans (trim_subset _) hrun
        exact List.Subset.trans htitle (by simp)
      · cases h
    · cases h
  · cases h

/-! ## Names -/

/-- A name that a line starts with is part of the line. -/
theorem wordName?_subset {s name rest : List Char} (h : wordName? s = some (name, rest)) :
    name ⊆ s := by
  unfold wordName? at h
  split at h
  · cases h
  · next c r =>
    split at h
    · cases h
      exact List.cons_subset_cons c (List.takeWhile_prefix _).subset
    · cases h

/-- The name of an algorithm is part of its line. -/
theorem algorithm?_subset {line name args : List Char} (h : algorithm? line = some (name, args)) :
    name ⊆ line := by
  unfold algorithm? at h
  split at h
  · next name' r hname =>
    have hsubset := wordName?_subset hname
    repeat' split at h
    all_goals cases h
    exact hsubset
  · cases h

/-- The name of a production is a capital letter with a run of characters for names behind it. -/
theorem productionName?_eq_some {s name rest : List Char} (h : productionName? s = some (name, rest)) :
    ∃ c r, s = c :: r ∧ c.isUpper = true ∧ name = c :: r.takeWhile isNameChar ∧
      rest = r.dropWhile isNameChar := by
  unfold productionName? at h
  split at h
  · cases h
  · next c r =>
    split at h
    · next hupper =>
      cases h
      exact ⟨c, r, rfl, hupper, rfl, rfl⟩
    · cases h

/-- A production starts with its name. -/
theorem exists_productionName?_of_production? {line name text : List Char} {colons : ℕ}
    (h : production? line = some (name, colons, text)) :
    ∃ rest, productionName? line = some (name, rest) := by
  unfold production? at h
  split at h
  · next name' c r hname =>
    dsimp only at h
    split at h
    · cases h
      exact ⟨_, hname⟩
    · cases h
  · cases h

/-- The name of a production is part of its line. -/
theorem production?_subset {line name text : List Char} {colons : ℕ}
    (h : production? line = some (name, colons, text)) : name ⊆ line := by
  obtain ⟨rest, hname⟩ := exists_productionName?_of_production? h
  obtain ⟨c, r, rfl, -, rfl, -⟩ := productionName?_eq_some hname
  exact List.cons_subset_cons c (List.takeWhile_prefix _).subset

/-! ## Text over several lines -/

/-- The lines of a paragraph are put on one line. -/
theorem newline_notMem_flowText {first : List Char} {more : List (List Char)} (hfirst : '\n' ∉ first)
    (hmore : ∀ l ∈ more, '\n' ∉ l) : '\n' ∉ flowText first more := by
  intro hmem
  rw [flowText, List.mem_append, List.mem_flatMap] at hmem
  rcases hmem with hmem | ⟨l, hl, hmem⟩
  · exact hfirst (trim_subset first hmem)
  · rw [List.mem_cons] at hmem
    rcases hmem with hspace | hmem
    · cases hspace
    · exact hmore l hl (trim_subset l hmem)

/-- The text of a definition is part of its line. -/
theorem definition?_subset {line text : List Char} (h : definition? line = some text) :
    text ⊆ line := by
  unfold definition? at h
  split at h
  · cases h
    simp
  · cases h

/-! ## Code -/

/-- Whether a text holds no blanks. -/
def IsWord (s : List Char) : Prop := ∀ c ∈ s, isBlank c = false

/-- One more word is a flag or the language, if it does not come too late. -/
theorem isWord_lang_add {info : FenceInfo} {word : List Char} (hword : IsWord word)
    (hinfo : ∀ lang, info.lang = some lang → IsWord lang.toList) :
    ∀ lang, (info.add word).lang = some lang → IsWord lang.toList := by
  intro lang hlang
  unfold FenceInfo.add at hlang
  repeat' split at hlang
  · exact hinfo lang hlang
  · exact hinfo lang hlang
  · cases hlang
    rw [String.toList_ofList]
    exact hword
  · exact hinfo lang hlang

/-- The language of code is a word. -/
theorem isWord_lang_ofText (text : List Char) :
    ∀ lang, (FenceInfo.ofText text).lang = some lang → IsWord lang.toList := by
  have hfold : ∀ (ws : List (List Char)), (∀ w ∈ ws, IsWord w) → ∀ info : FenceInfo,
      (∀ lang, info.lang = some lang → IsWord lang.toList) →
        ∀ lang, (ws.foldl FenceInfo.add info).lang = some lang → IsWord lang.toList := by
    intro ws
    induction ws with
    | nil => exact fun _ info hinfo => hinfo
    | cons w ws ih =>
        intro hws info hinfo
        obtain ⟨hw, hws⟩ := List.forall_mem_cons.1 hws
        exact ih hws (info.add w) (isWord_lang_add hw hinfo)
  have hwords : ∀ w ∈ words text, IsWord w := fun w hw c hc => isBlank_eq_false_of_mem_words hw hc
  exact hfold (words text) hwords ⟨none, false, false⟩ (by simp)

end Markup

end SpecDoc
