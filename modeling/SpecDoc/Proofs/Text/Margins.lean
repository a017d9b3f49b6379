import Mathlib.Data.List.Forall2
import SpecDoc.Annotation.ContentHash
import SpecDoc.Proofs.Text.Breaks

/-!
# Spaces and tabs at the ends of lines

Lines that differ only in spaces and tabs at their ends are the same once they are trimmed. So texts made
of such lines have the same normal form, and the same digest.

* `SameCore` says so of two lines, and `SameCore.trim_eq` that they are the same when trimmed; `RespacedAt` are
  lines of which some differ in this way;
* `normalizeCode_join`: texts of such lines are normalized to the same.
-/

namespace SpecDoc.Text

/-! ## Trimming -/

/-- Blanks at the start do not matter. -/
theorem trimStart_append_of_allBlank {s : List Char} (hs : allBlank s = true) (t : List Char) :
    trimStart (s ++ t) = trimStart t :=
  List.dropWhile_append_of_pos (List.all_eq_true.1 hs)

/-- Nothing is left of blanks. -/
theorem trimStart_of_allBlank {s : List Char} (hs : allBlank s = true) : trimStart s = [] := by
  rw [← List.append_nil s, trimStart_append_of_allBlank hs, trimStart, List.dropWhile_nil]

/-- Blanks at the end do not matter. -/
theorem trimEnd_append_of_allBlank (s : List Char) {t : List Char} (ht : allBlank t = true) :
    trimEnd (s ++ t) = trimEnd s := by
  induction s with
  | nil => rw [List.nil_append, trimEnd_eq_nil_iff.2 ht, trimEnd]
  | cons c s ih => rw [List.cons_append, trimEnd, trimEnd, ih]

/-- Blanks at either end do not matter. -/
theorem trim_append_append {s t : List Char} (core : List Char) (hs : allBlank s = true)
    (ht : allBlank t = true) : trim (s ++ core ++ t) = trim core := by
  rw [trim, List.append_assoc, trimStart_append_of_allBlank hs, trim, trimStart,
    List.dropWhile_append, ← trimStart, ← trimStart]
  split
  · next hcore => rw [trimStart_of_allBlank ht, List.isEmpty_iff.1 hcore]
  · exact trimEnd_append_of_allBlank _ ht

/-- A text is trimmed at its end to a part at its start. -/
theorem trimEnd_isPrefix (s : List Char) : trimEnd s <+: s := by
  induction s with
  | nil => exact List.prefix_rfl
  | cons c r ih =>
      rw [trimEnd]
      split
      · split
        · exact List.nil_prefix
        · exact ⟨r, rfl⟩
      · next d t hr =>
        rw [hr] at ih
        exact (List.prefix_cons_inj c).2 ih

/-- A text that is trimmed at its start is the end of the text. -/
theorem trimStart_isSuffix (s : List Char) : trimStart s <:+ s := List.dropWhile_suffix isBlank

/-- A trimmed text has characters of the text. -/
theorem trim_subset (s : List Char) : trim s ⊆ s :=
  List.Subset.trans (trimEnd_isPrefix _).subset (trimStart_isSuffix s).subset

/-- There is nothing to trim at the end of a text that was trimmed there. -/
theorem trimEnd_trimEnd (s : List Char) : trimEnd (trimEnd s) = trimEnd s := by
  induction s with
  | nil => rfl
  | cons c r ih =>
      rw [trimEnd]
      split
      · split
        · rfl
        · next hc => rw [trimEnd, trimEnd, if_neg hc]
      · next d t hr =>
        rw [hr] at ih
        rw [trimEnd, ih]

/-- There is nothing to trim in a trimmed text. -/
theorem trim_trim (s : List Char) : trim (trim s) = trim s := by
  have hstart : trimStart (trim s) = trim s := by
    cases htrim : trim s with
    | nil => rfl
    | cons c r =>
        obtain ⟨t, ht⟩ := trimEnd_isPrefix (trimStart s)
        rw [← trim, htrim, List.cons_append] at ht
        have hc : isBlank c = false := trimStart_head ht.symm
        rw [trimStart, List.dropWhile_cons_of_neg (by simp [hc])]
  rw [trim, hstart, trim, trimEnd_trimEnd]

/-! ## Lines with the same core -/

/-- Whether two lines differ at most in spaces and tabs at their ends. -/
def SameCore (l l' : List Char) : Prop :=
  ∃ core before behind before' behind', l = before ++ core ++ behind ∧
    l' = before' ++ core ++ behind' ∧
    ∀ c ∈ before ++ behind ++ (before' ++ behind'), c = ' ' ∨ c = '\t'

namespace SameCore

variable {l l' : List Char}

/-- A line differs in nothing from itself. -/
theorem refl (l : List Char) : SameCore l l := ⟨l, [], [], [], [], by simp, by simp, by simp⟩

/-- The two lines may be exchanged. -/
theorem symm (h : SameCore l l') : SameCore l' l := by
  obtain ⟨core, before, behind, before', behind', hl, hl', hmargins⟩ := h
  refine ⟨core, before', behind', before, behind, hl', hl, fun c hc => hmargins c ?_⟩
  rw [List.mem_append] at hc ⊢
  exact hc.symm

/-- Spaces and tabs are blank. -/
theorem allBlank_of_margin {s : List Char} (hs : ∀ c ∈ s, c = ' ' ∨ c = '\t') : allBlank s = true := by
  rw [allBlank, List.all_eq_true]
  intro c hc
  rcases hs c hc with rfl | rfl <;> decide

/-- Lines with the same core are the same when they are trimmed. -/
theorem trim_eq (h : SameCore l l') : trim l' = trim l := by
  obtain ⟨core, before, behind, before', behind', rfl, rfl, hmargins⟩ := h
  have hblank : ∀ s, (∀ c ∈ s, c ∈ before ++ behind ++ (before' ++ behind')) → allBlank s = true :=
    fun s hs => allBlank_of_margin fun c hc => hmargins c (hs c hc)
  rw [trim_append_append core (hblank before' (by simp +contextual))
    (hblank behind' (by simp +contextual)), trim_append_append core
    (hblank before (by simp +contextual)) (hblank behind (by simp +contextual))]

/-- Lines that are the same but for spaces and tabs around them hold the same other characters. -/
theorem mem_iff (h : SameCore l l') {c : Char} (hspace : c ≠ ' ') (htab : c ≠ '\t') :
    c ∈ l' ↔ c ∈ l := by
  obtain ⟨core, before, behind, before', behind', rfl, rfl, hmargins⟩ := h
  have hnot : c ∉ before ++ behind ++ (before' ++ behind') := by
    intro hc
    rcases hmargins c hc with rfl | rfl
    · exact hspace rfl
    · exact htab rfl
  simp only [List.mem_append, not_or] at hnot ⊢
  simp [hnot]

end SameCore

/-! ## Other spaces in some lines -/

/-- Whether lines are the given ones with other spaces and tabs at the ends of those at some positions. -/
structure RespacedAt (P : ℕ → Prop) (ls ls' : List (List Char)) : Prop where
  length_eq : ls'.length = ls.length
  line : ∀ k l l', ls[k]? = some l → ls'[k]? = some l' → l' = l ∨ P k ∧ SameCore l l'

namespace RespacedAt

variable {P Q : ℕ → Prop} {ls ls' : List (List Char)} {k : ℕ}

/-- The two sequences of lines may be exchanged. -/
theorem symm (h : RespacedAt P ls ls') : RespacedAt P ls' ls where
  length_eq := h.length_eq.symm
  line := by
    intro k l' l hl' hl
    rcases h.line k l l' hl hl' with heq | ⟨hP, hcore⟩
    · exact .inl heq.symm
    · exact .inr ⟨hP, hcore.symm⟩

/-- Lines at more positions may differ. -/
theorem mono (h : RespacedAt P ls ls') (hPQ : ∀ k, P k → Q k) : RespacedAt Q ls ls' where
  length_eq := h.length_eq
  line k l l' hl hl' := (h.line k l l' hl hl').imp_right (And.imp_left (hPQ k))

/-- The lines have the same cores. -/
theorem forall₂ (h : RespacedAt P ls ls') : List.Forall₂ SameCore ls ls' := by
  refine List.forall₂_iff_get.2 ⟨h.length_eq.symm, fun k hk hk' => ?_⟩
  rcases h.line k _ _ (List.getElem?_eq_getElem hk) (List.getElem?_eq_getElem hk') with heq | ⟨-, hcore⟩
  · rw [List.get_eq_getElem, List.get_eq_getElem, heq]
    exact .refl _
  · exact hcore

/-- A line at another position is the same. -/
theorem getElem?_eq (h : RespacedAt P ls ls') (hk : ¬P k) : ls'[k]? = ls[k]? := by
  have hlength := h.length_eq
  rcases Nat.lt_or_ge k ls.length with hlt | hge
  · have hl := List.getElem?_eq_getElem hlt
    have hl' := List.getElem?_eq_getElem (hlength.symm ▸ hlt)
    rcases h.line k _ _ hl hl' with heq | ⟨hP, -⟩
    · rw [hl, hl', heq]
    · exact absurd hP hk
  · rw [List.getElem?_eq_none hge, List.getElem?_eq_none (hlength.symm ▸ hge)]

/-- If none of the lines is at one of the positions, nothing differs. -/
theorem eq (h : RespacedAt P ls ls') (hP : ∀ k < ls.length, ¬P k) : ls' = ls := by
  refine List.ext_getElem? fun k => ?_
  rcases Nat.lt_or_ge k ls.length with hlt | hge
  · exact h.getElem?_eq (hP k hlt)
  · rw [List.getElem?_eq_none hge, List.getElem?_eq_none (h.length_eq.symm ▸ hge)]

/-- If the last line is at none of the positions, it is the same. -/
theorem getLast?_eq (h : RespacedAt P ls ls') (hP : ∀ k, k + 1 = ls.length → ¬P k) :
    ls'.getLast? = ls.getLast? := by
  rw [List.getLast?_eq_getElem?, List.getLast?_eq_getElem?, h.length_eq]
  rcases Nat.eq_zero_or_pos ls.length with hzero | hpos
  · rw [List.length_eq_zero_iff.1 (h.length_eq.trans hzero), List.length_eq_zero_iff.1 hzero]
  · exact h.getElem?_eq (hP _ (Nat.sub_add_cancel hpos))

/-- The first ones of respaced lines are respaced at the same places. -/
theorem take (h : RespacedAt P ls ls') (m : ℕ) : RespacedAt P (ls.take m) (ls'.take m) where
  length_eq := by rw [List.length_take, List.length_take, h.length_eq]
  line := by
    intro k l l' hl hl'
    have hk := (List.getElem?_eq_some_iff.1 hl).1
    rw [List.length_take] at hk
    rw [List.getElem?_take_of_lt (Nat.lt_of_lt_of_le hk (Nat.min_le_left _ _))] at hl hl'
    exact h.line k l l' hl hl'

/-- The lines behind the first ones are respaced where these lines are. -/
theorem drop (h : RespacedAt P ls ls') (m : ℕ) :
    RespacedAt (fun k => P (m + k)) (ls.drop m) (ls'.drop m) where
  length_eq := by rw [List.length_drop, List.length_drop, h.length_eq]
  line := by
    intro k l l' hl hl'
    rw [List.getElem?_drop] at hl hl'
    exact h.line (m + k) l l' hl hl'

end RespacedAt

/-! ## Texts without carriage returns -/

/-- The parts of a text hold characters of it. -/
theorem mem_of_mem_cut {p : Char → Bool} {s w : List Char} {c : Char} (hw : w ∈ cut p s) (hc : c ∈ w) :
    c ∈ s := by
  induction s generalizing w with
  | nil => simp_all [cut]
  | cons d s ih =>
      obtain ⟨v, vs, hs⟩ := exists_cut_eq_cons p s
      cases hd : p d with
      | true =>
          rw [cut_cons_of_pos hd] at hw
          rcases List.mem_cons.1 hw with rfl | hw
          · cases hc
          · exact List.mem_cons_of_mem d (ih hw hc)
      | false =>
          rw [cut_cons_of_neg hd hs] at hw
          rw [hs] at ih
          rcases List.mem_cons.1 hw with rfl | hw
          · rcases List.mem_cons.1 hc with rfl | hc
            · exact List.mem_cons_self
            · exact List.mem_cons_of_mem d (ih List.mem_cons_self hc)
          · exact List.mem_cons_of_mem d (ih (List.mem_cons_of_mem v hw) hc)

/-- Without carriage returns the lines are the parts between the line feeds, the last one only if it is
not empty. -/
theorem lines_eq_take {s : List Char} (h : '\r' ∉ s) :
    lines s = (cut (· == '\n') s).take (if (cut (· == '\n') s).getLast? = some []
      then (cut (· == '\n') s).length - 1 else (cut (· == '\n') s).length) := by
  obtain ⟨ws, w, hcut⟩ : ∃ ws w, cut (· == '\n') s = ws ++ [w] :=
    ⟨_, _, (List.dropLast_concat_getLast (cut_ne_nil _ s)).symm⟩
  have hreturn : ∀ l ∈ ws, dropReturn l = l := by
    intro l hl
    refine dropReturn_eq_self fun hlast => h ?_
    have hmem : l ∈ cut (· == '\n') s := by
      rw [hcut]
      exact List.mem_append_left _ hl
    exact mem_of_mem_cut hmem (List.mem_of_getLast? hlast)
  rw [lines, hcut, closeLines_append ws (List.cons_ne_nil _ _), List.map_congr_left hreturn,
    List.map_id']
  cases w with
  | nil => simp [closeLines]
  | cons c w => simp [closeLines, List.take_of_length_le]

/-! ## Normal forms -/

/-- Texts of lines with the same cores are normalized to the same. -/
theorem normalizeCode_join {ls ls' : List (List Char)} (h : List.Forall₂ SameCore ls ls')
    (hls : ∀ l ∈ ls, IsOneLine l) :
    ContentHash.normalizeCode (String.ofList (join ['\n'] ls'))
      = ContentHash.normalizeCode (String.ofList (join ['\n'] ls)) := by
  have hls' : ∀ l ∈ ls', IsOneLine l := by
    induction h with
    | nil => simp
    | cons hl _ ih =>
        obtain ⟨hfirst, hrest⟩ := List.forall_mem_cons.1 hls
        refine List.forall_mem_cons.2 ⟨⟨?_, ?_⟩, ih hrest⟩
        · rw [hl.mem_iff (by decide) (by decide)]
          exact hfirst.1
        · rw [hl.mem_iff (by decide) (by decide)]
          exact hfirst.2
  have htrim : ls'.map trim = ls.map trim := by
    clear hls hls'
    induction h with
    | nil => rfl
    | cons hl _ ih => rw [List.map_cons, List.map_cons, hl.trim_eq, ih]
  cases h with
  | nil => rfl
  | cons hl h =>
      simp only [ContentHash.normalizeCode, ContentHash.normalize, String.toList_ofList]
      have hread := breaks_join .feed hls (List.cons_ne_nil _ _)
      have hread' := breaks_join .feed hls' (List.cons_ne_nil _ _)
      simp only [LineBreak.chars] at hread hread'
      rw [hread, hread', htrim]

end SpecDoc.Text
