import SpecDoc.Proofs.Text.Lines

/-!
# Lines between breaks

A line feed, a carriage return and the two together are line breaks, so a text may be put together from lines
with any of them. A carriage return needs care, because a line feed right behind it belongs to the same break; but
no line starts with a line feed.

* `isOneLine_of_mem_breaks`: what is between the breaks of a text holds no break;
* `breaks_join`: lines that were joined by breaks of one kind are found again.
-/

namespace SpecDoc.Text

/-! ## Lines -/

/-- Whether a line holds no line break. -/
def IsOneLine (l : List Char) : Prop := '\n' ∉ l ∧ '\r' ∉ l

/-- A text made of parts holds no break if none of the parts does. -/
theorem isOneLine_append {s t : List Char} : IsOneLine (s ++ t) ↔ IsOneLine s ∧ IsOneLine t := by
  simp only [IsOneLine, List.mem_append, not_or]
  exact and_and_and_comm

/-- A text of characters of a line holds no break. -/
theorem IsOneLine.of_subset {s t : List Char} (ht : IsOneLine t) (h : s ⊆ t) : IsOneLine s :=
  ⟨fun hfeed => ht.1 (h hfeed), fun hreturn => ht.2 (h hreturn)⟩

/-- A character that is in no part is not in the parts joined by others. -/
theorem not_mem_join {c : Char} {sep : List Char} {ls : List (List Char)} (hsep : c ∉ sep)
    (hls : ∀ l ∈ ls, c ∉ l) : c ∉ join sep ls := by
  induction ls with
  | nil => simp [join]
  | cons l ls ih =>
      obtain ⟨hl, hls⟩ := List.forall_mem_cons.1 hls
      cases ls with
      | nil => exact hl
      | cons m ms =>
          simp only [join, List.mem_append, not_or]
          exact ⟨⟨hl, hsep⟩, ih hls⟩

/-! ## Breaks -/

/-- A kind of line break. -/
inductive LineBreak where
  | feed
  | returnFeed
  | carriageReturn
deriving DecidableEq

/-- The characters of a line break. -/
def LineBreak.chars : LineBreak → List Char
  | .feed => ['\n']
  | .returnFeed => ['\r', '\n']
  | .carriageReturn => ['\r']

/-- A character that is no break joins the first part of what follows. -/
theorem breaks_cons {c : Char} (hfeed : c ≠ '\n') (hreturn : c ≠ '\r') {s w : List Char}
    {ws : List (List Char)} (hs : breaks s = w :: ws) : breaks (c :: s) = (c :: w) :: ws := by
  rw [breaks]
  · rw [if_neg (not_or.2 ⟨hfeed, hreturn⟩), hs]
  · exact fun _ h _ => hreturn h

/-- A text without breaks joins the first part of what follows. -/
theorem breaks_append {l : List Char} (hl : IsOneLine l) {s w : List Char} {ws : List (List Char)}
    (hs : breaks s = w :: ws) : breaks (l ++ s) = (l ++ w) :: ws := by
  induction l with
  | nil => exact hs
  | cons c l ih =>
      obtain ⟨hfeed, hreturn⟩ := hl
      rw [List.mem_cons, not_or] at hfeed hreturn
      exact breaks_cons (Ne.symm hfeed.1) (Ne.symm hreturn.1) (ih ⟨hfeed.2, hreturn.2⟩)

/-- A text without breaks is one line. -/
theorem breaks_eq_singleton {l : List Char} (hl : IsOneLine l) : breaks l = [l] := by
  have h := breaks_append hl (show breaks [] = [[]] by rfl)
  rwa [List.append_nil] at h

/-- A break closes an empty first part. A line feed behind a carriage return would belong to it. -/
theorem breaks_chars_append {b : LineBreak} {s : List Char}
    (hs : b = .carriageReturn → s.head? ≠ some '\n') : breaks (b.chars ++ s) = [] :: breaks s := by
  cases b with
  | feed =>
      show breaks ('\n' :: s) = _
      rw [breaks]
      · exact if_pos (.inl rfl)
      · exact fun _ h _ => absurd h (by decide)
  | returnFeed => rfl
  | carriageReturn =>
      show breaks ('\r' :: s) = _
      rw [breaks]
      · exact if_pos (.inr rfl)
      · rintro r - rfl
        exact hs rfl rfl

/-- What is between the breaks of a text holds no break. -/
theorem isOneLine_of_mem_breaks {s l : List Char} (hl : l ∈ breaks s) : IsOneLine l := by
  have hempty : IsOneLine [] := ⟨List.not_mem_nil, List.not_mem_nil⟩
  fun_induction breaks s generalizing l with
  | case1 => exact List.mem_singleton.1 hl ▸ hempty
  | case2 r ih =>
      rcases List.mem_cons.1 hl with rfl | hl
      · exact hempty
      · exact ih hl
  | case3 c r _ _ ih =>
      rcases List.mem_cons.1 hl with rfl | hl
      · exact hempty
      · exact ih hl
  | case4 c r _ hc _ =>
      obtain ⟨hfeed, hreturn⟩ := not_or.1 hc
      rw [List.mem_singleton.1 hl]
      exact ⟨by simpa using Ne.symm hfeed, by simpa using Ne.symm hreturn⟩
  | case5 c r _ hc w ws hr ih =>
      obtain ⟨hfeed, hreturn⟩ := not_or.1 hc
      rcases List.mem_cons.1 hl with rfl | hl
      · obtain ⟨hwfeed, hwreturn⟩ := ih (hr ▸ List.mem_cons_self)
        exact ⟨by simpa using ⟨Ne.symm hfeed, hwfeed⟩, by simpa using ⟨Ne.symm hreturn, hwreturn⟩⟩
      · exact ih (hr ▸ List.mem_cons_of_mem w hl)

/-- Every text has a first line. -/
theorem breaks_ne_nil (s : List Char) : breaks s ≠ [] := by
  fun_cases breaks s <;> simp_all

/-- Lines that were joined by breaks of one kind are found again. -/
theorem breaks_join (b : LineBreak) {ls : List (List Char)} (hls : ∀ l ∈ ls, IsOneLine l) (hne : ls ≠ []) :
    breaks (join b.chars ls) = ls := by
  induction ls with
  | nil => exact absurd rfl hne
  | cons l ls ih =>
      obtain ⟨hl, hls⟩ := List.forall_mem_cons.1 hls
      cases ls with
      | nil => exact breaks_eq_singleton hl
      | cons m ms =>
          have hrest := ih hls (List.cons_ne_nil m ms)
          have hhead : b = .carriageReturn → (join b.chars (m :: ms)).head? ≠ some '\n' := by
            rintro rfl hfeed
            have hnone : '\n' ∉ join ['\r'] (m :: ms) :=
              not_mem_join (by decide) fun l hl => (hls l hl).1
            exact hnone (List.mem_of_mem_head? hfeed)
          have hclosed := (breaks_chars_append hhead).trans (congrArg ([] :: ·) hrest)
          have hall := breaks_append hl hclosed
          rwa [List.append_nil, ← List.append_assoc] at hall

end SpecDoc.Text
