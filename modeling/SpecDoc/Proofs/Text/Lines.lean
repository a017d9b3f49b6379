import SpecDoc.Text.Line

/-!
# Lines of texts that are put together

If a line feed is put behind a text, the lines of the text come before those of what follows. Only a
carriage return at the end of the text would become part of this line break.

* `lines_append`: the lines of two texts with a line feed between them.
-/

namespace SpecDoc.Text

/-- A text without separators is not cut. -/
theorem cut_eq_singleton {p : Char → Bool} {s : List Char} (h : ∀ c ∈ s, p c = false) :
    cut p s = [s] := by
  induction s with
  | nil => rfl
  | cons c s ih =>
      obtain ⟨hc, hs⟩ := List.forall_mem_cons.1 h
      exact cut_cons_of_neg hc (ih hs)

/-- A text that does not hold the separator is not cut. -/
theorem cut_eq_singleton_of_notMem {d : Char} {s : List Char} (h : d ∉ s) : cut (· == d) s = [s] :=
  cut_eq_singleton fun c hc => beq_false_of_ne (by
    rintro rfl
    exact h hc)

/-- A separator between two texts parts them. -/
theorem cut_append {p : Char → Bool} {d : Char} (hd : p d = true) (s t : List Char) :
    cut p (s ++ d :: t) = cut p s ++ cut p t := by
  induction s with
  | nil => rw [List.nil_append, cut_cons_of_pos hd, cut, List.singleton_append]
  | cons c s ih =>
      cases hc : p c with
      | true => rw [List.cons_append, cut_cons_of_pos hc, cut_cons_of_pos hc, ih, List.cons_append]
      | false =>
          obtain ⟨w, ws, hs⟩ := exists_cut_eq_cons p s
          rw [hs, List.cons_append] at ih
          rw [List.cons_append, cut_cons_of_neg hc ih, cut_cons_of_neg hc hs, List.cons_append]

/-- Two parts are joined by the separator. -/
theorem join_cons_cons (d : Char) (w v : List Char) (vs : List (List Char)) :
    join [d] (w :: v :: vs) = w ++ d :: join [d] (v :: vs) := by
  simp [join]

/-- A text starts with the first of its parts. -/
theorem exists_join_cons (d : Char) (w : List Char) (ws : List (List Char)) :
    ∃ s, join [d] (w :: ws) = w ++ s := by
  cases ws with
  | nil => exact ⟨[], (List.append_nil w).symm⟩
  | cons v vs => exact ⟨_, join_cons_cons d w v vs⟩

/-- Parts that hold no separator are cut again where they were joined. -/
theorem cut_join {d : Char} {ws : List (List Char)} (hws : ∀ w ∈ ws, d ∉ w) (hne : ws ≠ []) :
    cut (· == d) (join [d] ws) = ws := by
  induction ws with
  | nil => exact absurd rfl hne
  | cons w ws ih =>
      obtain ⟨hw, hws⟩ := List.forall_mem_cons.1 hws
      have hcut : cut (· == d) w = [w] := cut_eq_singleton_of_notMem hw
      cases ws with
      | nil => exact hcut
      | cons v vs =>
          rw [join_cons_cons, cut_append (p := (· == d)) (beq_self_eq_true d), hcut,
            ih hws (List.cons_ne_nil v vs), List.singleton_append]

/-- Parts that are closed by a separator each are cut again, and nothing is behind the last of them. -/
theorem cut_flatMap_concat {d : Char} {ws : List (List Char)} (hws : ∀ w ∈ ws, d ∉ w) :
    cut (· == d) (ws.flatMap fun w => w ++ [d]) = ws ++ [[]] := by
  induction ws with
  | nil => rfl
  | cons w ws ih =>
      obtain ⟨hw, hws⟩ := List.forall_mem_cons.1 hws
      have hcut : cut (· == d) w = [w] := cut_eq_singleton_of_notMem hw
      rw [List.flatMap_cons, List.append_assoc, List.singleton_append,
        cut_append (p := (· == d)) (beq_self_eq_true d), hcut, ih hws, List.singleton_append,
        List.cons_append]

/-- Joining is the intercalation of lists. -/
theorem intercalate_eq_join (sep : List Char) (ws : List (List Char)) :
    sep.intercalate ws = join sep ws := by
  induction ws with
  | nil => rfl
  | cons w ws ih =>
      cases ws with
      | nil => simp [List.intercalate, join]
      | cons v vs =>
          rw [List.intercalate_cons_cons, ih]
          simp [join]

/-- A text without line feeds is one line. -/
theorem lines_eq_singleton {s : List Char} (hne : s ≠ []) (h : '\n' ∉ s) : lines s = [s] := by
  have hcut : cut (· == '\n') s = [s] := cut_eq_singleton_of_notMem h
  rw [lines, hcut, closeLines, if_neg (by simpa using hne)]

/-- A line feed closes an empty line. -/
theorem lines_cons_newline (s : List Char) : lines ('\n' :: s) = [] :: lines s := by
  obtain ⟨w, ws, hcut⟩ := exists_cut_eq_cons (· == '\n') s
  rw [lines, cut_cons_of_pos rfl, lines, hcut]
  rfl

/-- All parts but the last are closed by a line break. -/
theorem closeLines_append (ps : List (List Char)) {qs : List (List Char)} (hqs : qs ≠ []) :
    closeLines (ps ++ qs) = ps.map dropReturn ++ closeLines qs := by
  induction ps with
  | nil => rfl
  | cons p ps ih =>
      rw [List.cons_append, closeLines, ih, List.map_cons, List.cons_append]
      simp [hqs]

/-- A line that does not end with a carriage return keeps all its characters. -/
theorem dropReturn_eq_self {l : List Char} (h : l.getLast? ≠ some '\r') : dropReturn l = l := by
  fun_induction dropReturn l with
  | case1 => rfl
  | case2 => exact absurd rfl h
  | case3 c r hne ih =>
      cases r with
      | nil => rfl
      | cons d r =>
          rw [List.getLast?_cons_cons] at h
          rw [ih h]

/-- A text ends with the last of its parts. -/
theorem exists_append_of_join (sep : List Char) (ws : List (List Char)) (w : List Char) :
    ∃ s, join sep (ws ++ [w]) = s ++ w := by
  induction ws with
  | nil => exact ⟨[], rfl⟩
  | cons v ws ih =>
      obtain ⟨s, hs⟩ := ih
      refine ⟨v ++ sep ++ s, ?_⟩
      rw [List.cons_append, join, hs, List.append_assoc, List.append_assoc, List.append_assoc]
      simp

/-- The lines of a text, a blank line if the text does not end within a line, and the lines of what
follows. -/
theorem lines_append {s : List Char} (h : s.getLast? ≠ some '\r') (t : List Char) :
    lines (s ++ '\n' :: t) = lines s ++ lines t ∨
      lines (s ++ '\n' :: t) = lines s ++ [] :: lines t := by
  obtain ⟨ws, w, hcut⟩ : ∃ ws w, cut (· == '\n') s = ws ++ [w] :=
    ⟨_, _, (List.dropLast_concat_getLast (cut_ne_nil _ s)).symm⟩
  have hlines : lines s = ws.map dropReturn ++ if w.isEmpty then [] else [w] := by
    rw [lines, hcut, closeLines_append ws (List.cons_ne_nil _ _), closeLines]
  have hboth : lines (s ++ '\n' :: t) = ws.map dropReturn ++ dropReturn w :: lines t := by
    rw [lines, cut_append (by rfl), closeLines_append _ (cut_ne_nil _ t), hcut, ← lines]
    simp
  -- The last part is empty if the text ends with a line feed, and then it is no line.
  cases w with
  | nil =>
      right
      rw [hboth, hlines]
      simp [dropReturn]
  | cons c w =>
      left
      obtain ⟨r, hr⟩ := exists_append_of_join ['\n'] ws (c :: w)
      rw [← hcut, join_cut] at hr
      have hreturn : dropReturn (c :: w) = c :: w := by
        refine dropReturn_eq_self fun hlast => h ?_
        rw [hr, List.getLast?_append, hlast]
        rfl
      rw [hboth, hlines, hreturn]
      simp

end SpecDoc.Text
