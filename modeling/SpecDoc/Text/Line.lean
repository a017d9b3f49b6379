import SpecDoc.Text.Cut

/-!
# Lines

Two ways to cut a text into lines.

* `lines` is how a source is read: a line ends at a line feed, a carriage return right before the
  line feed belongs to the line break, and nothing follows the last line feed.
* `breaks` is how content is compared: a line feed, a carriage return or the two together are one
  line break, and a text has always one part more than line breaks.
-/

namespace SpecDoc.Text

/-- The line without the carriage return that ends it, if there is one. -/
def dropReturn : List Char → List Char
  | [] => []
  | ['\r'] => []
  | c :: r => c :: dropReturn r

/-- The parts between line feeds as lines: all but the last had a line feed after them. -/
def closeLines : List (List Char) → List (List Char)
  | [] => []
  | [last] => if last.isEmpty then [] else [last]
  | l :: ls => dropReturn l :: closeLines ls

/-- The lines of a source, without their line breaks. -/
def lines (s : List Char) : List (List Char) := closeLines (cut (· == '\n') s)

/-- A line is made of characters of the part it comes from. -/
theorem mem_of_mem_dropReturn {s : List Char} {c : Char} (h : c ∈ dropReturn s) : c ∈ s := by
  induction s with
  | nil => simp [dropReturn] at h
  | cons d r ih =>
    unfold dropReturn at h
    split at h
    · simp at h
    · simp at h
    · next heq =>
      cases heq
      rcases List.mem_cons.1 h with rfl | h
      · exact List.mem_cons_self
      · exact List.mem_cons_of_mem _ (ih h)

/-- No line holds a line feed. -/
theorem ne_newline_of_mem_lines {s l : List Char} {c : Char} (hl : l ∈ lines s) (hc : c ∈ l) :
    c ≠ '\n' := by
  have key : ∀ (ps : List (List Char)), l ∈ closeLines ps → ∃ w ∈ ps, ∀ c ∈ l, c ∈ w := by
    intro ps
    induction ps with
    | nil => intro h; simp [closeLines] at h
    | cons p ps ih =>
      intro h
      cases ps with
      | nil =>
        simp only [closeLines] at h
        split at h
        · simp at h
        · exact ⟨p, List.mem_cons_self, by simp_all⟩
      | cons q qs =>
        rcases List.mem_cons.1 h with rfl | h
        · exact ⟨p, List.mem_cons_self, fun _ => mem_of_mem_dropReturn⟩
        · obtain ⟨w, hw, hsub⟩ := ih h
          exact ⟨w, List.mem_cons_of_mem _ hw, hsub⟩
  obtain ⟨w, hw, hsub⟩ := key _ hl
  have := eq_false_of_mem_cut hw (hsub c hc)
  simpa using this

/-- The parts of a text between its line breaks of any kind. -/
def breaks : List Char → List (List Char)
  | [] => [[]]
  | '\r' :: '\n' :: r => [] :: breaks r
  | c :: r =>
    if c = '\n' ∨ c = '\r' then [] :: breaks r
    else
      match breaks r with
      | [] => [[c]]
      | w :: ws => (c :: w) :: ws

end SpecDoc.Text
