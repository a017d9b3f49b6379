/-!
# Cutting at separators

`cut p s` are the parts of `s` between the characters that satisfy `p`; there is always one part
more than separators.
-/

namespace SpecDoc.Text

/-- The parts between the separators, empty ones included. -/
def cut (p : Char → Bool) : List Char → List (List Char)
  | [] => [[]]
  | c :: r =>
    if p c then [] :: cut p r
    else
      match cut p r with
      | [] => [[c]]
      | w :: ws => (c :: w) :: ws

/-- There is at least one part. -/
theorem cut_ne_nil (p : Char → Bool) (s : List Char) : cut p s ≠ [] := by
  cases s with
  | nil => simp [cut]
  | cons c r =>
    unfold cut
    split
    · simp
    · split <;> simp

/-- There is a first part. -/
theorem exists_cut_eq_cons (p : Char → Bool) (s : List Char) : ∃ w ws, cut p s = w :: ws := by
  cases h : cut p s with
  | nil => exact absurd h (cut_ne_nil p s)
  | cons w ws => exact ⟨w, ws, rfl⟩

/-- A separator closes an empty first part. -/
theorem cut_cons_of_pos {p : Char → Bool} {c : Char} (h : p c = true) (r : List Char) :
    cut p (c :: r) = [] :: cut p r := by
  simp [cut, h]

/-- Any other character joins the first part of what follows. -/
theorem cut_cons_of_neg {p : Char → Bool} {c : Char} {r w : List Char} {ws : List (List Char)}
    (h : p c = false) (hr : cut p r = w :: ws) : cut p (c :: r) = (c :: w) :: ws := by
  simp [cut, h, hr]

/-- No part holds a separator. -/
theorem eq_false_of_mem_cut {p : Char → Bool} {s w : List Char} {c : Char}
    (hw : w ∈ cut p s) (hc : c ∈ w) : p c = false := by
  induction s generalizing w with
  | nil => simp [cut] at hw; simp [hw] at hc
  | cons d r ih =>
    cases hd : p d with
    | true =>
      rw [cut_cons_of_pos hd] at hw
      rcases List.mem_cons.1 hw with rfl | hw
      · simp at hc
      · exact ih hw hc
    | false =>
      obtain ⟨v, vs, hr⟩ := exists_cut_eq_cons p r
      rw [cut_cons_of_neg hd hr] at hw
      rw [hr] at ih
      rcases List.mem_cons.1 hw with rfl | hw
      · rcases List.mem_cons.1 hc with rfl | hc
        · exact hd
        · exact ih List.mem_cons_self hc
      · exact ih (List.mem_cons_of_mem _ hw) hc

/-- The parts joined by `sep`. -/
def join (sep : List Char) : List (List Char) → List Char
  | [] => []
  | [w] => w
  | w :: ws => w ++ sep ++ join sep ws

/-- Cutting at one character and joining by it gives the text back. -/
theorem join_cut (d : Char) (s : List Char) : join [d] (cut (fun c => c == d) s) = s := by
  induction s with
  | nil => rfl
  | cons c r ih =>
    obtain ⟨w, ws, hr⟩ := exists_cut_eq_cons (fun c => c == d) r
    rw [hr] at ih
    cases hc : (c == d) with
    | true =>
      rw [cut_cons_of_pos (p := fun c => c == d) hc, hr]
      simpa [join, ih] using (beq_iff_eq.1 hc).symm
    | false =>
      rw [cut_cons_of_neg (p := fun c => c == d) hc hr]
      cases ws with
      | nil => simpa [join] using ih
      | cons v vs => simpa [join] using ih

end SpecDoc.Text
