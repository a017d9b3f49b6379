import SpecDoc.Text.Case

/-!
# Lower case once and again

A text in lower case stays as it is when it is put in lower case again: none of its characters is one that the
mapping changes.

* `lower_lower`: the lower case of a lower case.
-/

namespace SpecDoc.Text

/-! ## Runs of capital letters -/

namespace CaseRun

/-- Whether a number is the one of a capital letter of the run. -/
def contains (r : CaseRun) (n : Nat) : Bool := r.first ≤ n && n ≤ r.last && (n - r.first) % r.stride == 0

/-- The number of the small letter of a capital letter. -/
def small (r : CaseRun) (n : Nat) : Nat := (Int.ofNat n + r.shift).toNat

/-- Whether no small letter of a run is a capital letter of another one. Most often all of them lie before it or
behind it, and need not be looked at one by one. -/
def avoids (r q : CaseRun) : Bool :=
  Nat.blt (r.small r.last) q.first || Nat.blt q.last (r.small r.first) ||
    (List.range ((r.last - r.first) / r.stride + 1)).all fun k => !q.contains (r.small (r.first + r.stride * k))

/-- A number in a run is some steps behind the first one. -/
theorem exists_eq_of_contains {r : CaseRun} {n : Nat} (h : r.contains n = true) :
    n ≤ r.last ∧ ∃ k < (r.last - r.first) / r.stride + 1, n = r.first + r.stride * k := by
  simp only [contains, Bool.and_eq_true, decide_eq_true_eq, beq_iff_eq] at h
  obtain ⟨⟨hfirst, hlast⟩, hstride⟩ := h
  refine ⟨hlast, (n - r.first) / r.stride, Nat.lt_succ_of_le (Nat.div_le_div_right (by omega)), ?_⟩
  rw [Nat.mul_div_cancel' (Nat.dvd_of_mod_eq_zero hstride)]
  omega

/-- A small letter is no capital letter of a run that its own run avoids. -/
theorem contains_small_eq_false {r q : CaseRun} (h : r.avoids q = true) {n : Nat} (hn : r.contains n = true) :
    q.contains (r.small n) = false := by
  obtain ⟨hlast, k, hk, rfl⟩ := exists_eq_of_contains hn
  simp only [avoids, Bool.or_eq_true, Nat.blt_eq, List.all_eq_true, List.mem_range, Bool.not_eq_true'] at h
  rcases h with (hbefore | hbehind) | heach
  · have hle : r.small (r.first + r.stride * k) ≤ r.small r.last := by
      simp only [small, Int.ofNat_eq_natCast]
      omega
    simp [contains, Nat.not_le.2 (Nat.lt_of_le_of_lt hle hbefore)]
  · have hle : r.small r.first ≤ r.small (r.first + r.stride * k) := by
      simp only [small, Int.ofNat_eq_natCast]
      omega
    simp [contains, Nat.not_le.2 (Nat.lt_of_lt_of_le hbehind hle)]
  · exact heach k hk

end CaseRun

/-! ## Characters -/

/-- The small letter of a character beyond ASCII is found in the runs, or it is the character itself. -/
theorem lowerChar_of_le {c : Char} (h : 0x80 ≤ c.toNat) :
    lowerChar c = ((caseRuns.find? (·.contains c.toNat)).map fun r => Char.ofNat (r.small c.toNat)).getD c := by
  rw [lowerChar, if_neg (Nat.not_lt.2 h)]
  split
  · next r hrun =>
      have hfind : caseRuns.find? (·.contains c.toNat) = some r := hrun
      rw [hfind]
      rfl
  · next hrun =>
      have hfind : caseRuns.find? (·.contains c.toNat) = none := hrun
      rw [hfind]
      rfl

/-- Whether a character is left as it is by the mapping to lower case, wherever it stands. -/
def isSettled (c : Char) : Bool := c != '\u0130' && c != '\u03A3' && lowerChar c == c

/-- A character beyond ASCII is settled if it is in no run and is not the dotted capital I. -/
theorem isSettled_of_find?_eq_none {c : Char} (hc : 0x80 ≤ c.toNat) (hdotted : c ≠ '\u0130')
    (hrun : caseRuns.find? (·.contains c.toNat) = none) : isSettled c = true := by
  have hsame : lowerChar c = c := by
    rw [lowerChar_of_le hc, hrun]
    rfl
  have hsigma : c ≠ '\u03A3' := by
    rintro rfl
    exact absurd hsame (by decide)
  simp [isSettled, hdotted, hsigma, hsame]

/-- The small letters of ASCII are settled. -/
theorem isSettled_ascii : ∀ n < 0x80, isSettled (lowerChar (Char.ofNat n)) = true := by
  decide +kernel

/-- Whether the small letters of a run are settled. The only one of them in ASCII is that of the Kelvin sign. -/
def CaseRun.isClosed (r : CaseRun) : Bool :=
  if 0x80 ≤ r.small r.first then (⟨0x130, 0x130, 1, 0⟩ :: caseRuns).all r.avoids
  else r.first == r.last && isSettled (Char.ofNat (r.small r.first))

/-- No small letter of a run is a capital letter. -/
theorem isClosed_of_mem : ∀ r ∈ caseRuns, r.isClosed = true := by
  decide +kernel

/-- The small letters of a run are settled. -/
theorem isSettled_small {r : CaseRun} (hr : r ∈ caseRuns) {n : Nat} (hn : r.contains n = true) :
    isSettled (Char.ofNat (r.small n)) = true := by
  have hclosed := isClosed_of_mem r hr
  obtain ⟨hlast, k, -, hk⟩ := CaseRun.exists_eq_of_contains hn
  rw [CaseRun.isClosed] at hclosed
  split at hclosed
  · next hascii =>
      by_cases hvalid : (r.small n).isValidChar
      · have hnumber : (Char.ofNat (r.small n)).toNat = r.small n := by
          rw [Char.ofNat, dif_pos hvalid]
          rfl
        have hall : ∀ q ∈ (⟨0x130, 0x130, 1, 0⟩ :: caseRuns), q.contains (r.small n) = false := by
          intro q hq
          exact CaseRun.contains_small_eq_false (List.all_eq_true.1 hclosed q hq) hn
        refine isSettled_of_find?_eq_none ?_ ?_ ?_
        · rw [hnumber]
          simp only [CaseRun.small, Int.ofNat_eq_natCast] at hascii ⊢
          omega
        · intro hdotted
          have hno := hall _ List.mem_cons_self
          rw [← hnumber, hdotted] at hno
          exact absurd hno (by decide)
        · rw [hnumber]
          exact List.find?_eq_none.2 fun q hq => by simp [hall q (List.mem_cons_of_mem _ hq)]
      · rw [Char.ofNat, dif_neg hvalid]
        decide
  · simp only [Bool.and_eq_true, beq_iff_eq] at hclosed
    obtain ⟨hone, hsettled⟩ := hclosed
    obtain rfl : n = r.first := by omega
    exact hsettled

/-- Every small letter is settled, as is every character without one. -/
theorem isSettled_lowerChar {c : Char} (hc : c ≠ '\u0130') : isSettled (lowerChar c) = true := by
  by_cases hascii : c.toNat < 0x80
  · rw [← Char.ofNat_toNat c]
    exact isSettled_ascii c.toNat hascii
  · rw [lowerChar_of_le (Nat.not_lt.1 hascii)]
    cases hrun : caseRuns.find? (·.contains c.toNat) with
    | none => exact isSettled_of_find?_eq_none (Nat.not_lt.1 hascii) hc hrun
    | some r =>
        have hcontains : r.contains c.toNat = true := by simpa using List.find?_some hrun
        exact isSettled_small (List.mem_of_find?_eq_some hrun) hcontains

/-! ## Texts -/

/-- All characters of a text in lower case are settled. -/
theorem isSettled_of_mem_lowerFrom {afterCased : Bool} {cs : List Char} {c : Char}
    (h : c ∈ lowerFrom afterCased cs) : isSettled c = true := by
  induction cs generalizing afterCased with
  | nil => cases h
  | cons d cs ih =>
      rw [lowerFrom] at h
      split at h
      · rcases List.mem_cons.1 h with rfl | h
        · decide
        · rcases List.mem_cons.1 h with rfl | h
          · decide
          · exact ih h
      · next hdotted =>
          split at h
          · rcases List.mem_cons.1 h with rfl | h
            · decide
            · exact ih h
          · rcases List.mem_cons.1 h with rfl | h
            · exact isSettled_lowerChar hdotted
            · exact ih h

/-- Settled characters are left as they are. -/
theorem lowerFrom_eq_self {cs : List Char} (h : ∀ c ∈ cs, isSettled c = true) (afterCased : Bool) :
    lowerFrom afterCased cs = cs := by
  induction cs generalizing afterCased with
  | nil => rfl
  | cons c cs ih =>
      have hc := h c List.mem_cons_self
      simp only [isSettled, Bool.and_eq_true, bne_iff_ne, beq_iff_eq] at hc
      obtain ⟨⟨hdotted, hsigma⟩, hsame⟩ := hc
      rw [lowerFrom, if_neg hdotted, if_neg (by simp [hsigma]), hsame, ih fun d hd => h d (List.mem_cons_of_mem _ hd)]

/-- The lower case of a lower case is the same. -/
@[simp]
theorem lower_lower (s : String) : lower (lower s) = lower s := by
  rw [lower, lower, String.toList_ofList, lowerFrom_eq_self fun _ => isSettled_of_mem_lowerFrom]

end SpecDoc.Text
