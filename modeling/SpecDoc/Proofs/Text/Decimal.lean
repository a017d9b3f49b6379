import Mathlib.Data.Nat.Notation
import SpecDoc.Text.Decimal

/-!
# Written numbers

A number is written with digits, and it is read back from them; so different numbers are written
differently.
-/

namespace SpecDoc.Text

/-- A number is written with digits. -/
theorem isDigit_of_mem_repr {n : ℕ} {c : Char} (h : c ∈ (Nat.repr n).toList) :
    c.isDigit = true := by
  rw [Nat.toList_repr] at h
  exact Nat.isDigit_of_mem_toDigits (by decide) (by decide) h

/-- Different numbers are written differently. -/
theorem repr_injective {m n : ℕ} (h : Nat.repr m = Nat.repr n) : m = n := by
  have hdigits := congrArg (fun s => Nat.ofDigitChars 10 s.toList 0) h
  simpa [Nat.toList_repr] using hdigits

/-- A number is read back from its digits. -/
theorem decimal?_repr (n : ℕ) : decimal? (Nat.repr n).toList = some n := by
  have hdigits : (Nat.repr n).toList.all Char.isDigit = true :=
    List.all_eq_true.2 fun c hc => isDigit_of_mem_repr hc
  have hvalue : decimalValue (Nat.repr n).toList = n := by
    rw [Nat.toList_repr]
    exact Nat.ofDigitChars_toDigits (by decide) (by decide)
  rw [decimal?, hdigits, hvalue, if_neg (by simp)]

end SpecDoc.Text
