import Mathlib.Data.Char
import Mathlib.Data.List.Induction
import Mathlib.Data.List.Lex
import Mathlib.Tactic.Linarith
import Mathlib.Tactic.Ring
import SpecDoc.Proofs.Text.Utf8
import SpecDoc.SectionId

/-!
# Letters as numerals

Letters count `A`, `B`, …, `Z`, `AA`, …: they are numerals with the digits `A` = 1 to `Z` = 26 and no
zero. Their value is what counting up and the order of parts are about.

* `nextLetters_eq`: counting up stays among the letters `A` to `Z`;
* `lettersValue_nextLetters`: it adds one to the value;
* `lettersValue_lt_iff`: the order by value is the order by length and then alphabet.
-/

namespace SpecDoc.SectionPart

open Text

/-- A text of capital letters of ASCII. -/
def IsCapitals (cs : List Char) : Prop := ∀ c ∈ cs, c.isUpper = true

/-- The first letter and the others of capital letters are capital letters. -/
@[simp]
theorem isCapitals_cons (c : Char) (cs : List Char) :
    IsCapitals (c :: cs) ↔ c.isUpper = true ∧ IsCapitals cs := by
  simp [IsCapitals]

/-- Capital letters are capital letters from behind. -/
@[simp]
theorem isCapitals_reverse (cs : List Char) : IsCapitals cs.reverse ↔ IsCapitals cs := by
  simp [IsCapitals]

/-- The capital letters are the characters from 65 to 90. -/
theorem isUpper_iff (c : Char) : c.isUpper = true ↔ 65 ≤ c.toNat ∧ c.toNat ≤ 90 := by
  show decide ('A'.val ≤ c.val ∧ c.val ≤ 'Z'.val) = true ↔ _
  rw [decide_eq_true_eq, UInt32.le_iff_toNat_le, UInt32.le_iff_toNat_le]
  rfl

/-! ## Bytes -/

/-- Capital letters are in ASCII. -/
theorem IsCapitals.isAscii {cs : List Char} (h : IsCapitals cs) : IsAscii cs := by
  intro c hc
  have := (isUpper_iff c).1 (h c hc)
  omega

/-- Capital letters are written in as many bytes as there are letters. -/
theorem encode_of_isCapitals {cs : List Char} (h : IsCapitals cs) :
    Utf8.encode cs = cs.map Char.toUInt8 :=
  encode_of_ascii h.isAscii

/-- The byte of a capital letter has the value of the letter. -/
theorem toNat_toUInt8_of_isUpper {c : Char} (h : c.isUpper = true) :
    c.toUInt8.toNat = c.toNat := by
  have := (isUpper_iff c).1 h
  exact toNat_toUInt8_of_lt (by omega)

/-- The bytes of capital letters are read back. -/
theorem decode_of_isCapitals {cs : List Char} (h : IsCapitals cs) :
    Utf8.decode? (cs.map Char.toUInt8) = some cs := by
  rw [← encode_of_isCapitals h, Utf8.decode?_encode]

/-! ## Counting up -/

/-- Counts up a numeral given by its letters, the last first. -/
def countUpLetters : List Char → List Char
  | [] => ['A']
  | c :: r => if c = 'Z' then 'A' :: countUpLetters r else Char.ofNat (c.toNat + 1) :: r

/-- The letter after a capital letter has the next code point. -/
theorem toNat_ofNat_succ {c : Char} (h : c.isUpper = true) :
    (Char.ofNat (c.toNat + 1)).toNat = c.toNat + 1 := by
  have hc := (isUpper_iff c).1 h
  have hvalid : (c.toNat + 1).isValidChar := by
    left
    omega
  rw [Char.ofNat, dif_pos hvalid]
  rfl

/-- The letter after a capital letter that is not the last one is a capital letter. -/
theorem isUpper_ofNat_succ {c : Char} (h : c.isUpper = true) (hz : c ≠ 'Z') :
    (Char.ofNat (c.toNat + 1)).isUpper = true := by
  have hc := (isUpper_iff c).1 h
  have hne : c.toNat ≠ 90 := fun he => hz (Char.toNat_inj.1 he)
  rw [isUpper_iff, toNat_ofNat_succ h]
  omega

/-- Counting up keeps to the capital letters. -/
theorem isCapitals_countUpLetters {cs : List Char} (h : IsCapitals cs) :
    IsCapitals (countUpLetters cs) := by
  induction cs with
  | nil => simp [countUpLetters, IsCapitals]
  | cons c r ih =>
      obtain ⟨hc, hr⟩ := (isCapitals_cons c r).1 h
      unfold countUpLetters
      split
      · exact (isCapitals_cons _ _).2 ⟨rfl, ih hr⟩
      · next hz => exact (isCapitals_cons _ _).2 ⟨isUpper_ofNat_succ hc hz, hr⟩

/-- Counting up letters counts up their bytes. -/
theorem countUp_map_toUInt8 {cs : List Char} (h : IsCapitals cs) :
    countUp (cs.map Char.toUInt8) = (countUpLetters cs).map Char.toUInt8 := by
  induction cs with
  | nil => rfl
  | cons c r ih =>
      obtain ⟨hc, hr⟩ := (isCapitals_cons c r).1 h
      have hbyte := toNat_toUInt8_of_isUpper hc
      have hz : c.toUInt8 = 90 ↔ c = 'Z' := by
        rw [← UInt8.toNat_inj, hbyte, ← Char.toNat_inj]
        rfl
      rw [List.map_cons, countUp, countUpLetters]
      by_cases hcz : c = 'Z'
      · rw [if_pos (hz.2 hcz), if_pos hcz, ih hr]
        rfl
      · have hnext : c.toUInt8 + 1 = (Char.ofNat (c.toNat + 1)).toUInt8 := by
          have hle := (isUpper_iff c).1 hc
          rw [← UInt8.toNat_inj, toNat_toUInt8_of_isUpper (isUpper_ofNat_succ hc hcz),
            toNat_ofNat_succ hc, UInt8.toNat_add, hbyte]
          simp
          omega
        rw [if_neg (fun he => hcz (hz.1 he)), if_neg hcz, hnext, List.map_cons]

/-- The letters after capital letters are counted up from the last one. -/
theorem nextLetters_eq {s : String} (h : IsCapitals s.toList) :
    nextLetters s = String.ofList (countUpLetters s.toList.reverse).reverse := by
  have hr := (isCapitals_reverse s.toList).2 h
  unfold nextLetters
  rw [encode_of_isCapitals h, ← List.map_reverse, countUp_map_toUInt8 hr, ← List.map_reverse,
    decode_of_isCapitals ((isCapitals_reverse _).2 (isCapitals_countUpLetters hr))]
  rfl

/-! ## Values -/

/-- The value of a capital letter as a digit. -/
def letterValue (c : Char) : ℕ := c.toNat - 64

/-- The value of letters, the first of which counts most. -/
def lettersValue (cs : List Char) : ℕ := cs.foldl (fun n c => 26 * n + letterValue c) 0

/-- A further letter behind others counts them 26 times and itself. -/
theorem lettersValue_concat (cs : List Char) (c : Char) :
    lettersValue (cs ++ [c]) = 26 * lettersValue cs + letterValue c := by
  rw [lettersValue, List.foldl_append]
  rfl

/-- Counting up adds one to the value. -/
theorem lettersValue_countUpLetters {cs : List Char} (h : IsCapitals cs) :
    lettersValue (countUpLetters cs).reverse = lettersValue cs.reverse + 1 := by
  induction cs with
  | nil => rfl
  | cons c r ih =>
      obtain ⟨hc, hr⟩ := (isCapitals_cons c r).1 h
      have hrange := (isUpper_iff c).1 hc
      rw [List.reverse_cons, lettersValue_concat]
      unfold countUpLetters
      split
      · next hz =>
        have ha : letterValue 'A' = 1 := rfl
        have hzv : letterValue 'Z' = 26 := rfl
        rw [List.reverse_cons, lettersValue_concat, ih hr, hz, ha, hzv]
        omega
      · rw [List.reverse_cons, lettersValue_concat, letterValue, letterValue, toNat_ofNat_succ hc]
        omega

/-- The letters that follow are capital letters. -/
theorem isCapitals_nextLetters {s : String} (h : IsCapitals s.toList) :
    IsCapitals (nextLetters s).toList := by
  rw [nextLetters_eq h, String.toList_ofList, isCapitals_reverse]
  exact isCapitals_countUpLetters ((isCapitals_reverse s.toList).2 h)

/-- The letters that follow have the next value. -/
theorem lettersValue_nextLetters {s : String} (h : IsCapitals s.toList) :
    lettersValue (nextLetters s).toList = lettersValue s.toList + 1 := by
  have hvalue := lettersValue_countUpLetters ((isCapitals_reverse s.toList).2 h)
  rw [List.reverse_reverse] at hvalue
  rw [nextLetters_eq h, String.toList_ofList, hvalue]

/-! ## Order -/

/-- A letter in front counts for a power of the base. -/
theorem lettersValue_cons (c : Char) (cs : List Char) :
    lettersValue (c :: cs) = letterValue c * 26 ^ cs.length + lettersValue cs := by
  induction cs using List.reverseRecOn with
  | nil => simp [lettersValue]
  | append_singleton cs d ih =>
      rw [← List.cons_append, lettersValue_concat, lettersValue_concat, ih, List.length_append]
      simp only [List.length_cons, List.length_nil]
      ring

/-- The least value of `n` letters. -/
def leastValue : ℕ → ℕ
  | 0 => 0
  | n + 1 => 26 * leastValue n + 1

/-- The values of `n` letters are `26 ^ n` at most. -/
theorem leastValue_mul (n : ℕ) : 25 * leastValue n + 1 = 26 ^ n := by
  induction n with
  | zero => rfl
  | succ n ih => rw [leastValue, pow_succ, ← ih]; ring

/-- More letters have a greater least value. -/
theorem leastValue_lt {m n : ℕ} (h : m < n) : 26 * leastValue m < leastValue n := by
  induction n with
  | zero => omega
  | succ n ih =>
      rw [leastValue]
      rcases Nat.lt_succ_iff_lt_or_eq.1 h with h | rfl
      · have := ih h
        omega
      · omega

/-- The values of as many letters lie between the least value and its multiple. -/
theorem lettersValue_bounds {cs : List Char} (h : IsCapitals cs) :
    leastValue cs.length ≤ lettersValue cs ∧ lettersValue cs ≤ 26 * leastValue cs.length := by
  induction cs using List.reverseRecOn with
  | nil => simp [lettersValue, leastValue]
  | append_singleton cs c ih =>
      have hcs : IsCapitals cs := fun d hd => h d (List.mem_append_left _ hd)
      have hc := (isUpper_iff c).1 (h c (by simp))
      obtain ⟨hlow, hhigh⟩ := ih hcs
      rw [lettersValue_concat, List.length_append, List.length_singleton, leastValue, letterValue]
      omega

/-- Among as many letters the order by value is that of the alphabet. -/
theorem lettersValue_lt_of_lt {cs ds : List Char} (hcs : IsCapitals cs) (hds : IsCapitals ds)
    (hlen : cs.length = ds.length) (h : cs < ds) : lettersValue cs < lettersValue ds := by
  induction cs generalizing ds with
  | nil => cases ds <;> simp_all
  | cons c cs ih =>
      cases ds with
      | nil => simp at hlen
      | cons d ds =>
          obtain ⟨hc, hcs'⟩ := (isCapitals_cons c cs).1 hcs
          obtain ⟨hd, hds'⟩ := (isCapitals_cons d ds).1 hds
          have hlen' : cs.length = ds.length := by simpa using hlen
          rw [lettersValue_cons, lettersValue_cons, hlen']
          rcases List.cons_lt_cons_iff.1 h with hlt | ⟨rfl, hlt⟩
          · have hsucc : letterValue c + 1 ≤ letterValue d := by
              have := (isUpper_iff c).1 hc
              have : c.toNat < d.toNat := hlt
              rw [letterValue, letterValue]
              omega
            have hmul := Nat.mul_le_mul_right (26 ^ ds.length) hsucc
            have hpow := leastValue_mul ds.length
            have hbc := (lettersValue_bounds hcs').2
            have hbd := (lettersValue_bounds hds').1
            rw [hlen'] at hbc
            rw [Nat.add_mul, Nat.one_mul] at hmul
            omega
          · have := ih hcs' hds' hlen' hlt
            omega

/-- The order by value is the order by length and then alphabet. -/
theorem lettersValue_lt_iff {cs ds : List Char} (hcs : IsCapitals cs) (hds : IsCapitals ds) :
    lettersValue cs < lettersValue ds
      ↔ cs.length < ds.length ∨ cs.length = ds.length ∧ cs < ds := by
  have hlonger : ∀ {as bs : List Char}, IsCapitals as → IsCapitals bs → as.length < bs.length →
      lettersValue as < lettersValue bs := by
    intro as bs has hbs h
    have := (lettersValue_bounds has).2
    have := (lettersValue_bounds hbs).1
    have := leastValue_lt h
    omega
  constructor
  · intro h
    rcases Nat.lt_trichotomy cs.length ds.length with hlen | hlen | hlen
    · exact Or.inl hlen
    · refine Or.inr ⟨hlen, ?_⟩
      rcases lt_trichotomy cs ds with hlt | rfl | hlt
      · exact hlt
      · exact absurd h (Nat.lt_irrefl _)
      · exact absurd h (Nat.lt_asymm (lettersValue_lt_of_lt hds hcs hlen.symm hlt))
    · exact absurd h (Nat.lt_asymm (hlonger hds hcs hlen))
  · rintro (hlen | ⟨hlen, hlt⟩)
    · exact hlonger hcs hds hlen
    · exact lettersValue_lt_of_lt hcs hds hlen hlt

end SpecDoc.SectionPart
