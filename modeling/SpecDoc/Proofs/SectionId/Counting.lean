import Mathlib.Logic.Relation
import SpecDoc.Proofs.SectionId.Order

/-!
# Counting parts up

Letters compare as their values do, and the letters that follow have the next value, so nothing lies
between the two. Numbers are counted up to the greatest one.

Counting up carries through the bytes of the letters, from the last one to the first. `Carry.Step` is
one step of this in place, on bytes that are listed last first.

* `Carry.reaches_countUp`: the carry comes to an end, and what it leaves is `countUp`;
* `Carry.Reaches.areCapital`: on the way there every byte is one of a capital letter;
* `compare?_letters`: the order of letters is that of their values;
* `counts_by_value`: what follows a part, and what lies between.
-/

namespace SpecDoc.SectionPart

open Text

/-! ## The carry -/

/-- Whether all bytes are those of capital letters. -/
def AreCapital (bs : List UInt8) : Prop := ∀ b ∈ bs, 65 ≤ b.toNat ∧ b.toNat ≤ 90

/-- Bytes are those of capital letters if those of both parts are. -/
theorem areCapital_append {as bs : List UInt8} :
    AreCapital (as ++ bs) ↔ AreCapital as ∧ AreCapital bs :=
  List.forall_mem_append

/-- Bytes are those of capital letters if the first one is in their range and the others are such bytes. -/
theorem areCapital_cons {b : UInt8} {bs : List UInt8} :
    AreCapital (b :: bs) ↔ (65 ≤ b.toNat ∧ b.toNat ≤ 90) ∧ AreCapital bs :=
  List.forall_mem_cons

/-- The bytes of capital letters lie in their range. -/
theorem IsCapitals.areCapital {cs : List Char} (h : IsCapitals cs) :
    AreCapital (cs.map Char.toUInt8) := by
  intro b hb
  obtain ⟨c, hc, rfl⟩ := List.mem_map.1 hb
  have hupper : c.isUpper = true := h c hc
  rw [toNat_toUInt8_of_isUpper hupper]
  exact (isUpper_iff c).1 hupper

/-- Bytes that are being counted up, the last first: the carry has passed some and has still to reach the
others, or it has come to an end. -/
inductive Carry where
  | going (passed ahead : List UInt8)
  | done (bytes : List UInt8)

namespace Carry

/-- All bytes as they are at the time. -/
def bytes : Carry → List UInt8
  | going passed ahead => passed ++ ahead
  | done bytes => bytes

/-- One step: a `Z` turns over to an `A` and the carry goes on, any other byte takes it up, and if there
is none left it becomes an `A` of its own. -/
inductive Step : Carry → Carry → Prop where
  | turn (passed ahead : List UInt8) : Step (going passed (90 :: ahead)) (going (passed ++ [65]) ahead)
  | stop (passed ahead : List UInt8) {b : UInt8} (hb : b ≠ 90) :
      Step (going passed (b :: ahead)) (done (passed ++ (b + 1) :: ahead))
  | grow (passed : List UInt8) : Step (going passed []) (done (passed ++ [65]))

/-- Any number of steps. -/
def Reaches : Carry → Carry → Prop := Relation.ReflTransGen Step

/-- The carry comes to an end, and what it leaves is counted up. -/
theorem reaches_countUp (passed ahead : List UInt8) :
    Reaches (going passed ahead) (done (passed ++ countUp ahead)) := by
  induction ahead generalizing passed with
  | nil => exact .single (.grow passed)
  | cons b ahead ih =>
      by_cases hb : b = 90
      · have hrest := ih (passed ++ [65])
        rw [List.append_assoc, List.singleton_append] at hrest
        rw [countUp, if_pos hb, hb]
        exact .head (.turn passed ahead) hrest
      · rw [countUp, if_neg hb]
        exact .single (.stop passed ahead hb)

/-- One step keeps to the bytes of capital letters. -/
theorem Step.areCapital {c c' : Carry} (hstep : Step c c') (h : AreCapital c.bytes) :
    AreCapital c'.bytes := by
  have hA : AreCapital [65] := by simp [AreCapital]
  cases hstep with
  | turn passed ahead =>
      obtain ⟨hpassed, hahead⟩ := areCapital_append.1 h
      show AreCapital ((passed ++ [65]) ++ ahead)
      rw [areCapital_append, areCapital_append]
      exact ⟨⟨hpassed, hA⟩, (areCapital_cons.1 hahead).2⟩
  | @stop passed ahead b hb =>
      obtain ⟨hpassed, hrest⟩ := areCapital_append.1 h
      obtain ⟨hbyte, hahead⟩ := areCapital_cons.1 hrest
      have hne : b.toNat ≠ 90 := fun he => hb (UInt8.toNat_inj.1 he)
      have hnext : (b + 1).toNat = b.toNat + 1 := by
        rw [UInt8.toNat_add]
        simp
        omega
      show AreCapital (passed ++ (b + 1) :: ahead)
      rw [areCapital_append, areCapital_cons, hnext]
      exact ⟨hpassed, ⟨by omega, by omega⟩, hahead⟩
  | grow passed =>
      show AreCapital (passed ++ [65])
      rw [areCapital_append]
      exact ⟨(areCapital_append.1 h).1, hA⟩

/-- Every sequence of steps keeps to the bytes of capital letters. -/
theorem Reaches.areCapital {c c' : Carry} (hreaches : Reaches c c') (h : AreCapital c.bytes) :
    AreCapital c'.bytes := by
  induction hreaches with
  | refl => exact h
  | tail _ hstep ih => exact hstep.areCapital ih

end Carry

/-! ## Letters -/

variable {s t : String}

/-- The bytes of the letters that follow are what the carry leaves. -/
theorem encode_nextLetters (hs : IsCapitals s.toList) :
    Utf8.encode (nextLetters s).toList = (countUp (Utf8.encode s.toList).reverse).reverse := by
  have hr := (isCapitals_reverse s.toList).2 hs
  have hup := (isCapitals_reverse _).2 (isCapitals_countUpLetters hr)
  rw [nextLetters_eq hs, String.toList_ofList, encode_of_isCapitals hup, encode_of_isCapitals hs,
    ← List.map_reverse, countUp_map_toUInt8 hr, List.map_reverse]

/-- The letters that follow are capital letters, and there are some. -/
theorem wellFormed_nextLetters (hs : (letters s).WellFormed) : (letters (nextLetters s)).WellFormed :=
  (before_next? hs rfl).1

/-- Letters of the same value are the same. -/
theorem eq_of_lettersValue_eq (hs : IsCapitals s.toList) (ht : IsCapitals t.toList)
    (h : lettersValue s.toList = lettersValue t.toList) : s = t := by
  have hst : ¬lettersValue s.toList < lettersValue t.toList := by omega
  have hts : ¬lettersValue t.toList < lettersValue s.toList := by omega
  rw [lettersValue_lt_iff hs ht] at hst
  rw [lettersValue_lt_iff ht hs] at hts
  have hlen : s.toList.length = t.toList.length := by omega
  have hle : ¬s.toList < t.toList := fun hlt => hst (.inr ⟨hlen, hlt⟩)
  have hge : ¬t.toList < s.toList := fun hlt => hts (.inr ⟨hlen.symm, hlt⟩)
  exact String.toList_inj.1 (List.le_antisymm hge hle)

/-- Two parts the other way round compare the other way round. -/
theorem compare?_swap (p q : SectionPart) : q.compare? p = (p.compare? q).map Ordering.swap := by
  cases p with
  | number m =>
      cases q with
      | number n => exact congrArg some Std.OrientedCmp.eq_swap
      | letters t => rfl
  | letters s =>
      cases q with
      | number n => rfl
      | letters t =>
          show some _ = some _
          rw [Ordering.swap_then, ← Std.OrientedCmp.eq_swap, ← Std.OrientedCmp.eq_swap]

/-- **The order of letters is that of their values.** -/
theorem compare?_letters (hs : (letters s).WellFormed) (ht : (letters t).WellFormed) :
    compare? (letters s) (letters t)
      = some (compare (lettersValue s.toList) (lettersValue t.toList)) := by
  rcases Nat.lt_trichotomy (lettersValue s.toList) (lettersValue t.toList) with h | h | h
  · have hbefore := before_letters_of_lettersValue_lt hs.2 ht.2 h
    rw [compare?_swap (letters t), compare?_of_before hs ht rfl hbefore, Nat.compare_eq_lt.2 h]
    rfl
  · rw [Nat.compare_eq_eq.2 h, eq_of_lettersValue_eq hs.2 ht.2 h]
    have hbytes : compare t.utf8ByteSize t.utf8ByteSize = .eq := Std.ReflCmp.compare_self
    have hself : compare t t = .eq := Std.ReflCmp.compare_self
    rw [compare?, hbytes, hself]
    rfl
  · have hbefore := before_letters_of_lettersValue_lt ht.2 hs.2 h
    rw [compare?_of_before ht hs rfl hbefore, Nat.compare_eq_gt.2 h]

/-- What counting up does to letters. There are letters that follow, these have the next value and come
right behind, and the carry goes over capital letters only from the bytes of the ones to those of the
others. -/
structure CountsUp (s s' : String) : Prop where
  next?_eq : next? (letters s) = some (letters s')
  wellFormed : (letters s').WellFormed
  value : lettersValue s'.toList = lettersValue s.toList + 1
  after : compare? (letters s) (letters s') = some .lt
  between : ∀ t, (letters t).WellFormed → compare? (letters s) (letters t) = some .lt →
    compare? (letters t) (letters s') ≠ some .lt
  carry : Carry.Reaches (.going [] (Utf8.encode s.toList).reverse) (.done (Utf8.encode s'.toList).reverse)
  areCapital : ∀ c, Carry.Reaches (.going [] (Utf8.encode s.toList).reverse) c → AreCapital c.bytes

/-- Letters are counted up. -/
theorem countsUp_nextLetters (hs : (letters s).WellFormed) : CountsUp s (nextLetters s) := by
  have hnext := wellFormed_nextLetters hs
  have hvalue := lettersValue_nextLetters hs.2
  constructor
  · rfl
  · exact hnext
  · exact hvalue
  · rw [compare?_letters hs hnext, hvalue, Nat.compare_eq_lt.2 (Nat.lt_succ_self _)]
  · intro t ht hst htn
    rw [compare?_letters hs ht, Option.some_inj, Nat.compare_eq_lt] at hst
    rw [compare?_letters ht hnext, hvalue, Option.some_inj, Nat.compare_eq_lt] at htn
    omega
  · rw [encode_nextLetters hs.2, List.reverse_reverse]
    exact Carry.reaches_countUp [] _
  · intro c hc
    refine hc.areCapital ?_
    show AreCapital (Utf8.encode s.toList).reverse
    rw [encode_of_isCapitals hs.2, ← List.map_reverse]
    exact ((isCapitals_reverse s.toList).2 hs.2).areCapital

/-! ## Numbers -/

/-- A number is followed by the next one, unless it is the greatest. -/
theorem next?_number (n : UInt32) :
    next? (number n) = if n.toNat + 1 < UInt32.size then some (number (UInt32.ofNat (n.toNat + 1)))
      else none := by
  have hlt := n.toNat_lt
  have hsize : UInt32.size = 2 ^ 32 := rfl
  have hmax : n = UInt32.ofNat (UInt32.size - 1) ↔ n.toNat + 1 = UInt32.size := by
    have hgreatest : (UInt32.ofNat (UInt32.size - 1)).toNat = UInt32.size - 1 := rfl
    rw [← UInt32.toNat_inj, hgreatest]
    omega
  have hnext : n + 1 = UInt32.ofNat (n.toNat + 1) := by
    rw [UInt32.ofNat_add, UInt32.ofNat_toNat]
    rfl
  rw [next?, hnext]
  by_cases h : n.toNat + 1 = UInt32.size
  · rw [if_pos (hmax.2 h), if_neg (by omega)]
  · rw [if_neg fun he => h (hmax.1 he), if_pos (by omega)]

/-! ## Parts -/

/-- **Parts count by value.** Letters are counted up by one and compare as their values do, before and
after they are counted up. Numbers are counted up by one, and only the greatest has none behind it. -/
theorem counts_by_value :
    (∀ s, (letters s).WellFormed → CountsUp s (nextLetters s)) ∧
    (∀ s t, (letters s).WellFormed → (letters t).WellFormed →
      compare? (letters s) (letters t)
        = some (compare (lettersValue s.toList) (lettersValue t.toList)) ∧
      compare? (letters (nextLetters s)) (letters (nextLetters t))
        = compare? (letters s) (letters t)) ∧
    ∀ n : UInt32, (next? (number n) = none ↔ n.toNat = UInt32.size - 1) ∧
      (n.toNat < UInt32.size - 1 → next? (number n) = some (number (UInt32.ofNat (n.toNat + 1)))) := by
  refine ⟨fun s hs => countsUp_nextLetters hs, fun s t hs ht => ⟨compare?_letters hs ht, ?_⟩,
    fun n => ⟨?_, fun hn => ?_⟩⟩
  · have hvalues : ∀ m n : ℕ, compare (m + 1) (n + 1) = compare m n := by
      intro m n
      rw [Nat.compare_eq_ite_lt, Nat.compare_eq_ite_lt]
      simp only [Nat.add_lt_add_iff_right]
    rw [compare?_letters (wellFormed_nextLetters hs) (wellFormed_nextLetters ht),
      lettersValue_nextLetters hs.2, lettersValue_nextLetters ht.2, hvalues, compare?_letters hs ht]
  · have hlt := n.toNat_lt
    have hsize : UInt32.size = 2 ^ 32 := rfl
    rw [next?_number]
    by_cases h : n.toNat + 1 < UInt32.size
    · rw [if_pos h]
      refine iff_of_false (by simp) ?_
      omega
    · rw [if_neg h]
      refine iff_of_true rfl ?_
      omega
  · rw [next?_number, if_pos (by omega)]

/-- The letters `ZZ` carry into a new place, and compare with `AZ` by their values. -/
theorem counts_by_value_zz :
    (letters "ZZ").WellFormed ∧ CountsUp "ZZ" "AAA" ∧ (letters "AZ").WellFormed ∧
      compare? (letters "ZZ") (letters "AZ") = some (compare 702 52) ∧
      next? (number (UInt32.ofNat (41 + 1))) = some (number (UInt32.ofNat 43)) := by
  have hzz : (letters "ZZ").WellFormed := ⟨by decide, by simp [IsCapitals]⟩
  have haz : (letters "AZ").WellFormed := ⟨by decide, by simp [IsCapitals]⟩
  have hnext : nextLetters "ZZ" = "AAA" := by decide +kernel
  refine ⟨hzz, hnext ▸ counts_by_value.1 "ZZ" hzz, haz, ?_, ?_⟩
  · exact (counts_by_value.2.1 "ZZ" "AZ" hzz haz).1
  · exact (counts_by_value.2.2 42).2 (by decide)

end SpecDoc.SectionPart
