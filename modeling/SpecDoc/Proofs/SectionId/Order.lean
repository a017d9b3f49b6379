import SpecDoc.Proofs.SectionId.Letters
import SpecDoc.Proofs.Text.Decimal

/-!
# The order of section ids

Parts are ordered with the numbers before the letters, numbers by value and letters by length and then
alphabet. Ids are ordered part by part, an id before those that extend it.

* `before_next?`: the part that follows another one comes after it;
* `before_of_compare?`: the comparison of parts agrees with the order;
* `dotted_injective`: different ids are shown differently.
-/

namespace SpecDoc

namespace SectionPart

/-- The order of parts. -/
def Before : SectionPart → SectionPart → Prop
  | .number m, .number n => m < n
  | .number _, .letters _ => True
  | .letters _, .number _ => False
  | .letters s, .letters t => s.length < t.length ∨ s.length = t.length ∧ s < t

/-- No part comes before itself. -/
theorem Before.irrefl (p : SectionPart) : ¬ Before p p := by
  cases p with
  | number n => exact UInt32.lt_irrefl n
  | letters s =>
      rintro (h | ⟨_, h⟩)
      · exact Nat.lt_irrefl _ h
      · exact String.lt_irrefl s h

/-- What comes before a part comes before those after it. -/
theorem Before.trans {p q r : SectionPart} (h : Before p q) (h' : Before q r) : Before p r := by
  cases p with
  | number l =>
      cases r with
      | letters u => trivial
      | number n =>
          cases q with
          | letters t => exact h'.elim
          | number m => exact UInt32.lt_trans h h'
  | letters s =>
      cases q with
      | number m => exact h.elim
      | letters t =>
          cases r with
          | number n => exact h'.elim
          | letters u =>
              rcases h with h | ⟨hl, h⟩
              · rcases h' with h' | ⟨hl', _⟩
                · exact Or.inl (Nat.lt_trans h h')
                · exact Or.inl (hl' ▸ h)
              · rcases h' with h' | ⟨hl', h'⟩
                · exact Or.inl (hl ▸ h')
                · exact Or.inr ⟨hl.trans hl', String.lt_trans h h'⟩

/-- A part that a token can write: letters are capital letters of ASCII, at least one. -/
def WellFormed : SectionPart → Prop
  | .number _ => True
  | .letters s => s ≠ "" ∧ IsCapitals s.toList

/-- Tokens write well-formed parts. -/
theorem wellFormed_of_parse? {token : String} {p : SectionPart} (h : parse? token = some p) :
    p.WellFormed := by
  unfold parse? at h
  split at h
  · split at h
    · cases h
      trivial
    · cases h
  · split at h
    · cases h
    · next hletters =>
      cases h
      rw [Bool.or_eq_true, not_or] at hletters
      obtain ⟨hempty, hall⟩ := hletters
      refine ⟨?_, ?_⟩
      · rintro rfl
        exact hempty rfl
      · simpa [IsCapitals] using hall

/-! ## Counting up -/

/-- Letters are in order if their values are. -/
theorem before_letters_of_lettersValue_lt {s t : String} (hs : IsCapitals s.toList)
    (ht : IsCapitals t.toList) (h : lettersValue s.toList < lettersValue t.toList) :
    Before (.letters s) (.letters t) := by
  have hlt := (lettersValue_lt_iff hs ht).1 h
  rwa [String.length_toList, String.length_toList, ← String.lt_iff] at hlt

/-- The part that follows a well-formed part is well-formed and comes after it. -/
theorem before_next? {p q : SectionPart} (hp : p.WellFormed) (h : p.next? = some q) :
    q.WellFormed ∧ Before p q := by
  cases p with
  | number n =>
      unfold next? at h
      dsimp only at h
      split at h
      · cases h
      · next hmax =>
        cases h
        refine ⟨trivial, ?_⟩
        show n < n + 1
        have hne : n.toNat ≠ UInt32.size - 1 := by
          intro he
          apply hmax
          rw [← UInt32.toNat_inj, he]
          rfl
        have hlt := n.toNat_lt
        have hsize : UInt32.size = 2 ^ 32 := rfl
        rw [UInt32.lt_iff_toNat_lt, UInt32.toNat_add]
        simp only [UInt32.reduceToNat]
        omega
  | letters s =>
      obtain ⟨-, hs⟩ := hp
      cases h
      have hvalue := lettersValue_nextLetters hs
      refine ⟨⟨?_, isCapitals_nextLetters hs⟩, ?_⟩
      · intro he
        rw [he] at hvalue
        cases hvalue
      · apply before_letters_of_lettersValue_lt hs (isCapitals_nextLetters hs)
        rw [hvalue]
        exact Nat.lt_succ_self _

/-! ## Comparison -/

/-- Capital letters take one byte each. -/
theorem utf8ByteSize_of_isCapitals {s : String} (h : IsCapitals s.toList) :
    s.utf8ByteSize = s.length := by
  have hencode : s.toList.utf8Encode = (Text.Utf8.encode s.toList).toByteArray := rfl
  rw [← String.size_toByteArray, ← String.utf8Encode_toList, hencode, List.size_toByteArray,
    encode_of_isCapitals h, List.length_map, String.length_toList]

/-- A part that compares as greater comes after the other one. -/
theorem before_of_compare? {p q : SectionPart} (hp : p.WellFormed) (hq : q.WellFormed)
    (h : q.compare? p = some .gt) : Before p q := by
  cases q with
  | number n =>
      cases p with
      | letters s => cases h
      | number m =>
          have hgt : compare n m = .gt := Option.some.inj h
          exact Std.compare_eq_gt.1 hgt
  | letters t =>
      cases p with
      | number m => cases h
      | letters s =>
          have hgt := Option.some.inj h
          rw [utf8ByteSize_of_isCapitals hp.2, utf8ByteSize_of_isCapitals hq.2,
            Ordering.then_eq_gt, Nat.compare_eq_gt, Nat.compare_eq_eq] at hgt
          rcases hgt with hlen | ⟨hlen, hgt⟩
          · exact Or.inl hlen
          · refine Or.inr ⟨hlen.symm, ?_⟩
            exact (compareOfLessAndEq_eq_gt String.le_antisymm String.le_total String.not_le t s).1
              hgt

/-- Among parts of one kind those that come after a part compare as greater. -/
theorem compare?_of_before {p q : SectionPart} (hp : p.WellFormed) (hq : q.WellFormed)
    (hkind : p.isLetters = q.isLetters) (h : Before p q) : q.compare? p = some .gt := by
  cases p with
  | number m =>
      cases q with
      | letters t => cases hkind
      | number n => exact congrArg some (Std.compare_eq_gt.2 h)
  | letters s =>
      cases q with
      | number n => cases hkind
      | letters t =>
          refine congrArg some ?_
          rw [utf8ByteSize_of_isCapitals hp.2, utf8ByteSize_of_isCapitals hq.2,
            Ordering.then_eq_gt, Nat.compare_eq_gt, Nat.compare_eq_eq]
          refine h.imp_right fun ⟨hlen, hlt⟩ => ⟨hlen.symm, ?_⟩
          exact (compareOfLessAndEq_eq_gt String.le_antisymm String.le_total String.not_le t s).2
            hlt

/-! ## The shown form -/

/-- A number is not shown as capital letters. -/
theorem not_isCapitals_repr (n : ℕ) : ¬ IsCapitals (Nat.repr n).toList := by
  intro h
  cases hdigits : (Nat.repr n).toList with
  | nil =>
      rw [Nat.toList_repr] at hdigits
      exact Nat.toDigits_ne_nil hdigits
  | cons c cs =>
      have hmem : c ∈ (Nat.repr n).toList := hdigits ▸ List.mem_cons_self
      have hdigit := Text.isDigit_of_mem_repr hmem
      have hupper := (isUpper_iff c).1 (h c hmem)
      rw [Char.isDigit, Bool.and_eq_true, decide_eq_true_eq, decide_eq_true_eq] at hdigit
      have hle : c.toNat ≤ 57 := UInt32.le_iff_toNat_le.1 hdigit.2
      omega

/-- A well-formed part is shown with digits or capital letters. -/
theorem isDigit_or_isUpper_of_mem_toString {p : SectionPart} (hp : p.WellFormed) {c : Char}
    (h : c ∈ p.toString.toList) : c.isDigit = true ∨ c.isUpper = true := by
  cases p with
  | number n => exact Or.inl (Text.isDigit_of_mem_repr h)
  | letters s => exact Or.inr (hp.2 c h)

/-- A well-formed part is shown without points. -/
theorem not_mem_toString {p : SectionPart} (hp : p.WellFormed) : '.' ∉ p.toString.toList :=
  mt (isDigit_or_isUpper_of_mem_toString hp) (by decide)

/-- Different well-formed parts are shown differently. -/
theorem toString_injective {p q : SectionPart} (hp : p.WellFormed) (hq : q.WellFormed)
    (h : p.toString = q.toString) : p = q := by
  cases p with
  | number m =>
      cases q with
      | number n => exact congrArg number (UInt32.toNat_inj.1 (Text.repr_injective h))
      | letters t =>
          have ht : IsCapitals (Nat.repr m.toNat).toList := by
            rw [show Nat.repr m.toNat = t from h]
            exact hq.2
          exact absurd ht (not_isCapitals_repr _)
  | letters s =>
      cases q with
      | letters t => exact congrArg letters h
      | number n =>
          have hs : IsCapitals (Nat.repr n.toNat).toList := by
            rw [show Nat.repr n.toNat = s from h.symm]
            exact hp.2
          exact absurd hs (not_isCapitals_repr _)

end SectionPart

namespace SectionId

/-- The order of ids: part by part, and an id before those that extend it. -/
def Before : SectionId → SectionId → Prop := List.Lex SectionPart.Before

/-- An id whose parts are well-formed. -/
def WellFormed (id : SectionId) : Prop := ∀ p ∈ id, p.WellFormed

/-- No id comes before itself. -/
theorem Before.irrefl (id : SectionId) : ¬ Before id id := by
  induction id with
  | nil => exact fun h => nomatch h
  | cons p id ih =>
      intro h
      cases h with
      | cons h => exact ih h
      | rel h => exact SectionPart.Before.irrefl p h

/-- A common beginning does not matter to the order. -/
theorem before_append (id : SectionId) {as bs : SectionId} (h : Before as bs) :
    Before (id ++ as) (id ++ bs) := by
  induction id with
  | nil => exact h
  | cons p id ih => exact List.Lex.cons ih

/-- An id comes before those that extend it. -/
theorem before_extend (id : SectionId) (p : SectionPart) (rest : SectionId) :
    Before id (id ++ p :: rest) := by
  have h := before_append id (List.Lex.nil : Before [] (p :: rest))
  rwa [List.append_nil] at h

/-- Ids in increasing order are different. -/
theorem nodup_of_pairwise {ids : List SectionId} (h : ids.Pairwise Before) : ids.Nodup := by
  refine h.imp ?_
  rintro as bs hlt rfl
  exact Before.irrefl as hlt

/-- The shown forms of the parts are found again between the points. -/
theorem splitOn_dotted {id : SectionId} (hid : id.WellFormed) (hne : id ≠ []) :
    id.dotted.toList.splitOn '.' = id.map fun p => p.toString.toList := by
  have hdot : ".".toList = ['.'] := rfl
  rw [dotted, String.toList_intercalate, hdot, List.splitOn_intercalate, List.map_map]
  · rfl
  · intro w hw
    rw [List.map_map, List.mem_map] at hw
    obtain ⟨p, hp, rfl⟩ := hw
    exact SectionPart.not_mem_toString (hid p hp)
  · simpa using hne

/-- Different ids of well-formed parts are shown differently. -/
theorem dotted_injective {as bs : SectionId} (has : as.WellFormed) (hbs : bs.WellFormed)
    (hane : as ≠ []) (hbne : bs ≠ []) (h : as.dotted = bs.dotted) : as = bs := by
  have hparts : (as.map fun p => p.toString.toList) = bs.map fun p => p.toString.toList := by
    rw [← splitOn_dotted has hane, h, splitOn_dotted hbs hbne]
  clear h hane hbne
  induction as generalizing bs with
  | nil =>
      cases bs with
      | nil => rfl
      | cons q bs => simp at hparts
  | cons p as ih =>
      cases bs with
      | nil => simp at hparts
      | cons q bs =>
          rw [List.map_cons, List.map_cons, List.cons.injEq] at hparts
          have hpq := SectionPart.toString_injective (has p List.mem_cons_self)
            (hbs q List.mem_cons_self) (String.toList_inj.1 hparts.1)
          have hrest := ih (fun r hr => has r (List.mem_cons_of_mem _ hr))
            (fun r hr => hbs r (List.mem_cons_of_mem _ hr)) hparts.2
          rw [hpq, hrest]

end SectionId

end SpecDoc
