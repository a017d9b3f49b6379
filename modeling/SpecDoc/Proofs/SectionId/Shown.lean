import SpecDoc.Annotation.Numbering
import SpecDoc.Proofs.SectionId.Order
import SpecDoc.Proofs.Text.Lines

/-!
# Shown ids as tokens

A section is shown with its id, and the id can be written as the numbering token of its heading. The
token then asks for the part that the section has, and the part is accepted wherever it was given.

* `parse?_toString`: a part is read back from how it is shown;
* `ofToken_dotted`: an id that is shown asks for its last part;
* `resolve_dotted`: a section that has a part also gets it if its shown id is its token.
-/

namespace SpecDoc

open Text

namespace SectionPart

/-! ## Parts -/

/-- A capital letter is no digit. -/
theorem isDigit_of_isUpper {c : Char} (h : c.isUpper = true) : c.isDigit = false := by
  have hc := (isUpper_iff c).1 h
  have hle : ¬ c.val ≤ '9'.val := by
    intro hle
    have : c.toNat ≤ 57 := UInt32.le_iff_toNat_le.1 hle
    omega
  show (decide ('0'.val ≤ c.val) && decide (c.val ≤ '9'.val)) = false
  rw [decide_eq_false hle, Bool.and_false]

/-- Capital letters are no numeral. -/
theorem decimal?_of_isCapitals {cs : List Char} (h : IsCapitals cs) : decimal? cs = none := by
  cases cs with
  | nil => rfl
  | cons c cs =>
      have hc := isDigit_of_isUpper ((isCapitals_cons c cs).1 h).1
      rw [decimal?, List.all_cons, hc]
      rfl

/-- A part is read back from how it is shown. -/
theorem parse?_toString {p : SectionPart} (hp : p.WellFormed) : parse? p.toString = some p := by
  cases p with
  | number n =>
      have hlt : n.toNat < UInt32.size := n.toNat_lt
      rw [parse?, toString, decimal?_repr]
      dsimp only
      rw [if_pos hlt, UInt32.ofNat_toNat]
  | letters s =>
      obtain ⟨hne, hs⟩ := hp
      have hall : s.toList.all Char.isUpper = true := List.all_eq_true.2 hs
      rw [parse?, toString, decimal?_of_isCapitals hs]
      dsimp only
      rw [hall, if_neg (by simp [hne])]

/-- A part is shown by at least one character. -/
theorem toString_ne_empty {p : SectionPart} (hp : p.WellFormed) : p.toString ≠ "" := by
  intro h
  have hparse := parse?_toString hp
  rw [h] at hparse
  cases hparse

/-! ## Tokens -/

/-- The last part of an id is the last one between the points of the shown id. -/
theorem lastPart_dotted {id : SectionId} (hid : id.WellFormed) {p : SectionPart} (hp : p.WellFormed) :
    lastPart (SectionId.dotted (id ++ [p])) = p.toString := by
  have hwf : SectionId.WellFormed (id ++ [p]) :=
    List.forall_mem_append.2 ⟨hid, List.forall_mem_singleton.2 hp⟩
  -- No part is shown with a point, so all points of the shown id are between parts.
  have hparts : cut (· == '.') (SectionId.dotted (id ++ [p])).toList
      = (id ++ [p]).map fun q => q.toString.toList := by
    have hdots : ∀ w ∈ (id ++ [p]).map fun q => q.toString.toList, '.' ∉ w := by
      intro w hw
      obtain ⟨q, hq, rfl⟩ := List.mem_map.1 hw
      exact not_mem_toString (hwf q hq)
    have hjoin : (SectionId.dotted (id ++ [p])).toList
        = join ['.'] ((id ++ [p]).map fun q => q.toString.toList) := by
      rw [SectionId.dotted, String.toList_intercalate, List.map_map, ← intercalate_eq_join]
      rfl
    rw [hjoin, cut_join hdots (by simp)]
  -- And no part is shown as nothing.
  have hfilter : ((id ++ [p]).map fun q => q.toString.toList).filter (!·.isEmpty)
      = (id ++ [p]).map fun q => q.toString.toList := by
    refine List.filter_eq_self.2 ?_
    intro w hw
    obtain ⟨q, hq, rfl⟩ := List.mem_map.1 hw
    have hne := toString_ne_empty (hwf q hq)
    simpa using hne
  rw [lastPart, hparts, hfilter, List.map_append, List.map_singleton, List.getLast?_concat,
    Option.getD_some, String.ofList_toList]

/-- A shown id asks for its last part. -/
theorem ofToken_dotted {id : SectionId} (hid : id.WellFormed) {p : SectionPart} (hp : p.WellFormed) :
    ofToken (SectionId.dotted (id ++ [p])) = .ok p := by
  unfold ofToken
  dsimp only
  rw [lastPart_dotted hid hp, parse?_toString hp]

/-! ## Accepted parts -/

/-- The part that follows a part is of the same kind. -/
theorem isLetters_of_next? {p q : SectionPart} (h : p.next? = some q) :
    p.isLetters = q.isLetters := by
  cases p with
  | letters s =>
      cases h
      exact Eq.refl true
  | number n =>
      unfold next? at h
      dsimp only at h
      split at h
      · cases h
      · cases h
        exact Eq.refl false

/-- There is no objection to the part that follows a part. -/
theorem objection?_of_next? {p q : SectionPart} (hp : p.WellFormed) (h : p.next? = some q) :
    objection? p q = none := by
  obtain ⟨hq, hbefore⟩ := before_next? hp h
  have hkind := isLetters_of_next? h
  rw [objection?_of_kind hkind, if_pos (compare?_of_before hp hq hkind hbefore)]

/-- There is no objection to a part that a section has. -/
theorem objection?_of_resolve {p part : SectionPart} {token : Option String} (hp : p.WellFormed)
    (h : resolve (some p) token = .ok part) : objection? p part = none := by
  cases token with
  | none =>
      unfold resolve at h
      dsimp only at h
      split at h
      · next hnext =>
        cases h
        exact objection?_of_next? hp hnext
      · cases h
  | some token =>
      unfold resolve at h
      dsimp only at h
      split at h
      · cases h
      · next hnone => cases hnone
      · next hsome =>
        cases hsome
        split at h
        · next hobjection =>
          cases h
          exact hobjection
        · cases h

/-- A section that has a part also gets it if its token is an id that ends with the part. -/
theorem resolve_dotted {previous : Option SectionPart} {token : Option String} {part : SectionPart}
    {id : SectionId} (hprevious : ∀ p ∈ previous, p.WellFormed) (hid : id.WellFormed)
    (hpart : part.WellFormed) (h : resolve previous token = .ok part) :
    resolve previous (some (SectionId.dotted (id ++ [part]))) = .ok part := by
  unfold resolve
  dsimp only
  rw [ofToken_dotted hid hpart]
  cases previous with
  | none => rfl
  | some p =>
      dsimp only
      rw [objection?_of_resolve (hprevious p rfl) h]

end SectionPart

end SpecDoc
