import SpecDoc.Annotation.Anchors
import SpecDoc.Proofs.Biblio
import SpecDoc.Proofs.Text.Decimal

/-!
# Free anchors

A term is given the first free anchor of a sequence of numbered ones, and an example or a note the first
free one among the starts of its digest. Both searches only return what is free.

* `IsLed` says what such an anchor is made of;
* `freeNumbered?_eq_some_iff`, `freeNumbered?_eq_none_iff`: the search among numbers ends with the first
  free one, or has tried them all;
* `termAnchor?_isFree`: the anchor of a term is not taken;
* `contentAnchor?_eq_some`: the anchor of a content is not taken, and it is what gets registered.
-/

namespace SpecDoc

open Text

/-- An anchor that is not a key of the biblio. -/
def Biblio.IsFree (b : Biblio) (id : String) : Prop := b.contains id = false

/-- What is free after an anchor was registered was free before. -/
theorem Biblio.IsFree.of_register {b : Biblio} {id key : String} (h : (b.register id).IsFree key) :
    b.IsFree key := by
  by_contra htaken
  rw [IsFree, Bool.not_eq_false] at htaken
  have hkey := (contains_register b id key).2 (Or.inl htaken)
  exact Bool.false_ne_true (h.symm.trans hkey)

/-- An anchor is not free after it was registered. -/
theorem Biblio.not_isFree_register (b : Biblio) (id : String) : ¬ (b.register id).IsFree id := by
  intro h
  have hkey := (contains_register b id id).2 (Or.inr rfl)
  exact Bool.false_ne_true (h.symm.trans hkey)

/-- A free anchor that is registered leads to itself, and the others lead where they did. -/
theorem Biblio.find?_register_of_isFree {b : Biblio} {id : String} (hfree : b.IsFree id)
    (key : String) :
    (b.register id).find? key = if key = id then some (localUrl id) else b.find? key := by
  have hnone : b.find? id = none := by
    rw [IsFree, Table.contains, Option.isSome_eq_false_iff, Option.isNone_iff_eq_none] at hfree
    exact hfree
  rw [find?_register]
  by_cases hkey : key = id
  · rw [if_pos hkey, if_pos hkey, hkey, hnone, Option.none_or]
  · rw [if_neg hkey, if_neg hkey, Option.or_none]

/-! ## Slugs -/

/-- A slug has only the characters that a slug keeps. -/
theorem isSlugChar_of_mem_slug {s : String} {c : Char} (h : c ∈ (slug s).toList) :
    isSlugChar c = true := by
  rw [slug, String.toList_ofList] at h
  exact isSlugChar_of_mem_slugFrom h

/-- A character that a slug does not keep is in no slug. -/
theorem notMem_slug {c : Char} (hc : isSlugChar c = false) (s : String) : c ∉ (slug s).toList :=
  mt isSlugChar_of_mem_slug (by simp [hc])

/-- Whether an anchor is a lead and then characters that a slug keeps. -/
def IsLed (lead id : String) : Prop :=
  ∃ tail : String, id = lead ++ tail ∧ ∀ c ∈ tail.toList, isSlugChar c = true

/-- An anchor behind a lead has characters of slugs, and others only in the lead. -/
theorem IsLed.notMem {lead id : String} (h : IsLed lead id) {c : Char} (hc : isSlugChar c = false)
    (hlead : c ∉ lead.toList) : c ∉ id.toList := by
  obtain ⟨tail, rfl, htail⟩ := h
  rw [String.toList_append, List.mem_append, not_or]
  exact ⟨hlead, mt (htail c) (by simp [hc])⟩

namespace AnchorState

/-! ## Terms -/

/-- The anchor of a term with a number. -/
def numbered (base : String) (k : ℕ) : String := base ++ "-" ++ Nat.repr k

/-- The search ends with a number iff this is the first free one among those that it can try. -/
theorem freeNumbered?_eq_some_iff {b : Biblio} {base id : String} {k left : ℕ} :
    freeNumbered? b base k left = some id ↔
      ∃ j, k ≤ j ∧ j < k + left ∧ id = numbered base j ∧ b.IsFree (numbered base j) ∧
        ∀ i, k ≤ i → i < j → b.contains (numbered base i) = true := by
  induction left generalizing k with
  | zero =>
      constructor
      · intro h
        cases h
      · rintro ⟨j, hk, hj, -⟩
        omega
  | succ left ih =>
      rw [freeNumbered?, ← numbered]
      by_cases htaken : b.contains (numbered base k) = true
      · rw [if_pos htaken, ih]
        constructor
        · rintro ⟨j, hk, hj, rfl, hfree, hbelow⟩
          refine ⟨j, by omega, by omega, rfl, hfree, fun i hi hij => ?_⟩
          obtain rfl | hne := eq_or_ne i k
          · exact htaken
          · exact hbelow i (by omega) hij
        · rintro ⟨j, hk, hj, rfl, hfree, hbelow⟩
          have hne : j ≠ k := by
            rintro rfl
            exact Bool.false_ne_true (hfree.symm.trans htaken)
          exact ⟨j, by omega, by omega, rfl, hfree, fun i hi => hbelow i (by omega)⟩
      · have hfree : b.IsFree (numbered base k) := Bool.eq_false_iff.2 htaken
        rw [if_neg htaken, Option.some_inj]
        constructor
        · rintro rfl
          exact ⟨k, Nat.le_refl k, by omega, rfl, hfree, by omega⟩
        · rintro ⟨j, hk, hj, rfl, -, hbelow⟩
          have hjk : ¬k < j := fun hlt => htaken (hbelow k (Nat.le_refl k) hlt)
          obtain rfl : j = k := by omega
          rfl

/-- The anchor of a term is not taken. -/
theorem termAnchor?_isFree {b : Biblio} {term id : String} (h : termAnchor? b term = some id) :
    b.IsFree id := by
  unfold termAnchor? at h
  dsimp only at h
  split at h
  · obtain ⟨j, -, -, rfl, hfree, -⟩ := freeNumbered?_eq_some_iff.1 h
    exact hfree
  · next hfree =>
    cases h
    exact Bool.eq_false_iff.2 hfree

/-- What anchoring does with a term: it gets an anchor, and this one is registered. -/
theorem anchorGroup_definitionTerm_eq_ok {o : AnchorOptions} {slugs : List String} {name : String}
    {old : Option String} {span : Option Span} {contents : List Node} {s s' : AnchorState} {g' : Group}
    (h : (sweep o slugs).group (.definitionTerm name old) span contents s = .ok (g', s')) :
    ∃ id, termAnchor? s.biblio (if name.isEmpty then Node.plainText contents else name) = some id ∧
      g' = .definitionTerm name (some id) ∧ s' = s.register id := by
  simp only [sweep, anchorGroup] at h
  split at h
  · cases h
  · next id hid =>
    cases h
    exact ⟨id, hid, rfl, rfl⟩

/-! ## Content hashes -/

/-- The search among the starts of a digest returns one that is not taken. -/
theorem isFree_of_firstFree? {b : Biblio} {lead digest id : String} {length count : ℕ}
    (h : firstFree? b lead digest length count = some id) : b.IsFree id := by
  induction count generalizing length with
  | zero => cases h
  | succ count ih =>
      rw [firstFree?] at h
      split at h
      · exact ih h
      · next hfree =>
        cases h
        exact Bool.eq_false_iff.2 hfree

/-- The search among all digests returns an anchor that is not taken and registers it. The sections
around the place stay what they are. -/
theorem hashedAnchor?_eq_some {length fuel : ℕ} {lead normalized digest id : String}
    {s s' : AnchorState}
    (h : hashedAnchor? length lead normalized fuel digest s = some (id, s')) :
    s.biblio.IsFree id ∧ s'.biblio = s.biblio.register id ∧ s'.around = s.around := by
  induction fuel generalizing digest s with
  | zero => cases h
  | succ fuel ih =>
      rw [hashedAnchor?] at h
      dsimp only at h
      split at h
      · cases h
      · split at h
        · next hfree =>
          cases h
          exact ⟨isFree_of_firstFree? hfree, rfl, rfl⟩
        · obtain ⟨hfree, hbiblio, haround⟩ := ih h
          exact ⟨hfree, hbiblio, haround⟩

/-- The anchor of a content is not taken, and it is what gets registered. -/
theorem contentAnchor?_eq_some {o : AnchorOptions} {lead normalized id : String}
    {s s' : AnchorState} (h : contentAnchor? o lead normalized s = some (id, s')) :
    s.biblio.IsFree id ∧ s'.biblio = s.biblio.register id ∧ s'.around = s.around :=
  hashedAnchor?_eq_some h

/-- What anchoring does with a note: it gets an anchor made of the digest of its text. -/
theorem anchorGroup_note_eq_ok {o : AnchorOptions} {slugs : List String} {old : Option String}
    {span : Option Span} {contents : List Node} {s s' : AnchorState} {g' : Group}
    (h : (sweep o slugs).group (.note old) span contents s = .ok (g', s')) :
    ∃ id, contentAnchor? o "note-" (ContentHash.normalizeProse (Node.plainText contents)) s
        = some (id, s') ∧
      g' = .note (some id) := by
  simp only [sweep, anchorGroup] at h
  split at h
  · cases h
  · next id _ hcontent =>
    cases h
    exact ⟨id, hcontent, rfl⟩

end AnchorState

end SpecDoc
