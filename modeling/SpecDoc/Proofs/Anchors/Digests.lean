import Mathlib.Logic.Function.Iterate
import SpecDoc.Proofs.Anchors.Search

/-!
# The search for a digest

A content is known by the first digest in the chain of its rehashes that was not given away and has a
free anchor. The search for it is bounded, and the bounds do not matter.

* `Searched` says by rules what the search finds, without a bound;
* `contentAnchor?_eq_some_iff`: the search finds just what the rules say.
-/

namespace SpecDoc

open Text

namespace AnchorState

/-! ## Chains -/

/-- The digest after `k` rehashes. -/
def chain (normalized digest : String) (k : ℕ) : String :=
  (fun d => ContentHash.rehash d normalized)^[k] digest

/-- `IsFirstUnused used normalized digest d`: in the chain of `digest` the first digest that was not
given away is `d`. -/
def IsFirstUnused (used : List String) (normalized digest d : String) : Prop :=
  ∃ k, chain normalized digest k = d ∧ d ∉ used ∧ ∀ j < k, chain normalized digest j ∈ used

/-- The first unused digest of a chain was not given away. -/
theorem IsFirstUnused.not_mem {used : List String} {normalized digest d : String}
    (h : IsFirstUnused used normalized digest d) : d ∉ used := by
  obtain ⟨k, -, hunused, -⟩ := h
  exact hunused

/-- The chain does not run into itself before it comes to a digest that was not given away. -/
theorem nodup_map_chain {used : List String} {normalized digest : String} {k : ℕ}
    (hk : chain normalized digest k ∉ used) (hbefore : ∀ j < k, chain normalized digest j ∈ used) :
    ((List.range k).map (chain normalized digest)).Nodup := by
  -- From two equal digests on the chain goes around, and what is at `k` has been there before.
  have hne : ∀ i j, i < j → j < k → chain normalized digest i ≠ chain normalized digest j := by
    intro i j hij hj heq
    have hshift : chain normalized digest (k - j + i) = chain normalized digest (k - j + j) := by
      rw [chain, chain, Function.iterate_add_apply, Function.iterate_add_apply]
      exact congrArg _ heq
    rw [Nat.sub_add_cancel (Nat.le_of_lt hj)] at hshift
    apply hk
    rw [← hshift]
    exact hbefore _ (by omega)
  refine List.Nodup.map_on ?_ List.nodup_range
  intro i hi j hj heq
  rw [List.mem_range] at hi hj
  rcases Nat.lt_trichotomy i j with hij | hij | hij
  · exact absurd heq (hne i j hij hj)
  · exact hij
  · exact absurd heq.symm (hne j i hij hi)

/-- A chain comes to a digest that was not given away after no more steps than there are others. -/
theorem le_length_of_chain {used : List String} {normalized digest : String} {k : ℕ}
    (hk : chain normalized digest k ∉ used) (hbefore : ∀ j < k, chain normalized digest j ∈ used) :
    k ≤ used.length := by
  have hsubset : (List.range k).map (chain normalized digest) ⊆ used := by
    intro d hd
    obtain ⟨j, hj, rfl⟩ := List.mem_map.1 hd
    exact hbefore j (List.mem_range.1 hj)
  have hlength := List.Nodup.length_le_of_subset (nodup_map_chain hk hbefore) hsubset
  rwa [List.length_map, List.length_range] at hlength

/-- The bounded search goes along the chain. -/
theorem freshDigest?_eq_some_iff (used : List String) (normalized digest d : String) (fuel : ℕ) :
    freshDigest? used normalized fuel digest = some d ↔
      ∃ k < fuel, chain normalized digest k = d ∧ d ∉ used ∧
        ∀ j < k, chain normalized digest j ∈ used := by
  induction fuel generalizing digest with
  | zero => simp [freshDigest?]
  | succ fuel ih =>
      rw [freshDigest?]
      by_cases hused : digest ∈ used
      · rw [if_pos hused, ih]
        constructor
        · rintro ⟨k, hk, hd, hunused, hbefore⟩
          refine ⟨k + 1, by omega, hd, hunused, ?_⟩
          intro j hj
          cases j with
          | zero => exact hused
          | succ j => exact hbefore j (by omega)
        · rintro ⟨k, hk, hd, hunused, hbefore⟩
          cases k with
          | zero =>
              cases hd
              exact absurd hused hunused
          | succ k =>
              exact ⟨k, by omega, hd, hunused, fun j hj => hbefore (j + 1) (by omega)⟩
      · rw [if_neg hused, Option.some.injEq]
        constructor
        · rintro rfl
          exact ⟨0, by omega, rfl, hused, by simp⟩
        · rintro ⟨k, -, hd, -, hbefore⟩
          cases k with
          | zero => exact hd
          | succ k => exact absurd (hbefore 0 (by omega)) hused

/-- The bound on the search along the chain does not matter. -/
theorem freshDigest?_length_eq_some_iff (used : List String) (normalized digest d : String) :
    freshDigest? used normalized (used.length + 1) digest = some d ↔
      IsFirstUnused used normalized digest d := by
  rw [freshDigest?_eq_some_iff]
  constructor
  · rintro ⟨k, -, h⟩
    exact ⟨k, h⟩
  · rintro ⟨k, rfl, hunused, hbefore⟩
    have hk := le_length_of_chain hunused hbefore
    exact ⟨k, by omega, rfl, hunused, hbefore⟩

/-! ## Anchors of full length -/

/-- A text with the form of a digest, which can be told from what its anchor of full length is. -/
structure IsDigest (d : String) : Prop where
  length : d.toList.length = ContentHash.digestLength
  slug : ∀ c ∈ d.toList, isSlugChar c = true

/-- Hexadecimal digits are kept by slugs. -/
theorem isSlugChar_of_isHexDigit {c : Char} (h : isHexDigit c = true) : isSlugChar c = true := by
  rw [isHexDigit, Bool.or_eq_true, Bool.and_eq_true, decide_eq_true_eq, decide_eq_true_eq] at h
  rcases h with hdigit | ⟨ha, hf⟩
  · simp [isSlugChar, Char.isAlphanum, hdigit]
  · have hlower : c.isLower = true := by
      show (decide ('a'.val ≤ c.val) && decide (c.val ≤ 'z'.val)) = true
      rw [Bool.and_eq_true, decide_eq_true_eq, decide_eq_true_eq]
      exact ⟨ha, UInt32.le_trans hf (by decide)⟩
    have halpha : c.isAlpha = true := Bool.or_eq_true_iff.2 (Or.inr hlower)
    simp [isSlugChar, Char.isAlphanum, halpha]

/-- A digest has the form of one. -/
theorem isDigest_digest (normalized : String) : IsDigest (ContentHash.digest normalized) where
  length := by
    rw [String.length_toList, ContentHash.length_digest]
  slug := by
    intro c hc
    rw [ContentHash.digest, String.toList_ofList] at hc
    exact isSlugChar_of_isHexDigit (Sha256.isHexDigit_of_mem_digest hc)

/-- All digests of a chain have the form of one. -/
theorem IsDigest.chain {digest : String} (h : IsDigest digest) (normalized : String) (k : ℕ) :
    IsDigest (chain normalized digest k) := by
  cases k with
  | zero => exact h
  | succ k =>
      rw [AnchorState.chain, Function.iterate_succ_apply']
      exact isDigest_digest _

/-- A digest that was not given away has the form of one. -/
theorem IsFirstUnused.isDigest {used : List String} {normalized digest d : String}
    (h : IsFirstUnused used normalized digest d) (hdigest : IsDigest digest) : IsDigest d := by
  obtain ⟨k, rfl, -, -⟩ := h
  exact hdigest.chain normalized k

/-- A lead and the first characters of a digest. -/
def startAnchor (lead digest : String) (length : ℕ) : String :=
  lead ++ String.ofList (digest.toList.take length)

/-- An anchor made of a digest shows its start as it is. -/
theorem hashAnchor_eq_startAnchor {lead d : String} (hlead : ∀ c ∈ lead.toList, isSlugChar c = true)
    (hd : IsDigest d) (length : ℕ) : hashAnchor lead d length = startAnchor lead d length := by
  have hchars : ∀ c ∈ (startAnchor lead d length).toList, isSlugChar c = true := by
    intro c hc
    rw [startAnchor, String.toList_append, String.toList_ofList, List.mem_append] at hc
    exact hc.elim (hlead c) (fun hc => hd.slug c (List.mem_of_mem_take hc))
  rw [hashAnchor, ← startAnchor, slug, slugChars, slugFrom_eq_self hchars, String.ofList_toList]

/-- An anchor of full length shows the whole digest. -/
theorem hashAnchor_digestLength {lead d : String} (hlead : ∀ c ∈ lead.toList, isSlugChar c = true)
    (hd : IsDigest d) : hashAnchor lead d ContentHash.digestLength = lead ++ d := by
  rw [hashAnchor_eq_startAnchor hlead hd, startAnchor, ← hd.length, List.take_length,
    String.ofList_toList]

/-- If no start of a digest is free, its anchor of full length is taken. -/
theorem contains_of_firstFree?_eq_none {b : Biblio} {lead digest : String} {length count : ℕ}
    (h : firstFree? b lead digest length count = none) :
    ∀ j < count, b.contains (hashAnchor lead digest (length + j)) = true := by
  induction count generalizing length with
  | zero => intro j hj; omega
  | succ count ih =>
      rw [firstFree?] at h
      split at h
      · next htaken =>
        intro j hj
        cases j with
        | zero => exact htaken
        | succ j =>
            have hrest := ih h j (by omega)
            rwa [show length + (j + 1) = length + 1 + j by omega]
      · cases h

/-! ## The search -/

/-- The state with a digest given away. -/
def giveAway (s : AnchorState) (d : String) : AnchorState :=
  { s with usedDigests := d :: s.usedDigests }

/-- `Searched length lead normalized digest s id s'`: the search that starts with `digest` in the state
`s` finds the anchor `id`, which leads to the state `s'`. -/
inductive Searched (length : ℕ) (lead normalized : String) :
    String → AnchorState → String → AnchorState → Prop where
  /-- The next digest has a free anchor. -/
  | found {digest d id : String} {s : AnchorState}
      (hunused : IsFirstUnused s.usedDigests normalized digest d)
      (hfree : firstFree? s.biblio lead d length (ContentHash.digestLength + 1 - length) = some id) :
      Searched length lead normalized digest s id ((s.giveAway d).register id)
  /-- The next digest has none, and the search goes on behind it. -/
  | passed {digest d id : String} {s s' : AnchorState}
      (hunused : IsFirstUnused s.usedDigests normalized digest d)
      (hfree : firstFree? s.biblio lead d length (ContentHash.digestLength + 1 - length) = none)
      (hrest : Searched length lead normalized d (s.giveAway d) id s') :
      Searched length lead normalized digest s id s'

/-- What the bounded search finds is found by the rules. -/
theorem searched_of_hashedAnchor? {length fuel : ℕ} {lead normalized digest id : String}
    {s s' : AnchorState}
    (h : hashedAnchor? length lead normalized fuel digest s = some (id, s')) :
    Searched length lead normalized digest s id s' := by
  induction fuel generalizing digest s with
  | zero => cases h
  | succ fuel ih =>
      rw [hashedAnchor?] at h
      split at h
      · cases h
      · next hdigest =>
        rw [freshDigest?_length_eq_some_iff] at hdigest
        dsimp only at h
        split at h
        · next hfree =>
          cases h
          exact .found hdigest hfree
        · next hfree => exact .passed hdigest hfree (ih h)

/-- Digests whose anchors of full length are taken are no more than the biblio has entries. -/
theorem length_le_size_of_taken {b : Biblio} {lead : String} {digests : List String}
    (hlead : ∀ c ∈ lead.toList, isSlugChar c = true) (hdigests : ∀ d ∈ digests, IsDigest d)
    (hnodup : digests.Nodup)
    (htaken : ∀ d ∈ digests, b.contains (hashAnchor lead d ContentHash.digestLength) = true) :
    digests.length ≤ b.size := by
  have hinjective : ∀ d ∈ digests, ∀ e ∈ digests, lead ++ d = lead ++ e → d = e := by
    intro d _ e _ heq
    have htoList : lead.toList ++ d.toList = lead.toList ++ e.toList := by
      rw [← String.toList_append, ← String.toList_append, heq]
    exact String.toList_inj.1 (List.append_cancel_left htoList)
  have hlength := Biblio.length_le_size (hnodup.map_on hinjective) (by
    intro key hkey
    obtain ⟨d, hd, rfl⟩ := List.mem_map.1 hkey
    rw [← hashAnchor_digestLength hlead (hdigests d hd)]
    exact htaken d hd)
  rwa [List.length_map] at hlength

/-- What is found by the rules is found by the bounded search, behind any digests that it has passed:
each of these took up an entry of the biblio, and no more than the rest of them can follow. -/
theorem hashedAnchor?_of_searched {length : ℕ} {lead normalized digest id : String}
    {s s' : AnchorState} (h : Searched length lead normalized digest s id s')
    (hlead : ∀ c ∈ lead.toList, isSlugChar c = true) (hlength : length ≤ ContentHash.digestLength)
    (hdigest : IsDigest digest) :
    ∀ (passed : List String) (fuel : ℕ), (∀ d ∈ passed, IsDigest d) → passed.Nodup →
      (∀ d ∈ passed, d ∈ s.usedDigests) →
      (∀ d ∈ passed, s.biblio.contains (hashAnchor lead d ContentHash.digestLength) = true) →
      s.biblio.size < fuel + passed.length →
      hashedAnchor? length lead normalized fuel digest s = some (id, s') := by
  induction h with
  | @found digest d id s hunused hfree =>
      intro passed fuel hdigests hnodup hused htaken hfuel
      have hpassed := length_le_size_of_taken hlead hdigests hnodup htaken
      cases fuel with
      | zero => omega
      | succ fuel =>
          rw [hashedAnchor?, (freshDigest?_length_eq_some_iff _ _ _ _).2 hunused]
          dsimp only
          rw [hfree]
          rfl
  | @passed digest d id s s' hunused hfree _ ih =>
      intro passed fuel hdigests hnodup hused htaken hfuel
      have hpassed := length_le_size_of_taken hlead hdigests hnodup htaken
      have hd := hunused.isDigest hdigest
      have hfull := contains_of_firstFree?_eq_none hfree (ContentHash.digestLength - length) (by omega)
      rw [Nat.add_sub_cancel' hlength] at hfull
      cases fuel with
      | zero => omega
      | succ fuel =>
          rw [hashedAnchor?, (freshDigest?_length_eq_some_iff _ _ _ _).2 hunused]
          dsimp only
          rw [hfree]
          dsimp only
          refine ih hd (d :: passed) fuel ?_ ?_ ?_ ?_ ?_
          · exact List.forall_mem_cons.2 ⟨hd, hdigests⟩
          · exact List.nodup_cons.2 ⟨fun hmem => hunused.not_mem (hused d hmem), hnodup⟩
          · refine List.forall_mem_cons.2 ⟨List.mem_cons_self, ?_⟩
            intro e he
            exact List.mem_cons_of_mem _ (hused e he)
          · exact List.forall_mem_cons.2 ⟨hfull, htaken⟩
          · rw [List.length_cons]
            show s.biblio.size < _
            omega

/-- **The bounds do not matter.** The search for the anchor of a content finds just what it would find
without them. -/
theorem contentAnchor?_eq_some_iff {o : AnchorOptions} {lead normalized id : String}
    {s s' : AnchorState} (hlead : ∀ c ∈ lead.toList, isSlugChar c = true) :
    contentAnchor? o lead normalized s = some (id, s') ↔
      Searched o.firstLength lead normalized (ContentHash.digest normalized) s id s' := by
  constructor
  · exact searched_of_hashedAnchor?
  · intro h
    have hlength : o.firstLength ≤ ContentHash.digestLength := by
      rw [AnchorOptions.firstLength, ContentHash.digestLength]
      omega
    exact hashedAnchor?_of_searched h hlead hlength (isDigest_digest normalized) [] _ (by simp)
      List.nodup_nil (by simp) (by simp) (by simp)

end AnchorState

end SpecDoc
