import SpecDoc.Proofs.Anchors.Digests

/-!
# Anchors of hashed content

The anchor of an example or a note is a lead and the start of a digest. The search for it passes over digests
that were given away and over those all of whose starts are taken, and of the next one it takes the shortest
start that is free.

* `firstFree?_eq_some_iff`: the search among the starts of one digest;
* `Searched.exists_chain`: the search along the chain of digests;
* `finds_of_hashedAnchor?`: what is known of an anchor that was found.
-/

namespace SpecDoc

open Text

namespace AnchorState

/-! ## The starts of a digest -/

/-- The search among the starts of a digest finds the shortest one that is free. -/
theorem firstFree?_eq_some_iff {b : Biblio} {lead digest id : String} {length count : ℕ} :
    firstFree? b lead digest length count = some id ↔
      ∃ n, length ≤ n ∧ n < length + count ∧ hashAnchor lead digest n = id ∧ b.IsFree id ∧
        ∀ m, length ≤ m → m < n → b.contains (hashAnchor lead digest m) = true := by
  induction count generalizing length with
  | zero =>
      constructor
      · intro h
        cases h
      · rintro ⟨n, hlength, hn, -⟩
        omega
  | succ count ih =>
      rw [firstFree?]
      by_cases htaken : b.contains (hashAnchor lead digest length) = true
      · rw [if_pos htaken, ih]
        constructor
        · rintro ⟨n, hlength, hn, hid, hfree, hbelow⟩
          refine ⟨n, by omega, by omega, hid, hfree, ?_⟩
          intro m hm hmn
          by_cases heq : m = length
          · rw [heq]
            exact htaken
          · exact hbelow m (by omega) hmn
        · rintro ⟨n, hlength, hn, hid, hfree, hbelow⟩
          have hne : n ≠ length := by
            rintro rfl
            rw [← hid, Biblio.IsFree, htaken] at hfree
            cases hfree
          exact ⟨n, by omega, by omega, hid, hfree, fun m hm => hbelow m (by omega)⟩
      · rw [if_neg htaken, Option.some.injEq]
        constructor
        · rintro rfl
          exact ⟨length, Nat.le_refl _, by omega, rfl, Bool.eq_false_iff.2 htaken, by omega⟩
        · rintro ⟨n, hlength, -, hid, -, hbelow⟩
          by_cases heq : n = length
          · rw [← hid, heq]
          · exact absurd (hbelow length (Nat.le_refl _) (by omega)) htaken

/-! ## The chain of digests -/

/-- To go on along the chain from one of its digests is to go on from its start. -/
theorem chain_add (normalized digest : String) (j k : ℕ) :
    chain normalized (chain normalized digest k) j = chain normalized digest (j + k) :=
  (Function.iterate_add_apply _ j k digest).symm

/-- If a digest of the chain is given away behind all before it, those up to this one are given away. -/
theorem mem_giveAway_iff {normalized digest : String} {k : ℕ} {s : AnchorState}
    (hbefore : ∀ j < k, chain normalized digest j ∈ s.usedDigests) (e : String) :
    e ∈ (s.giveAway (chain normalized digest k)).usedDigests ↔
      e ∈ s.usedDigests ∨ ∃ j ≤ k, chain normalized digest j = e := by
  show e ∈ chain normalized digest k :: s.usedDigests ↔ _
  constructor
  · intro he
    rcases List.mem_cons.1 he with rfl | he
    · exact Or.inr ⟨k, Nat.le_refl k, rfl⟩
    · exact Or.inl he
  · rintro (he | ⟨j, hj, rfl⟩)
    · exact List.mem_cons_of_mem _ he
    · rcases Nat.lt_or_eq_of_le hj with hj | rfl
      · exact List.mem_cons_of_mem _ (hbefore j hj)
      · exact List.mem_cons_self

/-- The digests of a chain up to one that comes later are those up to another one and those from there. -/
theorem exists_chain_add_iff {normalized digest : String} {i k : ℕ} {e : String} :
    (∃ j ≤ k + i, chain normalized digest j = e) ↔
      (∃ j ≤ i, chain normalized digest j = e) ∨
        ∃ j ≤ k, chain normalized digest (j + i) = e := by
  constructor
  · rintro ⟨j, hj, rfl⟩
    rcases Nat.le_total j i with hji | hij
    · exact Or.inl ⟨j, hji, rfl⟩
    · exact Or.inr ⟨j - i, by omega, by rw [Nat.sub_add_cancel hij]⟩
  · rintro (⟨j, hj, rfl⟩ | ⟨j, hj, rfl⟩)
    · exact ⟨j, by omega, rfl⟩
    · exact ⟨j + i, by omega, rfl⟩

/-- The search ends at a digest of the chain that was not given away, at a free one of its starts. No other
digest before it that was not given away has one. Afterwards all digests of the chain up to this one are given
away, and the anchor is registered. -/
theorem Searched.exists_chain {length : ℕ} {lead normalized digest id : String} {s s' : AnchorState}
    (h : Searched length lead normalized digest s id s') :
    ∃ k, chain normalized digest k ∉ s.usedDigests ∧
      firstFree? s.biblio lead (chain normalized digest k) length
        (ContentHash.digestLength + 1 - length) = some id ∧
      (∀ j < k, chain normalized digest j ∉ s.usedDigests →
        firstFree? s.biblio lead (chain normalized digest j) length
          (ContentHash.digestLength + 1 - length) = none) ∧
      (∀ e, e ∈ s'.usedDigests ↔
        e ∈ s.usedDigests ∨ ∃ j ≤ k, chain normalized digest j = e) ∧
      s'.biblio = s.biblio.register id ∧ s'.around = s.around := by
  induction h with
  | @found digest d id s hunused hfree =>
      obtain ⟨k, rfl, hk, hbefore⟩ := hunused
      exact ⟨k, hk, hfree, fun j hj hnot => absurd (hbefore j hj) hnot,
        mem_giveAway_iff hbefore, rfl, rfl⟩
  | @passed digest d id s s' hunused hnone hrest ih =>
      -- The chain goes `i` digests far to the one that is passed, and then `k` digests on.
      obtain ⟨i, rfl, hi, hbefore⟩ := hunused
      obtain ⟨k, hk, hfree, hothers, hused, hbiblio, haround⟩ := ih
      simp only [chain_add] at hk hfree hothers hused
      refine ⟨k + i, ?_, hfree, ?_, fun e => ?_, hbiblio, haround⟩
      · exact fun hmem => hk (List.mem_cons_of_mem _ hmem)
      · intro j hj hnot
        rcases Nat.lt_trichotomy j i with hji | rfl | hij
        · exact absurd (hbefore j hji) hnot
        · exact hnone
        · obtain ⟨l, rfl⟩ : ∃ l, j = l + i := ⟨j - i, by omega⟩
          by_cases heq : chain normalized digest (l + i) = chain normalized digest i
          · rw [heq]
            exact hnone
          · refine hothers l (by omega) fun hmem => ?_
            rcases List.mem_cons.1 hmem with hmem | hmem
            · exact heq hmem
            · exact hnot hmem
      · rw [hused e, mem_giveAway_iff hbefore, exists_chain_add_iff, or_assoc]

/-! ## Anchors -/

/-- The anchor of a content is the start of a digest behind its lead. -/
theorem isLed_of_contentAnchor? {o : AnchorOptions} {lead normalized id : String} {s s' : AnchorState}
    (hlead : ∀ c ∈ lead.toList, isSlugChar c = true)
    (h : contentAnchor? o lead normalized s = some (id, s')) : IsLed lead id := by
  obtain ⟨k, -, hfound, -⟩ := (searched_of_hashedAnchor? h).exists_chain
  obtain ⟨n, -, -, rfl, -⟩ := firstFree?_eq_some_iff.1 hfound
  have hdigest := (isDigest_digest normalized).chain normalized k
  refine ⟨_, hashAnchor_eq_startAnchor hlead hdigest n, fun c hc => hdigest.slug c ?_⟩
  rw [String.toList_ofList] at hc
  exact List.mem_of_mem_take hc

/-- `Finds least lead normalized digest s id s' k n`: the anchor `id` that is found in the state `s`, which
leads to the state `s'`, is made of the first `n` characters of the digest that comes `k` rehashes after the
given one, where at least `least` characters are taken. -/
structure Finds (least : ℕ) (lead normalized digest : String) (s : AnchorState) (id : String)
    (s' : AnchorState) (k n : ℕ) : Prop where
  id_eq : id = startAnchor lead (chain normalized digest k) n
  least_le : least ≤ n
  le_length : n ≤ 64
  unused : chain normalized digest k ∉ s.usedDigests
  /-- The digest and all that were passed over have been given away. -/
  used : ∀ e, e ∈ s'.usedDigests ↔
    e ∈ s.usedDigests ∨ ∃ j ≤ k, chain normalized digest j = e
  /-- No shorter start of the digest was free. -/
  shorter : ∀ m, least ≤ m → m < n →
    s.biblio.contains (startAnchor lead (chain normalized digest k) m) = true
  /-- No start of a digest that was passed over was free. -/
  passed : ∀ j < k, chain normalized digest j ∉ s.usedDigests → ∀ m, least ≤ m → m ≤ 64 →
    s.biblio.contains (startAnchor lead (chain normalized digest j) m) = true
  free : s.biblio.find? id = none
  added : ∀ key, s'.biblio.find? key = if key = id then some ("#" ++ id) else s.biblio.find? key
  around : s'.around = s.around

/-- An anchor that is free leads nowhere, and once it is registered it leads to itself. -/
theorem find?_register_of_isFree {b : Biblio} {id : String} (h : b.IsFree id) :
    b.find? id = none ∧
      ∀ key, (b.register id).find? key = if key = id then some ("#" ++ id) else b.find? key := by
  have hnone : b.find? id = none := by
    rw [Biblio.IsFree, Table.contains, Option.isSome_eq_false_iff, Option.isNone_iff_eq_none] at h
    exact h
  refine ⟨hnone, fun key => ?_⟩
  rw [Biblio.find?_register]
  by_cases hkey : key = id
  · rw [if_pos hkey, if_pos hkey, hkey, hnone, Option.none_or, Biblio.localUrl]
  · rw [if_neg hkey, if_neg hkey, Option.or_none]

/-- **The anchor of a hashed content.** Whenever the search for it returns, it has taken the shortest free
start of a digest of the chain that was not given away; all starts of the digests that it passed over were
taken, and the biblio has got this anchor and nothing else. -/
theorem finds_of_hashedAnchor? {o : AnchorOptions} {lead normalized digest id : String} {fuel : ℕ}
    {s s' : AnchorState} (hlead : lead = "example-" ∨ lead = "note-") (hlength : digest.length = 64)
    (hdigest : ∀ c ∈ digest.toList, isHexDigit c = true)
    (h : hashedAnchor? o.firstLength lead normalized fuel digest s = some (id, s')) :
    ∃ k n, Finds (max 1 (min o.minHashLength 64)) lead normalized digest s id s' k n := by
  have hslug : ∀ c ∈ lead.toList, isSlugChar c = true := by
    refine List.all_eq_true.1 ?_
    rcases hlead with rfl | rfl <;> decide
  have hchain : ∀ k, IsDigest (chain normalized digest k) := by
    intro k
    refine IsDigest.chain ⟨?_, fun c hc => isSlugChar_of_isHexDigit (hdigest c hc)⟩ normalized k
    rw [String.length_toList, hlength, ContentHash.digestLength]
  have hstart : ∀ j m, hashAnchor lead (chain normalized digest j) m
      = startAnchor lead (chain normalized digest j) m :=
    fun j m => hashAnchor_eq_startAnchor hslug (hchain j) m
  obtain ⟨k, hunused, hfound, hothers, hused, hbiblio, haround⟩ :=
    (searched_of_hashedAnchor? h).exists_chain
  obtain ⟨n, hle, hn, hid, hfree, hbelow⟩ := firstFree?_eq_some_iff.1 hfound
  obtain ⟨hnone, hadded⟩ := find?_register_of_isFree hfree
  have hleast : o.firstLength = max 1 (min o.minHashLength 64) := rfl
  rw [hleast] at hothers hle hn hbelow
  rw [ContentHash.digestLength] at hothers hn
  simp only [hstart] at hid hbelow
  refine ⟨k, n, hid.symm, hle, by omega, hunused, hused, hbelow, ?_, hnone, ?_, haround⟩
  · intro j hj hnot m hm hm'
    have htaken := contains_of_firstFree?_eq_none (hothers j hj hnot)
      (m - max 1 (min o.minHashLength 64)) (by omega)
    rw [Nat.add_sub_cancel' hm, hstart] at htaken
    exact htaken
  · rw [hbiblio]
    exact hadded

/-- A digest. -/
def zeroDigest : String := "0000000000000000000000000000000000000000000000000000000000000000"

/-- A state in which the only anchor of `zeroDigest` is taken and the digest after it was given away. -/
def crowdedState : AnchorState where
  biblio := (Table.empty : Biblio).insert (startAnchor "note-" zeroDigest 64) "https://spec.example.org/"
  around := []
  usedDigests := [ContentHash.rehash zeroDigest "text"]

/-- Where all characters of a digest are asked for, the search goes on to the next digest but one. -/
theorem finds_of_hashedAnchor?_crowdedState :
    ∃ s', hashedAnchor? (AnchorOptions.firstLength ⟨"sec-", 100⟩) "note-" "text" 2 zeroDigest
        crowdedState
      = some ("note-786386c438209b2c6d150c208d90d5b4d0c533c0bcb562a4f9a90a33687046fa", s') ∧
    ∃ k n, Finds 64 "note-" "text" zeroDigest crowdedState
      "note-786386c438209b2c6d150c208d90d5b4d0c533c0bcb562a4f9a90a33687046fa" s' k n := by
  have hrun : (hashedAnchor? (AnchorOptions.firstLength ⟨"sec-", 100⟩) "note-" "text" 2 zeroDigest
      crowdedState).map Prod.fst
        = some "note-786386c438209b2c6d150c208d90d5b4d0c533c0bcb562a4f9a90a33687046fa" := by
    decide +kernel
  obtain ⟨⟨_, s'⟩, hrun, rfl⟩ := Option.map_eq_some_iff.1 hrun
  have hlength : zeroDigest.length = 64 := by decide +kernel
  have hdigest : ∀ c ∈ zeroDigest.toList, isHexDigit c = true := by
    refine List.all_eq_true.1 ?_
    decide +kernel
  have hfinds := finds_of_hashedAnchor? (o := ⟨"sec-", 100⟩) (Or.inr rfl) hlength hdigest hrun
  exact ⟨s', hrun, hfinds⟩

end AnchorState

end SpecDoc
