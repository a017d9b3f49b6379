import SpecDoc.Proofs.SectionId.Order

/-!
# Increasing ids

The ids of the sections in a part of a document increase, and so do those of the part behind it. For
the ids of both to increase, the first must not go beyond the part from which the second go on.

* `Ascends` is what holds of the ids of one part of a document;
* `Ascends.append` and `Ascends.section` put the parts of a document together.
-/

namespace SpecDoc

open SectionPart

/-- `Ascends id last ids last'`: the ids of sections that stand, directly or not, in the section `id`
increase, and their parts next to `id` lie behind `last` and up to `last'`. -/
structure Ascends (id : SectionId) (last : Option SectionPart) (ids : List SectionId)
    (last' : Option SectionPart) : Prop where
  grows : ∀ p ∈ last, ∃ q ∈ last', p = q ∨ Before p q
  within : ∀ x ∈ ids, ∃ part rest, x = id ++ part :: rest ∧ (∀ p ∈ last, Before p part) ∧
    ∃ q ∈ last', part = q ∨ Before part q
  sorted : ids.Pairwise SectionId.Before

/-- Without sections nothing changes. -/
theorem Ascends.nil (id : SectionId) (last : Option SectionPart) : Ascends id last [] last where
  grows := fun p hp => ⟨p, hp, Or.inl rfl⟩
  within := by simp
  sorted := List.Pairwise.nil

/-- Ids that go on where others end ascend with them. -/
theorem Ascends.append {id : SectionId} {last mid last' : Option SectionPart}
    {xs ys : List SectionId} (hxs : Ascends id last xs mid) (hys : Ascends id mid ys last') :
    Ascends id last (xs ++ ys) last' where
  grows := by
    intro p hp
    obtain ⟨q, hq, hpq⟩ := hxs.grows p hp
    obtain ⟨r, hr, hqr⟩ := hys.grows q hq
    refine ⟨r, hr, ?_⟩
    rcases hpq with rfl | hpq
    · exact hqr
    · rcases hqr with rfl | hqr
      · exact Or.inr hpq
      · exact Or.inr (hpq.trans hqr)
  within := by
    intro x hx
    rcases List.mem_append.1 hx with hx | hx
    · obtain ⟨part, rest, hid, hlast, q, hq, hpart⟩ := hxs.within x hx
      obtain ⟨r, hr, hqr⟩ := hys.grows q hq
      refine ⟨part, rest, hid, hlast, r, hr, ?_⟩
      rcases hpart with rfl | hpart
      · exact hqr
      · rcases hqr with rfl | hqr
        · exact Or.inr hpart
        · exact Or.inr (hpart.trans hqr)
    · obtain ⟨part, rest, hid, hmid, hlast'⟩ := hys.within x hx
      refine ⟨part, rest, hid, ?_, hlast'⟩
      intro p hp
      obtain ⟨q, hq, hpq⟩ := hxs.grows p hp
      rcases hpq with rfl | hpq
      · exact hmid p hq
      · exact hpq.trans (hmid q hq)
  sorted := by
    refine List.pairwise_append.2 ⟨hxs.sorted, hys.sorted, ?_⟩
    intro x hx y hy
    obtain ⟨part, rest, rfl, -, q, hq, hpart⟩ := hxs.within x hx
    obtain ⟨part', rest', rfl, hmid, -⟩ := hys.within y hy
    have hbefore : Before part part' := by
      rcases hpart with rfl | hpart
      · exact hmid part hq
      · exact hpart.trans (hmid q hq)
    exact SectionId.before_append id (List.Lex.rel hbefore)

/-- A section comes before those in it, and its part counts for what follows. -/
theorem Ascends.section {id : SectionId} {last inner : Option SectionPart} {part : SectionPart}
    {xs : List SectionId} (hlast : ∀ p ∈ last, Before p part)
    (hxs : Ascends (id ++ [part]) none xs inner) :
    Ascends id last ((id ++ [part]) :: xs) (some part) where
  grows := fun p hp => ⟨part, rfl, Or.inr (hlast p hp)⟩
  within := by
    intro x hx
    rcases List.mem_cons.1 hx with rfl | hx
    · exact ⟨part, [], rfl, hlast, part, rfl, Or.inl rfl⟩
    · obtain ⟨part', rest, rfl, -⟩ := hxs.within x hx
      exact ⟨part, part' :: rest, by simp, hlast, part, rfl, Or.inl rfl⟩
  sorted := by
    refine List.pairwise_cons.2 ⟨?_, hxs.sorted⟩
    intro x hx
    obtain ⟨part', rest, rfl, -⟩ := hxs.within x hx
    exact SectionId.before_extend (id ++ [part]) part' rest

end SpecDoc
