import Mathlib.Data.List.Induction
import SpecDoc.Proofs.Numbering
import SpecDoc.Proofs.Numbering.Entries

/-!
# Parts in document order

The part of a section depends on its token and on the part of the section before it on the same level:
the last earlier section that is enclosed by the same one. The state of the numbering is not mentioned
here; it only keeps these parts at hand.

* `Accepted`: whether each of a sequence of sections has the part that it gets there;
* `Accepted.next` and `Accepted.isPrefix`: the sections alone determine these parts;
* `NumberingState.Behind`: what the state of the numbering has to do with the sections before a place;
* `exists_accepted_of_swept`: the numbering gives the sections these parts.
-/

namespace SpecDoc

open SectionPart

/-! ## Sections and their parts -/

/-- The part of the last of some sections that is enclosed in the given way. -/
def siblingPart (enclosing : Option ℕ) (earlier : List (SectionEntry × SectionPart)) :
    Option SectionPart :=
  ((earlier.filter (·.1.enclosing = enclosing)).getLast?).map Prod.snd

/-- Whether sections have the parts that they get by their tokens, one after the other. -/
def Accepted (xs : List (SectionEntry × SectionPart)) : Prop :=
  ∀ earlier entry part later, xs = earlier ++ (entry, part) :: later →
    resolve (siblingPart entry.enclosing earlier) entry.sec.override = .ok part

variable {enclosing : Option ℕ} {earlier xs ys : List (SectionEntry × SectionPart)}
  {entry : SectionEntry} {part : SectionPart}

/-- Sections that are enclosed otherwise do not matter. -/
theorem siblingPart_append_of_ne (hxs : ∀ x ∈ xs, x.1.enclosing ≠ enclosing) :
    siblingPart enclosing (earlier ++ xs) = siblingPart enclosing earlier := by
  have hnil : xs.filter (·.1.enclosing = enclosing) = [] := by
    simpa [List.filter_eq_nil_iff] using hxs
  rw [siblingPart, List.filter_append, hnil, List.append_nil, siblingPart]

/-- The last section counts where it is enclosed alike. -/
theorem siblingPart_concat_self (earlier : List (SectionEntry × SectionPart)) (entry : SectionEntry)
    (part : SectionPart) : siblingPart entry.enclosing (earlier ++ [(entry, part)]) = some part := by
  simp [siblingPart, List.filter_append]

/-- The part is that of one of the sections. -/
theorem exists_mem_of_mem_siblingPart {p : SectionPart} (h : p ∈ siblingPart enclosing earlier) :
    ∃ x ∈ earlier, x.2 = p := by
  rw [siblingPart, Option.mem_def, Option.map_eq_some_iff] at h
  obtain ⟨x, hx, hp⟩ := h
  exact ⟨x, List.mem_of_mem_filter (List.mem_of_getLast? hx), hp⟩

theorem accepted_nil : Accepted [] := by simp [Accepted]

/-- Sections that come later do not matter. -/
theorem Accepted.of_append (h : Accepted (xs ++ ys)) : Accepted xs := by
  intro earlier entry part later hxs
  exact h earlier entry part (later ++ ys) (by rw [hxs, List.append_assoc, List.cons_append])

/-- One section more is accepted with the part that it gets behind the others. -/
theorem accepted_concat_iff :
    Accepted (xs ++ [(entry, part)]) ↔
      Accepted xs ∧ resolve (siblingPart entry.enclosing xs) entry.sec.override = .ok part := by
  constructor
  · intro h
    exact ⟨h.of_append, h xs entry part [] rfl⟩
  · rintro ⟨hxs, hpart⟩ earlier entry' part' later heq
    rcases List.eq_nil_or_concat later with rfl | ⟨later', last, rfl⟩
    · obtain ⟨rfl, hlast⟩ := List.append_inj' heq rfl
      cases hlast
      exact hpart
    · rw [List.concat_eq_append, ← List.cons_append, ← List.append_assoc] at heq
      exact hxs earlier entry' part' later' (List.append_inj_left' heq rfl)

/-- The next section has a part, and it is accepted with this one. -/
theorem Accepted.next (hxs : Accepted xs) (hearlier : earlier <+: xs)
    (hentry : earlier.map Prod.fst ++ [entry] <+: xs.map Prod.fst) :
    ∃ part, resolve (siblingPart entry.enclosing earlier) entry.sec.override = .ok part ∧
      earlier ++ [(entry, part)] <+: xs := by
  obtain ⟨later, rfl⟩ := hearlier
  rw [List.map_append, List.prefix_append_right_inj] at hentry
  cases later with
  | nil => simp at hentry
  | cons x later =>
      obtain ⟨entry', part⟩ := x
      rw [List.map_cons, List.cons_prefix_cons] at hentry
      obtain ⟨rfl, -⟩ := hentry
      exact ⟨part, hxs earlier entry part later rfl, ⟨later, by simp⟩⟩

/-- The parts are determined by the sections. -/
theorem Accepted.isPrefix (hxs : Accepted xs) (hys : Accepted ys)
    (h : xs.map Prod.fst <+: ys.map Prod.fst) : xs <+: ys := by
  induction xs using List.reverseRecOn with
  | nil => exact List.nil_prefix
  | append_singleton xs x ih =>
      obtain ⟨entry, part⟩ := x
      obtain ⟨hxs, hpart⟩ := accepted_concat_iff.1 hxs
      rw [List.map_append, List.map_singleton] at h
      have hprefix := ih hxs ((List.prefix_append _ _).trans h)
      obtain ⟨part', hpart', hnext⟩ := hys.next hprefix h
      rw [hpart] at hpart'
      cases hpart'
      exact hnext

/-- All parts are well-formed. -/
theorem Accepted.wellFormed (hxs : Accepted xs) : ∀ x ∈ xs, x.2.WellFormed := by
  induction xs using List.reverseRecOn with
  | nil => simp
  | append_singleton xs x ih =>
      obtain ⟨entry, part⟩ := x
      obtain ⟨hxs, hpart⟩ := accepted_concat_iff.1 hxs
      have hwf := ih hxs
      refine List.forall_mem_append.2 ⟨hwf, List.forall_mem_singleton.2 ?_⟩
      refine (before_of_resolve hpart ?_).1
      intro p hp
      obtain ⟨x, hx, rfl⟩ := exists_mem_of_mem_siblingPart hp
      exact hwf x hx

/-- The part of the section before is well-formed. -/
theorem Accepted.wellFormed_siblingPart (hxs : Accepted xs) (enclosing : Option ℕ) :
    ∀ p ∈ siblingPart enclosing xs, p.WellFormed := by
  intro p hp
  obtain ⟨x, hx, rfl⟩ := exists_mem_of_mem_siblingPart hp
  exact hxs.wellFormed x hx

/-! ## The numbering -/

/-- `s.Behind earlier enclosing levels`: the numbering has given their parts to the sections `earlier`,
and goes on in the section `enclosing`, which is one of them. Only the first of its levels is that of the
place; the others belong to the sections around it. -/
structure NumberingState.Behind (s : NumberingState) (earlier : List (SectionEntry × SectionPart))
    (enclosing : Option ℕ) (levels : List (Option SectionPart)) : Prop where
  accepted : Accepted earlier
  lastUsed : s.lastUsed = siblingPart enclosing earlier :: levels
  enclosing_lt : ∀ i ∈ enclosing, i < earlier.length
  earlier_lt : ∀ x ∈ earlier, ∀ i ∈ x.1.enclosing, i < earlier.length

namespace NumberingState.Behind

variable {s s' : NumberingState} {levels : List (Option SectionPart)}

/-- The numbering starts before the first section of a document. -/
theorem start : NumberingState.start.Behind [] none [] where
  accepted := accepted_nil
  lastUsed := rfl
  enclosing_lt := by simp
  earlier_lt := by simp

/-- The part before the place is that of the section before it on its level. -/
theorem previous_eq (h : s.Behind earlier enclosing levels) :
    s.previous = siblingPart enclosing earlier := by
  rw [NumberingState.previous, h.lastUsed]
  rfl

/-- The numbering goes into a section with one more accepted part. -/
theorem enter (entry : SectionEntry) (h : s.Behind earlier entry.enclosing levels)
    (hpart : resolve s.previous entry.sec.override = .ok part) :
    (s.enter part).Behind (earlier ++ [(entry, part)]) (some earlier.length) (some part :: levels) where
  accepted := accepted_concat_iff.2 ⟨h.accepted, h.previous_eq ▸ hpart⟩
  lastUsed := by
    have hfresh : siblingPart (some earlier.length) (earlier ++ [(entry, part)]) = none := by
      rw [← List.nil_append (earlier ++ _)]
      refine siblingPart_append_of_ne ?_
      intro x hx heq
      rcases List.mem_append.1 hx with hx | hx
      · exact Nat.lt_irrefl _ (h.earlier_lt x hx _ heq)
      · rw [List.mem_singleton.1 hx] at heq
        exact Nat.lt_irrefl _ (h.enclosing_lt _ heq)
    rw [hfresh, NumberingState.enter, h.lastUsed]
    rfl
  enclosing_lt := by simp
  earlier_lt := by
    intro x hx i hi
    rw [List.length_append, List.length_singleton]
    rcases List.mem_append.1 hx with hx | hx
    · exact Nat.lt_succ_of_lt (h.earlier_lt x hx i hi)
    · rw [List.mem_singleton.1 hx] at hi
      exact Nat.lt_succ_of_lt (h.enclosing_lt i hi)

/-- The numbering comes out of a section behind the sections in its contents. -/
theorem leave {contents : List Node} (h : s.Behind earlier entry.enclosing levels)
    (h' : s'.Behind (earlier ++ [(entry, part)] ++ xs) (some earlier.length) (some part :: levels))
    (hxs : xs.map Prod.fst
      = Node.entriesIn (some earlier.length) (earlier ++ [(entry, part)]).length contents) :
    s'.leave.Behind (earlier ++ [(entry, part)] ++ xs) entry.enclosing levels where
  accepted := h'.accepted
  lastUsed := by
    -- What encloses the sections of the contents comes later than what encloses the section.
    have hne : ∀ x ∈ xs, x.1.enclosing ≠ entry.enclosing := by
      intro x hx heq
      have hmem : x.1 ∈ xs.map Prod.fst := List.mem_map_of_mem hx
      rw [hxs, List.length_append] at hmem
      rcases Node.within_of_mem_entriesIn contents _ _ _ hmem with hx | ⟨i, hx, hi, -⟩
      · exact Nat.lt_irrefl _ (h.enclosing_lt _ (heq ▸ hx))
      · have hlt := h.enclosing_lt i (heq ▸ hx)
        omega
    rw [siblingPart_append_of_ne hne, siblingPart_concat_self, NumberingState.leave, h'.lastUsed]
    rfl
  enclosing_lt := by
    intro i hi
    have hlt := h.enclosing_lt i hi
    rw [List.length_append, List.length_append]
    omega
  earlier_lt := h'.earlier_lt

end NumberingState.Behind

section Entries

/-! The sections of nodes behind the sections `earlier`, if those of the first node have got parts. -/

variable {ys : List (SectionEntry × SectionPart)} {sec : Section} {span : Option Span}
  {contents ns : List Node}

theorem entriesIn_section_of_map (hentry : entry = ⟨sec, span, enclosing⟩)
    (hxs : xs.map Prod.fst
      = Node.entriesIn (some earlier.length) (earlier ++ [(entry, part)]).length contents) :
    Node.entriesIn enclosing earlier.length (.group (.numberedSection sec) span contents :: ns)
      = entry :: (xs.map Prod.fst ++
          Node.entriesIn enclosing (earlier ++ [(entry, part)] ++ xs).length ns) := by
  rw [List.length_append, List.length_singleton] at hxs
  rw [Node.entriesIn_section, ← hxs, List.length_map, List.length_append, List.length_append,
    List.length_singleton, hentry]

theorem entriesIn_group_of_map {g : Group} (hg : ∀ sec, g ≠ .numberedSection sec)
    (hxs : xs.map Prod.fst = Node.entriesIn enclosing earlier.length contents) :
    Node.entriesIn enclosing earlier.length (.group g span contents :: ns)
      = xs.map Prod.fst ++ Node.entriesIn enclosing (earlier ++ xs).length ns := by
  rw [Node.entriesIn_group hg, ← hxs, List.length_map, List.length_append]

theorem entriesIn_rule_of_map {r : Rule} {head : Option Node} {body : List Node}
    (hxs : xs.map Prod.fst = Node.entriesIn enclosing earlier.length head.toList)
    (hys : ys.map Prod.fst = Node.entriesIn enclosing (earlier ++ xs).length body) :
    Node.entriesIn enclosing earlier.length (.rule r span head body :: ns)
      = xs.map Prod.fst ++ (ys.map Prod.fst ++
          Node.entriesIn enclosing (earlier ++ xs ++ ys).length ns) := by
  rw [Node.entriesIn_rule, ← hxs, List.length_map, ← List.length_append, ← hys, List.length_map,
    ← List.length_append]

end Entries

/-- The numbering gives parts to the sections of nodes, and the sections are accepted with them behind
those before. -/
theorem exists_accepted_of_swept {s s' : NumberingState} {ns ns' : List Node}
    (h : NumberingState.sweep.Swept s ns ns' s') :
    ∀ earlier enclosing levels, s.Behind earlier enclosing levels →
      ∃ xs, s'.Behind (earlier ++ xs) enclosing levels ∧
        xs.map Prod.fst = Node.entriesIn enclosing earlier.length ns ∧
        (Node.sectionsIn ns').map (·.secId.getLast?) = xs.map fun x => some x.2 := by
  induction h with
  | nil s =>
      intro earlier enclosing levels hs
      exact ⟨[], by simpa using hs, by simp, by simp⟩
  | leaf hleaf _ ih =>
      intro earlier enclosing levels hs
      cases hleaf
      simpa using ih earlier enclosing levels hs
  | @group g g' span contents contents' ns ns' s s₁ s₂ s₃ hgroup _ _ ihcontents ihns =>
      intro earlier enclosing levels hs
      rcases numberGroup_cases hgroup with ⟨sec, part, rfl, hpart, rfl, rfl⟩ | ⟨hg, hg', -, rfl⟩
      · have henter := NumberingState.Behind.enter ⟨sec, span, enclosing⟩ hs hpart
        obtain ⟨xs, hs₂, hxs, hparts⟩ := ihcontents _ _ _ henter
        obtain ⟨ys, hs₃, hys, hparts'⟩ := ihns _ _ _ (NumberingState.Behind.leave hs hs₂ hxs)
        refine ⟨(⟨sec, span, enclosing⟩, part) :: xs ++ ys, by simpa using hs₃, ?_, ?_⟩
        · rw [entriesIn_section_of_map rfl hxs, ← hys, List.map_append, List.map_cons, List.cons_append]
        · rw [Node.sectionsIn_section]
          simp [hparts, hparts']
      · obtain ⟨xs, hs₂, hxs, hparts⟩ := ihcontents _ _ _ hs
        rw [endGroup_eq_self hg'] at ihns
        obtain ⟨ys, hs₃, hys, hparts'⟩ := ihns _ _ _ hs₂
        refine ⟨xs ++ ys, by rwa [← List.append_assoc], ?_, ?_⟩
        · rw [entriesIn_group_of_map hg hxs, ← hys, List.map_append]
        · rw [Node.sectionsIn_group hg', List.map_append, List.map_append, hparts, hparts']
  | rule hrule _ _ _ ihhead ihbody ihns =>
      intro earlier enclosing levels hs
      cases hrule
      obtain ⟨xs, hs₂, hxs, hparts⟩ := ihhead _ _ _ hs
      obtain ⟨ys, hs₃, hys, hparts'⟩ := ihbody _ _ _ hs₂
      obtain ⟨zs, hs₄, hzs, hparts''⟩ := ihns _ _ _ hs₃
      refine ⟨xs ++ (ys ++ zs), by simpa using hs₄, ?_, ?_⟩
      · rw [entriesIn_rule_of_map hxs hys, ← hzs, List.map_append, List.map_append]
      · rw [Node.sectionsIn_rule]
        simp [hparts, hparts', hparts'']

/-- Where the numbering of a document succeeds, its sections have the parts that they get in document
order. -/
theorem exists_accepted_of_numberSections {d d' : Document} (h : numberSections d = .ok d') :
    ∃ xs, Accepted xs ∧ xs.map Prod.fst = d.entries ∧
      d'.sections.map (·.secId.getLast?) = xs.map fun x => some x.2 := by
  obtain ⟨s, -, -, hswept⟩ := exists_sweptDocument_of_numberSections h
  obtain ⟨xs, hs, hxs, hparts⟩ := exists_accepted_of_swept hswept _ _ _ .start
  exact ⟨xs, hs.accepted, hxs, hparts⟩

end SpecDoc
