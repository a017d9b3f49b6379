import SpecDoc.Proofs.Numbering.Accepted
import SpecDoc.Proofs.Numbering.Override
import SpecDoc.Proofs.SectionId.Shown
import SpecDoc.Proofs.Sweep.Stops

/-!
# Refused sections

The numbering fails at the first section that is refused, and tells which one it is and which token it
could have instead. With this token the numbering comes past the section.

* `Document.Refuses`: which section is the first that is refused;
* `exists_refuses_of_numberSections`: the numbering fails at such a section, and describes it;
* `Document.passes_of_accepted`: it comes past all sections that are accepted;
* `numberSections_fails_iff_refuses`: where the numbering fails, and how it goes on once the token that
  is expected stands there.
-/

namespace SpecDoc

open SectionPart

/-! ## Parts -/

/-- Whether a section is refused behind a part, or behind none: its token is refused; or it has no token,
and the number that would follow is too great. -/
def SectionPart.Refuses (previous : Option SectionPart) : Option String → Prop
  | some token => ∃ problem, resolve previous (some token) = .error problem
  | none => ∃ n, previous = some (.number n) ∧ UInt32.size ≤ n.toNat + 1

/-- Only after the greatest number there is no part. -/
theorem automatic?_eq_none_iff {previous : Option SectionPart} :
    automatic? previous = none ↔ ∃ n, previous = some (.number n) ∧ UInt32.size ≤ n.toNat + 1 := by
  cases previous with
  | none => simp [automatic?]
  | some p =>
      cases p with
      | letters s => simp [automatic?, next?]
      | number n =>
          have hmax : n = UInt32.ofNat (UInt32.size - 1) ↔ UInt32.size ≤ n.toNat + 1 := by
            have hlt : n.toNat < UInt32.size := n.toNat_lt
            have hsize : (UInt32.ofNat (UInt32.size - 1)).toNat = UInt32.size - 1 := rfl
            rw [← UInt32.toNat_inj, hsize]
            omega
          unfold automatic? next?
          dsimp only
          split
          · next heq => exact iff_of_true rfl ⟨n, rfl, hmax.1 heq⟩
          · next hne =>
            refine iff_of_false (by simp) ?_
            rintro ⟨m, hm, hsize⟩
            cases hm
            exact hne (hmax.2 hsize)

/-- Without a token a section gets the automatic part. -/
theorem toOption_resolve_none (previous : Option SectionPart) :
    (resolve previous none).toOption = automatic? previous := by
  unfold resolve
  dsimp only
  cases automatic? previous <;> rfl

/-- A section is refused where it gets no part. -/
theorem refuses_iff {previous : Option SectionPart} {token : Option String} :
    SectionPart.Refuses previous token ↔ ∃ problem, resolve previous token = .error problem := by
  cases token with
  | some token => exact Iff.rfl
  | none =>
      rw [SectionPart.Refuses, ← automatic?_eq_none_iff, ← toOption_resolve_none]
      cases resolve previous none <;> simp [Except.toOption]

/-- The part that is expected is the one without a token. -/
theorem expected?_of_resolve {previous : Option SectionPart} {token : Option String}
    {problem : NumberingProblem} (h : resolve previous token = .error problem) :
    expected? previous token = (resolve previous none).toOption := by
  cases token with
  | some token => exact (toOption_resolve_none previous).symm
  | none =>
      rw [h]
      rfl

/-- The part that a section gets without a token it also gets if this part is its token. -/
theorem resolve_toString {previous : Option SectionPart} {part : SectionPart}
    (hprevious : ∀ p ∈ previous, p.WellFormed) (h : resolve previous none = .ok part) :
    resolve previous (some part.toString) = .ok part := by
  have hpart := (before_of_resolve h hprevious).1
  have hshown : SectionId.dotted ([] ++ [part]) = part.toString := rfl
  rw [← hshown]
  exact resolve_dotted hprevious (by simp [SectionId.WellFormed]) hpart h

/-! ## The first section that is refused -/

/-- Whether a section of a document is the first that is refused: all sections before it, `earlier`, are
accepted. -/
structure Document.Refuses (d : Document) (earlier : List (SectionEntry × SectionPart))
    (entry : SectionEntry) : Prop where
  accepted : Accepted earlier
  next : earlier.map Prod.fst ++ [entry] <+: d.entries
  refused : SectionPart.Refuses (siblingPart entry.enclosing earlier) entry.sec.override

/-- Whether an error describes a section that is refused behind a part, or behind none. -/
structure NumberingError.Describes (e : NumberingError) (previous : Option SectionPart)
    (entry : SectionEntry) : Prop where
  problem : resolve previous entry.sec.override = .error e.problem
  title : e.title = entry.sec.title
  span : e.span = entry.span
  found : e.found = entry.sec.override.getD ""
  previous_eq : e.previous = previous.map SectionPart.toString
  expected : e.expected = (resolve previous none).toOption.map SectionPart.toString

variable {d : Document} {e : NumberingError} {entry entry' : SectionEntry}
  {earlier earlier' xs : List (SectionEntry × SectionPart)}

/-- All sections that are accepted come before the first that is refused. -/
theorem Document.Refuses.isPrefix_of_accepted (h : d.Refuses earlier entry) (hxs : Accepted xs)
    (hd : xs.map Prod.fst <+: d.entries) : xs <+: earlier := by
  -- The section would be accepted if it were one of them.
  have hnot : ¬ earlier.map Prod.fst ++ [entry] <+: xs.map Prod.fst := by
    intro hentry
    have hearlier := h.accepted.isPrefix hxs ((List.prefix_append _ _).trans hentry)
    obtain ⟨part, hpart, -⟩ := hxs.next hearlier hentry
    obtain ⟨problem, hproblem⟩ := refuses_iff.1 h.refused
    rw [hpart] at hproblem
    cases hproblem
  rcases List.prefix_or_prefix_of_prefix hd h.next with hprefix | hprefix
  · rcases List.prefix_concat_iff.1 hprefix with heq | hprefix
    · exact absurd (heq ▸ List.prefix_rfl) hnot
    · exact hxs.isPrefix h.accepted hprefix
  · exact absurd hprefix hnot

/-- A document refuses one of its sections only. -/
theorem Document.Refuses.unique (h : d.Refuses earlier entry) (h' : d.Refuses earlier' entry') :
    earlier = earlier' ∧ entry = entry' := by
  have hprefix := h'.isPrefix_of_accepted h.accepted ((List.prefix_append _ _).trans h.next)
  have hprefix' := h.isPrefix_of_accepted h'.accepted ((List.prefix_append _ _).trans h'.next)
  obtain rfl := hprefix.eq_of_length (Nat.le_antisymm hprefix.length_le hprefix'.length_le)
  have heq : earlier.map Prod.fst ++ [entry] = earlier.map Prod.fst ++ [entry'] := by
    rw [List.prefix_iff_eq_take.1 h.next, List.prefix_iff_eq_take.1 h'.next]
    simp
  exact ⟨rfl, by simpa using heq⟩

/-! ## Where the numbering fails -/

/-- The numbering refuses no group but a section that gets no part. -/
theorem numberGroup_eq_error (enclosing : Option ℕ) {g : Group} {span : Option Span}
    {contents : List Node} {s : NumberingState}
    (h : NumberingState.sweep.group g span contents s = .error e) :
    ∃ sec, g = .numberedSection sec ∧ e.Describes s.previous ⟨sec, span, enclosing⟩ := by
  cases g with
  | numberedSection sec =>
      change NumberingState.numberGroup (.numberedSection sec) span contents s = _ at h
      unfold NumberingState.numberGroup at h
      dsimp only at h
      split at h
      · next problem hproblem =>
        cases h
        refine ⟨sec, rfl, hproblem, rfl, rfl, rfl, rfl, ?_⟩
        rw [← expected?_of_resolve hproblem]
        rfl
      · cases h
  | _ => cases h

/-- Whether an error describes the first of some sections that is refused, behind the sections `earlier`:
the sections before it are accepted. -/
def NumberingError.DescribesAmong (e : NumberingError)
    (earlier : List (SectionEntry × SectionPart)) (entries : List SectionEntry) : Prop :=
  ∃ xs entry, Accepted (earlier ++ xs) ∧ xs.map Prod.fst ++ [entry] <+: entries ∧
    e.Describes (siblingPart entry.enclosing (earlier ++ xs)) entry

namespace NumberingError.DescribesAmong

variable {entries entries' : List SectionEntry}

/-- Sections behind the others do not matter. -/
theorem append_right (h : e.DescribesAmong earlier entries) :
    e.DescribesAmong earlier (entries ++ entries') := by
  obtain ⟨xs, entry, haccepted, hnext, hdescribes⟩ := h
  exact ⟨xs, entry, haccepted, hnext.trans (List.prefix_append _ _), hdescribes⟩

/-- Sections that are accepted stand in front of the others. -/
theorem append_left (h : e.DescribesAmong (earlier ++ xs) entries) :
    e.DescribesAmong earlier (xs.map Prod.fst ++ entries) := by
  obtain ⟨ys, entry, haccepted, hnext, hdescribes⟩ := h
  refine ⟨xs ++ ys, entry, by rwa [← List.append_assoc], ?_, by rwa [← List.append_assoc]⟩
  rwa [List.map_append, List.append_assoc, List.prefix_append_right_inj]

end NumberingError.DescribesAmong

/-- Where the numbering of nodes fails, the error describes the first of their sections that is
refused. -/
theorem describesAmong_of_stops {s : NumberingState} {ns : List Node}
    (h : NumberingState.sweep.Stops s ns e) :
    ∀ earlier enclosing levels, s.Behind earlier enclosing levels →
      e.DescribesAmong earlier (Node.entriesIn enclosing earlier.length ns) := by
  induction h with
  | leaf hleaf => cases hleaf
  | behindLeaf hleaf _ ih =>
      cases hleaf
      simpa using ih
  | @group g span contents ns s e hgroup =>
      intro earlier enclosing levels hs
      obtain ⟨sec, rfl, hdescribes⟩ := numberGroup_eq_error enclosing hgroup
      rw [hs.previous_eq] at hdescribes
      refine ⟨[], ⟨sec, span, enclosing⟩, by simpa using hs.accepted, ?_, by simpa using hdescribes⟩
      rw [Node.entriesIn_section]
      simp
  | @inGroup g g' span contents ns s s₁ e hgroup _ ih =>
      intro earlier enclosing levels hs
      rcases numberGroup_cases hgroup with ⟨sec, part, rfl, hpart, -, rfl⟩ | ⟨hg, -, -, rfl⟩
      · have hcontents := ih _ _ _ (.enter ⟨sec, span, enclosing⟩ hs hpart)
        rw [List.length_append, List.length_singleton] at hcontents
        rw [Node.entriesIn_section]
        exact hcontents.append_right.append_left
      · rw [Node.entriesIn_group hg]
        exact (ih _ _ _ hs).append_right
  | @behindGroup g g' span contents contents' ns s s₁ s₂ e hgroup hcontents _ ih =>
      intro earlier enclosing levels hs
      rcases numberGroup_cases hgroup with ⟨sec, part, rfl, hpart, rfl, rfl⟩ | ⟨hg, hg', -, rfl⟩
      · have henter := NumberingState.Behind.enter ⟨sec, span, enclosing⟩ hs hpart
        obtain ⟨xs, hs₂, hxs, -⟩ := exists_accepted_of_swept hcontents _ _ _ henter
        rw [entriesIn_section_of_map rfl hxs]
        exact (ih _ _ _ (.leave hs hs₂ hxs)).append_left.append_left
      · obtain ⟨xs, hs₂, hxs, -⟩ := exists_accepted_of_swept hcontents _ _ _ hs
        rw [endGroup_eq_self hg'] at ih
        rw [entriesIn_group_of_map hg hxs]
        exact (ih _ _ _ hs₂).append_left
  | rule hrule => cases hrule
  | inHead hrule _ ih =>
      intro earlier enclosing levels hs
      cases hrule
      rw [Node.entriesIn_rule]
      exact (ih _ _ _ hs).append_right
  | inBody hrule hhead _ ih =>
      intro earlier enclosing levels hs
      cases hrule
      obtain ⟨xs, hs₂, hxs, -⟩ := exists_accepted_of_swept hhead _ _ _ hs
      rw [Node.entriesIn_rule, ← hxs, List.length_map, ← List.length_append]
      exact (ih _ _ _ hs₂).append_right.append_left
  | behindRule hrule hhead hbody _ ih =>
      intro earlier enclosing levels hs
      cases hrule
      obtain ⟨xs, hs₂, hxs, -⟩ := exists_accepted_of_swept hhead _ _ _ hs
      obtain ⟨ys, hs₃, hys, -⟩ := exists_accepted_of_swept hbody _ _ _ hs₂
      rw [entriesIn_rule_of_map hxs hys]
      exact (ih _ _ _ hs₃).append_left.append_left

/-- Where the numbering of a document fails, it has come to the first section that is refused, and it
describes it. -/
theorem exists_refuses_of_numberSections (h : numberSections d = .error e) :
    ∃ earlier entry, d.Refuses earlier entry ∧
      e.Describes (siblingPart entry.enclosing earlier) entry := by
  have hstops := Sweep.stops_of_document (numberSections_eq_error_iff.1 h)
  obtain ⟨earlier, entry, haccepted, hnext, hdescribes⟩ :=
    describesAmong_of_stops hstops _ _ _ .start
  exact ⟨earlier, entry, ⟨haccepted, hnext, refuses_iff.2 ⟨_, hdescribes.problem⟩⟩, hdescribes⟩

/-- The numbering fails where a section is refused. -/
theorem Document.Refuses.numberSections_ne_ok (h : d.Refuses earlier entry) (d' : Document) :
    numberSections d ≠ .ok d' := by
  intro hok
  obtain ⟨xs, hxs, hd, -⟩ := exists_accepted_of_numberSections hok
  have hlength := (h.isPrefix_of_accepted hxs (hd ▸ List.prefix_rfl)).length_le
  have hnext := h.next.length_le
  rw [← hd] at hnext
  simp at hnext
  omega

/-! ## Sections that are passed -/

/-- Whether the numbering of a document comes past sections with the given parts: it succeeds and the
first sections of the result have these parts, or it fails at a section behind them. -/
def Document.Passes (d : Document) (xs : List (SectionEntry × SectionPart)) : Prop :=
  (∃ d', numberSections d = .ok d' ∧
    (xs.map fun x => some x.2) <+: d'.sections.map (·.secId.getLast?)) ∨
  ∃ e later entry, numberSections d = .error e ∧ d.Refuses later entry ∧
    e.Describes (siblingPart entry.enclosing later) entry ∧ xs <+: later

/-- The numbering comes past the sections that are accepted. -/
theorem Document.passes_of_accepted (hxs : Accepted xs) (hd : xs.map Prod.fst <+: d.entries) :
    d.Passes xs := by
  cases h : numberSections d with
  | ok d' =>
      obtain ⟨ys, hys, hentries, hparts⟩ := exists_accepted_of_numberSections h
      rw [← hentries] at hd
      refine Or.inl ⟨d', h, ?_⟩
      rw [hparts]
      exact (hxs.isPrefix hys hd).map _
  | error e =>
      obtain ⟨later, entry, hrefuses, hdescribes⟩ := exists_refuses_of_numberSections h
      exact Or.inr ⟨e, later, entry, h, hrefuses, hdescribes,
        hrefuses.isPrefix_of_accepted hxs hd⟩

/-! ## The token that is expected -/

/-- A document comes past the section that was refused once it has the token that is expected. -/
theorem Document.Refuses.passes_withOverride (h : d.Refuses earlier entry) {part : SectionPart}
    (hpart : resolve (siblingPart entry.enclosing earlier) none = .ok part) :
    (d.withOverride earlier.length part.toString).Passes
      (earlier ++ [(entry.withOverride part.toString, part)]) := by
  have hresolve := resolve_toString (h.accepted.wellFormed_siblingPart entry.enclosing) hpart
  have haccepted : Accepted (earlier ++ [(entry.withOverride part.toString, part)]) :=
    accepted_concat_iff.2 ⟨h.accepted, hresolve⟩
  refine Document.passes_of_accepted haccepted ?_
  rw [Document.entries_withOverride, List.map_append, List.map_singleton]
  exact isPrefix_overrideEntries _ h.next (List.length_map _)

/-- **Refused sections.** The numbering of a document fails just if there is a first section that is
refused: it gets no part behind the sections before it. The error describes this section. If it names a
part that is expected, this is the part of the section without a token; with it as its token the section
is accepted and has this part, so that the numbering succeeds or fails at a later section. -/
theorem numberSections_fails_iff_refuses (d : Document) :
    ((∃ e, numberSections d = .error e) ↔ ∃ earlier entry, d.Refuses earlier entry) ∧
    ∀ e earlier entry, numberSections d = .error e → d.Refuses earlier entry →
      e.Describes (siblingPart entry.enclosing earlier) entry ∧
      ∀ token, e.expected = some token →
        ∃ part, resolve (siblingPart entry.enclosing earlier) none = .ok part ∧
          part.toString = token ∧
          (d.withOverride earlier.length token).Passes
            (earlier ++ [(entry.withOverride token, part)]) := by
  constructor
  · constructor
    · rintro ⟨e, he⟩
      obtain ⟨earlier, entry, hrefuses, -⟩ := exists_refuses_of_numberSections he
      exact ⟨earlier, entry, hrefuses⟩
    · rintro ⟨earlier, entry, hrefuses⟩
      cases h : numberSections d with
      | ok d' => exact absurd h (hrefuses.numberSections_ne_ok d')
      | error e => exact ⟨e, rfl⟩
  · intro e earlier entry he hrefuses
    obtain ⟨earlier', entry', hrefuses', hdescribes⟩ := exists_refuses_of_numberSections he
    obtain ⟨rfl, rfl⟩ := hrefuses.unique hrefuses'
    refine ⟨hdescribes, ?_⟩
    intro token htoken
    rw [hdescribes.expected] at htoken
    cases hpart : resolve (siblingPart entry.enclosing earlier) none with
    | error problem =>
        rw [hpart] at htoken
        cases htoken
    | ok part =>
        rw [hpart] at htoken
        cases htoken
        exact ⟨part, rfl, rfl, hrefuses.passes_withOverride hpart⟩

/-- A document with two sections that are refused: a number is repeated, and letters start at `C`. -/
def contradictoryDocument : Document :=
  Build.document "Specification"
    [Build.numberedSection none "Scope"
      [Build.numberedSection (some "1.4") "Terms" [Build.numberedSection none "Symbols" []],
        Build.numberedSection (some "1.4") "Notation" []],
      Build.numberedSection (some "C") "Tables" []]

example : numberSections contradictoryDocument
    = .error ⟨.notIncreasing, "1.4", some "4", some "5", "Notation", none⟩ :=
  numberSections_eq_error_iff.2 rfl

/-- With the token that is expected there the numbering comes to the other one. -/
example : numberSections (contradictoryDocument.withOverride 3 "5")
    = .error ⟨.numberToLetter, "C", some "1", some "2", "Tables", none⟩ :=
  numberSections_eq_error_iff.2 rfl

end SpecDoc
