import Mathlib.Data.List.Nodup
import SpecDoc.Biblio
import SpecDoc.Proofs.Table

/-!
# What is seeded and registered

A biblio is seeded with the anchors of other documents, site by site. To register an anchor changes nothing but what
is found for it, and only if nothing was found before. `Biblio.registerAll` registers a sequence of anchors, the first
one first.

* `find?_seeded_eq_some_iff`: what is found among the anchors of other documents;
* `length_le_size`: a biblio has no more keys than entries;
* `find?_registerAll`: what is found after a sequence of anchors was registered.
-/

namespace SpecDoc

/-- What follows a site in the URL of one of its anchors. -/
def ExternalAnchors.suffix? (external : ExternalAnchors) (site id : String) : Option String :=
  (external.find? site).bind fun anchors => anchors.find? id

namespace Biblio

/-! ## Anchors of other documents -/

/-- What is found among the anchors of a site, the last one first: the anchors of a table are distinct. -/
theorem lookup_reverse_siteEntries (site : String) (anchors : Table String) (id : String) :
    (siteEntries site anchors).reverse.lookup id = (anchors.find? id).map (site ++ ·) := by
  have hnames : (siteEntries site anchors).map Prod.fst = anchors.entries.map Prod.fst := by
    rw [siteEntries, List.map_map]
    rfl
  rw [Table.lookup_reverse (hnames ▸ anchors.nodup_keys), siteEntries, Table.find?]
  induction anchors.entries with
  | nil => rfl
  | cons e es ih =>
      rw [List.map_cons, Table.lookup_cons_eq_ite, Table.lookup_cons_eq_ite, ih]
      by_cases h : id = e.1
      · rw [if_pos h, if_pos h, Option.map_some]
      · rw [if_neg h, if_neg h]

/-- An anchor is looked for in one site after the other, the last one first. -/
theorem find?_seeded (external : ExternalAnchors) (id : String) :
    (seeded external).find? id
      = external.entries.reverse.findSome? fun s => (s.2.find? id).map (s.1 ++ ·) := by
  rw [seeded, Table.find?_ofList]
  induction external.entries with
  | nil => rfl
  | cons s l ih =>
      rw [List.flatMap_cons, List.reverse_append, List.lookup_append, ih, lookup_reverse_siteEntries,
        List.reverse_cons, List.findSome?_append, List.findSome?_singleton]

/-- **Seeds.** An anchor of another document leads to the last site that has it. -/
theorem find?_seeded_eq_some_iff {external : ExternalAnchors} {id url : String} :
    (seeded external).find? id = some url ↔
      ∃ site suffix, external.suffix? site id = some suffix ∧ url = site ++ suffix ∧
        ∀ site', site < site' → external.suffix? site' id = none := by
  rw [find?_seeded, List.findSome?_eq_some_iff]
  constructor
  · rintro ⟨later, s, earlier, hentries, hs, hlater⟩
    obtain ⟨suffix, hsuffix, rfl⟩ := Option.map_eq_some_iff.1 hs
    have horder : external.entries = earlier.reverse ++ s :: later.reverse := by
      rw [← List.reverse_reverse external.entries, hentries]
      simp
    have hmem : s ∈ external.entries := by
      rw [horder]
      exact List.mem_append_right _ List.mem_cons_self
    refine ⟨s.1, suffix, ?_, rfl, fun site' hsite' => ?_⟩
    · rw [ExternalAnchors.suffix?, Table.find?_of_mem hmem, Option.bind_some, hsuffix]
    · cases hfind : external.find? site' with
      | none => rw [ExternalAnchors.suffix?, hfind, Option.bind_none]
      | some anchors =>
          -- The sites are in order, so a greater one is behind this one.
          have hsorted := horder ▸ external.sorted
          have hin := horder ▸ Table.mem_of_find? hfind
          have hbehind : (site', anchors) ∈ later := by
            rcases List.mem_append.1 hin with hearlier | hrest
            · have hlt := (List.pairwise_append.1 hsorted).2.2 _ hearlier s List.mem_cons_self
              exact absurd hsite' (String.lt_asymm hlt)
            · rcases List.mem_cons.1 hrest with rfl | hlater
              · exact absurd hsite' (String.lt_irrefl _)
              · exact List.mem_reverse.1 hlater
          rw [ExternalAnchors.suffix?, hfind, Option.bind_some]
          exact Option.map_eq_none_iff.1 (hlater _ hbehind)
  · rintro ⟨site, suffix, hsuffix, rfl, hgreater⟩
    obtain ⟨anchors, hanchors, hfound⟩ := Option.bind_eq_some_iff.1 hsuffix
    obtain ⟨earlier, later, horder⟩ := List.append_of_mem (Table.mem_of_find? hanchors)
    have hsorted := horder ▸ external.sorted
    refine ⟨later.reverse, (site, anchors), earlier.reverse, by rw [horder]; simp, ?_, fun s hs => ?_⟩
    · rw [hfound, Option.map_some]
    · have hs := List.mem_reverse.1 hs
      have hlt : site < s.1 :=
        (List.pairwise_cons.1 (List.pairwise_append.1 hsorted).2.1).1 s hs
      have hmem : s ∈ external.entries := by
        rw [horder]
        exact List.mem_append_right _ (List.mem_cons_of_mem _ hs)
      have hnone := hgreater s.1 hlt
      rw [ExternalAnchors.suffix?, Table.find?_of_mem hmem, Option.bind_some] at hnone
      rw [hnone, Option.map_none]

/-- Tables with the same anchors seed the same biblio. -/
theorem seeded_congr {external external' : ExternalAnchors}
    (h : ∀ site id, external.suffix? site id = external'.suffix? site id) : seeded external = seeded external' := by
  refine Table.ext_find? fun id => Option.ext fun url => ?_
  simp only [find?_seeded_eq_some_iff, h]

/-- An anchor of a single site leads to this site. -/
theorem find?_seeded_of_forall {external : ExternalAnchors} {site id suffix : String}
    (hsuffix : external.suffix? site id = some suffix)
    (hsite : ∀ site', (external.suffix? site' id).isSome = true → site' = site) :
    (seeded external).find? id = some (site ++ suffix) := by
  refine find?_seeded_eq_some_iff.2 ⟨site, suffix, hsuffix, rfl, fun site' hlt => ?_⟩
  cases hsome : external.suffix? site' id with
  | none => rfl
  | some _ => exact absurd (hsite site' (by rw [hsome]; rfl)).symm (String.ne_of_lt hlt)

/-! ## Anchors of the document -/

/-- A registered anchor leads to itself, unless it already led elsewhere, and any other anchor leads
where it did. -/
theorem find?_register (b : Biblio) (id key : String) :
    (b.register id).find? key
      = (b.find? key).or (if key = id then some (localUrl key) else none) := by
  unfold register register?
  by_cases htaken : b.contains id = true
  · rw [if_pos htaken, Option.getD_none]
    by_cases hkey : key = id
    · subst hkey
      rw [Table.contains, Option.isSome_iff_exists] at htaken
      obtain ⟨url, hurl⟩ := htaken
      rw [hurl, Option.some_or]
    · rw [if_neg hkey, Option.or_none]
  · rw [if_neg htaken, Option.getD_some, Table.find?_insert]
    by_cases hkey : key = id
    · subst hkey
      rw [Table.contains, Bool.not_eq_true, Option.isSome_eq_false_iff, Option.isNone_iff_eq_none]
        at htaken
      rw [if_pos rfl, if_pos rfl, htaken, Option.none_or]
    · rw [if_neg hkey, if_neg hkey, Option.or_none]

/-- After an anchor was registered, it is a key of the biblio besides those that were. -/
theorem contains_register (b : Biblio) (id key : String) :
    (b.register id).contains key = true ↔ b.contains key = true ∨ key = id := by
  rw [Table.contains, find?_register, Option.isSome_or, Bool.or_eq_true, ← Table.contains]
  by_cases hkey : key = id
  · simp [hkey]
  · simp [hkey]

/-- A biblio has no more keys than entries. -/
theorem length_le_size {b : Biblio} {keys : List String} (hnodup : keys.Nodup)
    (htaken : ∀ key ∈ keys, b.contains key = true) : keys.length ≤ b.size := by
  have hsubset : keys ⊆ b.entries.map Prod.fst := by
    intro key hkey
    obtain ⟨url, hurl⟩ := Option.isSome_iff_exists.1 (htaken key hkey)
    exact List.mem_map.2 ⟨(key, url), Table.mem_of_find? hurl, rfl⟩
  have hlength := List.Nodup.length_le_of_subset hnodup hsubset
  rwa [List.length_map] at hlength

/-- The biblio with all anchors of a list registered. -/
def registerAll (b : Biblio) (ids : List String) : Biblio := ids.foldl register b

@[simp]
theorem registerAll_nil (b : Biblio) : b.registerAll [] = b := rfl

@[simp]
theorem registerAll_cons (b : Biblio) (id : String) (ids : List String) :
    b.registerAll (id :: ids) = (b.register id).registerAll ids := rfl

/-- A biblio keeps what it has, and what is new are the registered anchors, each of which leads to
itself. -/
theorem find?_registerAll (b : Biblio) (ids : List String) (key : String) :
    (b.registerAll ids).find? key
      = (b.find? key).or (if key ∈ ids then some (localUrl key) else none) := by
  induction ids generalizing b with
  | nil => simp
  | cons id ids ih =>
      rw [registerAll_cons, ih, find?_register, Option.or_assoc]
      by_cases hkey : key = id
      · simp [hkey]
      · simp [hkey]

end Biblio

end SpecDoc
