import SpecDoc.Command
import SpecDoc.Proofs.Settings.Writer
import SpecDoc.Proofs.Snapshot

/-!
# Anchors of other documents for a run

A run takes anchors of other documents from its settings file and from the files of anchors that its arguments name.
A file of anchors is taken as it is, and a settings file with its names in lower case, so the two ways lead to the
same biblio for anchors in lower case only.

* `Command.external` are the anchors of other documents for a run, and `Command.seed` is the biblio they make;
* `Command.seed_eq_seed_iff_inLowerCase`: when the two ways agree;
* `Command.both_ways`: all anchors can be given in both ways.
-/

namespace SpecDoc

namespace ExternalAnchors

/-! ## Names -/

/-- Whether all names are in lower case. -/
def InLowerCase (external : ExternalAnchors) : Prop :=
  ∀ site id, (external.suffix? site id).isSome = true → Text.lower site = site ∧ Text.lower id = id

/-- Whether the anchors, those of different sites included, have different names in lower case. -/
def NamesOnce (external : ExternalAnchors) : Prop :=
  ∀ site id site' id', (external.suffix? site id).isSome = true → (external.suffix? site' id').isSome = true →
    Text.lower id = Text.lower id' → site = site' ∧ id = id'

variable {external lowered : ExternalAnchors}

/-- Names in lower case are kept. -/
theorem IsLowered.suffix?_eq (h : external.IsLowered lowered) (hlower : external.InLowerCase) (site id : String) :
    lowered.suffix? site id = external.suffix? site id := by
  cases hlowered : lowered.suffix? site id with
  | some suffix =>
      obtain ⟨site', id', hsuffix, rfl, rfl⟩ := h.sound site id suffix hlowered
      obtain ⟨hsite, hid⟩ := hlower site' id' (by rw [hsuffix]; rfl)
      rw [hsite, hid, hsuffix]
  | none =>
      cases hsuffix : external.suffix? site id with
      | none => rfl
      | some suffix =>
          obtain ⟨hsite, hid⟩ := hlower site id (by rw [hsuffix]; rfl)
          have hthere := h.complete site id suffix hsuffix
          rw [hsite, hid, hlowered] at hthere
          cases hthere

/-- All anchors that are seeded from names in lower case are in lower case. -/
theorem IsLowered.lower_eq_of_contains (h : external.IsLowered lowered) {id : String}
    (hid : (Biblio.seeded lowered).contains id = true) : Text.lower id = id := by
  obtain ⟨url, hurl⟩ := Option.isSome_iff_exists.1 hid
  obtain ⟨site, suffix, hsuffix, -, -⟩ := Biblio.find?_seeded_eq_some_iff.1 hurl
  obtain ⟨-, id', -, -, rfl⟩ := h.sound site id suffix hsuffix
  exact Text.lower_lower id'

/-- If the same is seeded from names as they are and from names in lower case, all are in lower case. -/
theorem IsLowered.inLowerCase_of_seeded_eq (h : external.IsLowered lowered) (honce : external.NamesOnce)
    (heq : Biblio.seeded lowered = Biblio.seeded external) : external.InLowerCase := by
  intro site id hthere
  obtain ⟨suffix, hsuffix⟩ := Option.isSome_iff_exists.1 hthere
  have hfind : (Biblio.seeded lowered).find? id = some (site ++ suffix) := by
    rw [heq]
    exact Biblio.find?_seeded_of_forall hsuffix fun site' hsite' => (honce site' id site id hsite' hthere rfl).1
  obtain ⟨site₁, suffix₁, hlowered, hurl, -⟩ := Biblio.find?_seeded_eq_some_iff.1 hfind
  obtain ⟨site', id', hsuffix', rfl, hid⟩ := h.sound site₁ id suffix₁ hlowered
  have hsame : Text.lower id' = Text.lower id := by rw [← hid, Text.lower_lower]
  obtain ⟨rfl, rfl⟩ := honce site' id' site id (by rw [hsuffix']; rfl) hthere hsame
  obtain rfl : suffix₁ = suffix := Option.some.inj (hsuffix'.symm.trans hsuffix)
  exact ⟨(String.append_left_inj _).1 hurl.symm, hid⟩

end ExternalAnchors

namespace Command

/-! ## The seed of a run -/

/-- The anchors of other documents for a run with these settings. -/
def external (a : FileAccess) (args : Arguments) (s : Settings) : Except Failure ExternalAnchors := do
  let seeds ← args.seeds.mapM (loadSeed a)
  return seeds.foldl addSites s.sites

/-- A run that prints something compiled its document with the anchors of its settings and of its seeds. -/
theorem exists_of_compileText_eq_ok {a : FileAccess} {args : Arguments} {text : String}
    (h : compileText a args = .ok text) :
    ∃ s f sites annotated, settings a args = .ok s ∧ format args s = .ok f ∧ external a args s = .ok sites ∧
      (compile a.library { s.compileOptions with external := sites } args.path).run = some (.ok annotated) ∧
      text = render annotated f := by
  unfold compileText at h
  obtain ⟨s, hs, h⟩ := Settings.exists_of_bind_eq_ok h
  obtain ⟨f, hf, h⟩ := Settings.exists_of_bind_eq_ok h
  obtain ⟨seeds, hseeds, h⟩ := Settings.exists_of_bind_eq_ok h
  have hexternal : external a args s = .ok (seeds.foldl addSites s.sites) := by
    rw [external, hseeds]
    rfl
  dsimp only at h
  split at h
  · cases h
  · cases h
  · next annotated hrun =>
      cases h
      exact ⟨s, f, seeds.foldl addSites s.sites, annotated, hs, hf, hexternal, hrun, rfl⟩

/-- The biblio from which a run starts. -/
def seed (a : FileAccess) (args : Arguments) : Except Failure Biblio := do
  let s ← settings a args
  let external ← external a args s
  return Biblio.seeded external

/-- To add sites that are not there is to put them in. -/
theorem foldl_addSites_eq {l : List (String × Table String)} {t : ExternalAnchors} (hl : (l.map Prod.fst).Nodup)
    (ht : ∀ s ∈ l, t.find? s.1 = none) :
    l.foldl (fun t s => t.insert s.1 (((t.find? s.1).getD Table.empty).merge s.2)) t
      = l.foldl (fun t s => t.insert s.1 s.2) t := by
  induction l generalizing t with
  | nil => rfl
  | cons s l ih =>
      obtain ⟨hs, hl⟩ := List.nodup_cons.1 hl
      have hmerge : (Table.empty : Table String).merge s.2 = s.2 := Table.ofList_entries s.2
      rw [List.foldl_cons, List.foldl_cons, ht s List.mem_cons_self, Option.getD_none, hmerge]
      refine ih hl fun s' hs' => ?_
      have hne : s'.1 ≠ s.1 := fun heq => hs (heq ▸ List.mem_map_of_mem hs')
      rw [Table.find?_insert, if_neg hne, ht s' (List.mem_cons_of_mem _ hs')]

/-- Sites that are added to none are all there is. -/
theorem addSites_empty (sites : ExternalAnchors) : addSites Table.empty sites = sites := by
  rw [addSites, foldl_addSites_eq sites.nodup_keys fun _ _ => rfl]
  exact Table.ofList_entries sites

/-- Without a settings file, a run starts from the anchors of the file that its arguments name. -/
theorem seed_of_loadSeed {a : FileAccess} {path : String} {sites : ExternalAnchors}
    (h : loadSeed a path = .ok sites) (args : Arguments) :
    seed a { args with config := none, seeds := [path] } = .ok (Biblio.seeded sites) := by
  have hsettings : settings a { args with config := none, seeds := [path] }
      = .ok ⟨true, "sec-", 5, true, .outline, Table.empty⟩ := rfl
  have hexternal : external a { args with config := none, seeds := [path] }
      ⟨true, "sec-", 5, true, .outline, Table.empty⟩ = .ok sites := by
    rw [external, List.mapM_cons, h]
    exact congrArg Except.ok (addSites_empty sites)
  rw [seed, hsettings]
  show (external _ _ _ >>= _) = _
  rw [hexternal]
  rfl

/-- Without files of anchors, a run starts from the anchors of its settings file. -/
theorem seed_of_load {a : FileAccess} {config : String} {s : Settings}
    (h : Settings.load a [.file config true] = .ok s) (args : Arguments) :
    seed a { args with config := some config, seeds := [] } = .ok (Biblio.seeded s.sites) := by
  have hsettings : settings a { args with config := some config, seeds := [] } = .ok s := by
    rw [settings]
    show (Settings.load a [.file config true]).mapError Failure.settings = _
    rw [h]
    rfl
  rw [seed, hsettings]
  rfl

/-- **Two ways to give anchors.** Suppose that a settings file writes anchors of other documents, beside other
settings, and that a file of anchors writes the same ones. A run with the first starts from these anchors with their
names in lower case, and a run with the second from the anchors as they are. If all names are in lower case, the
biblio is the same. If no two anchors have the same name in lower case, it is the same only then, for the settings
file leads to anchors in lower case only. -/
theorem seed_eq_seed_iff_inLowerCase {a : FileAccess} {config text path : String} {sites : ExternalAnchors}
    {s : Settings} (hconfig : a.read config = .ok text) (hsites : Toml.sites? text = some sites)
    (hload : Settings.load a [.file config true] = .ok s) (hseed : loadSeed a path = .ok sites)
    (args : Arguments) :
    seed a { args with config := some config, seeds := [] } = .ok (Biblio.seeded s.sites) ∧
      seed a { args with config := none, seeds := [path] } = .ok (Biblio.seeded sites) ∧
      sites.IsLowered s.sites ∧
      (sites.InLowerCase → Biblio.seeded s.sites = Biblio.seeded sites) ∧
      (sites.NamesOnce → Biblio.seeded s.sites = Biblio.seeded sites → sites.InLowerCase) ∧
      ∀ id, (Biblio.seeded s.sites).contains id = true → Text.lower id = id := by
  have hlowered := Settings.isLowered_of_load hconfig hsites hload
  exact ⟨seed_of_load hload args, seed_of_loadSeed hseed args, hlowered,
    fun h => Biblio.seeded_congr (hlowered.suffix?_eq h),
    fun honce heq => hlowered.inLowerCase_of_seeded_eq honce heq, fun _ => hlowered.lower_eq_of_contains⟩

/-! ## Files of all anchors -/

/-- Anchors of other documents as a JSON object. -/
def sitesToJson (sites : ExternalAnchors) : Json :=
  .object (sites.entries.map fun s => (s.1, Snapshot.tableToJson s.2))

/-- Anchors of other documents are written without numbers. -/
theorem numberFree_sitesToJson (sites : ExternalAnchors) : (sitesToJson sites).NumberFree := by
  rw [sitesToJson, Json.NumberFree]
  induction sites.entries with
  | nil => trivial
  | cons s l ih => exact ⟨Snapshot.numberFree_tableToJson s.2, ih⟩

/-- The anchors are read back from a file that writes them. -/
theorem loadSeed_of_read {a : FileAccess} {path : String} {sites : ExternalAnchors}
    (h : a.read path = .ok (sitesToJson sites).compact) : loadSeed a path = .ok sites := by
  have htable : (sitesToJson sites).table? (Json.table? Json.string?) = some sites := by
    rw [sitesToJson, Json.table?, Table.mapM_map_entries Snapshot.table?_tableToJson, Option.map_some,
      Table.ofList_entries]
  simp only [loadSeed, h, Json.parseWithin?_bind_table? (show 2 ≤ Json.depthLimit by decide),
    Json.parse?_compact (numberFree_sitesToJson sites), Option.bind_some, htable]

/-- All anchors of other documents can be given in both ways. -/
theorem both_ways {a : FileAccess} {config path : String} {sites : ExternalAnchors}
    (hconfig : a.read config = .ok (Toml.ofSites sites))
    (hpath : a.read path = .ok (sitesToJson sites).compact) :
    Toml.sites? (Toml.ofSites sites) = some sites ∧
      (∃ s, Settings.load a [.file config true] = .ok s) ∧ loadSeed a path = .ok sites :=
  ⟨Toml.sites?_ofSites sites, Toml.exists_load_ofSites hconfig true, loadSeed_of_read hpath⟩

/-! ## An anchor with a capital letter -/

/-- The anchors of another document, one of which has a capital letter. -/
def typesSites : ExternalAnchors :=
  Table.ofList [("https://spec.example.org/", Table.ofList [("sec-Types", "#sec-Types")])]

/-- A settings file that writes them beside another setting. -/
def typesToml : String :=
  "[anchors]\nmin_hash_length = 8\n\n" ++
    "[biblio.sites.\"https://spec.example.org/\"]\nsec-Types = \"#sec-Types\"\n"

/-- A file of anchors that writes them. -/
def typesJson : String := "\x7b\"https://spec.example.org/\": \x7b\"sec-Types\": \"#sec-Types\"\x7d\x7d\n"

/-- The settings file and the file of anchors. -/
def typesFiles : FileAccess := FileAccess.ofFiles [("specmd.toml", .ok typesToml), ("biblio.json", .ok typesJson)]

/-- The arguments of a run that prints the biblio. -/
def typesArguments : Arguments := ⟨"spec.md", none, some "biblio", [], false, 0⟩

/-- The settings file writes the anchors of `typesSites`. -/
theorem sites?_typesToml : Toml.sites? typesToml = some typesSites := by
  decide +kernel

/-- The file of anchors writes the anchors of `typesSites`. -/
theorem loadSeed_typesFiles : loadSeed typesFiles "biblio.json" = .ok typesSites := by
  have hread : (Json.parseWithin? Json.depthLimit typesJson).bind (Json.table? (Json.table? Json.string?))
      = some typesSites := by
    decide +kernel
  have hfile : typesFiles.read "biblio.json" = .ok typesJson := rfl
  simp only [loadSeed, hfile, hread]

/-- The settings of the settings file can be had. -/
theorem exists_load_typesFiles : ∃ s, Settings.load typesFiles [.file "specmd.toml" true] = .ok s := by
  cases hload : Settings.load typesFiles [.file "specmd.toml" true] with
  | ok s => exact ⟨s, rfl⟩
  | error e =>
      have hok : (Settings.load typesFiles [.file "specmd.toml" true]).isOk = true := by decide +kernel
      rw [hload] at hok
      cases hok

/-- The settings file and the file of anchors each start a run, and not the same one. -/
theorem seed_eq_seed_iff_inLowerCase_typesFiles :
    ∃ s, Settings.load typesFiles [.file "specmd.toml" true] = .ok s ∧
      seed typesFiles { typesArguments with config := some "specmd.toml", seeds := [] }
        = .ok (Biblio.seeded s.sites) ∧
      seed typesFiles { typesArguments with config := none, seeds := ["biblio.json"] }
        = .ok (Biblio.seeded typesSites) ∧
      typesSites.IsLowered s.sites ∧
      (typesSites.InLowerCase → Biblio.seeded s.sites = Biblio.seeded typesSites) ∧
      (typesSites.NamesOnce → Biblio.seeded s.sites = Biblio.seeded typesSites → typesSites.InLowerCase) ∧
      ∀ id, (Biblio.seeded s.sites).contains id = true → Text.lower id = id := by
  obtain ⟨s, hload⟩ := exists_load_typesFiles
  exact ⟨s, hload, seed_eq_seed_iff_inLowerCase rfl sites?_typesToml hload loadSeed_typesFiles typesArguments⟩

/-- Whether it makes no difference in which of the two ways anchors of other documents are given. -/
def SeedsAlike : Prop :=
  ∀ (a : FileAccess) (config text path : String) (sites : ExternalAnchors) (s : Settings) (args : Arguments),
    a.read config = .ok text → Toml.sites? text = some sites →
      Settings.load a [.file config true] = .ok s → loadSeed a path = .ok sites →
        seed a { args with config := some config, seeds := [] }
          = seed a { args with config := none, seeds := [path] }

/-- The two ways make a difference: the anchor of the file of anchors is not found with the settings file. -/
theorem not_seedsAlike_typesFiles : ¬SeedsAlike := by
  intro h
  obtain ⟨s, hload⟩ := exists_load_typesFiles
  have heq := h typesFiles "specmd.toml" typesToml "biblio.json" typesSites s typesArguments rfl sites?_typesToml
    hload loadSeed_typesFiles
  have hfound := congrArg (fun r => r.toOption.bind fun b => b.find? "sec-Types") heq
  exact absurd hfound (by decide +kernel)

end Command

end SpecDoc
