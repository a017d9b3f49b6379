import SpecDoc.Proofs.Settings.Layers

/-!
# Which layer decides a setting

Files that leave the tables of the built-in settings in place and overrides of single settings cannot disturb each
other: the last word on a setting is the last override of it, or else what the last file says that says something
about it, or else the built-in value. The anchors of other documents are put together anchor by anchor, and for each
of them the last file that says something about it counts. This holds with any library that does what is documented.

* `Setting.decided` is the last word on a setting;
* `Loader.decidedBy_of_load`: the settings are decided by these words, however files and overrides stand among each
  other.
-/

namespace SpecDoc

open SettingValue Settings

namespace Setting

/-! ## The last override -/

section Words

variable {c : ConfigLibrary} (x : Setting) (doc : c.Documented)

/-- The value that a layer sets a setting to by hand. -/
def override? : SettingLayer → Option SettingValue
  | .file _ _ => none
  | .override name v => if doc.key? name = some x.key then some v else none

/-- The value that a setting is set to by hand in the end. -/
def lastOverride (layers : List SettingLayer) : Option SettingValue :=
  (layers.filterMap (x.override? doc)).getLast?

/-- What decides a setting: the last override of it, or else the last file that says something about it, or else the
built-in value. An override with an empty table says nothing. -/
def decided (layers : List SettingLayer) : Option SettingValue :=
  ((((x.lastOverride doc layers).map some).filter isSaid).or (lastSaid x.path (doc.files layers))).getD
    (builtIn.at? x.path)

end Words

/-- The key of a setting gives something to this setting only. -/
theorem given_nest (x y : Setting) (v : SettingValue) :
    given x.path (y.key.nest v) = if y.key = x.key then [some v] else [] := by
  cases x <;> cases y <;> rfl

/-- The built-in value of a setting is no table. -/
theorem alone_builtIn {x : Setting} {v : SettingValue} (h : builtIn.at? x.path = some v) : v.alone = v := by
  cases x <;> cases h <;> rfl

end Setting

namespace ConfigLibrary.Documented

variable {c : ConfigLibrary} {doc : c.Documented} {layers : List SettingLayer}

/-- What is left of the overrides of a setting is the last one. -/
theorem foldl_override_key (x : Setting) (overrides : SettingKey → Option SettingValue) :
    layers.foldl doc.override overrides x.key = (x.lastOverride doc layers).or (overrides x.key) := by
  induction layers generalizing overrides with
  | nil => rfl
  | cons l layers ih =>
      have hlast : x.lastOverride doc (l :: layers) = (x.lastOverride doc layers).or (x.override? doc l) := by
        rw [Setting.lastOverride, ← List.singleton_append, List.filterMap_append, List.getLast?_append,
          ← Setting.lastOverride]
        congr 1
        rw [List.filterMap_cons]
        cases x.override? doc l <;> rfl
      have hstep : doc.override overrides l x.key = (x.override? doc l).or (overrides x.key) := by
        cases l with
        | file path required => rfl
        | override name v =>
            rw [Setting.override?, override]
            cases hkey : doc.key? name with
            | none => rfl
            | some key =>
                dsimp only
                rw [Function.update_apply]
                by_cases hx : key = x.key
                · rw [if_pos hx.symm, if_pos (congrArg some hx), Option.some_or]
                · rw [if_neg (Ne.symm hx), if_neg (fun h => hx (Option.some.inj h)), Option.none_or]
      rw [List.foldl_cons, ih, hstep, hlast, Option.or_assoc]

/-- The override that is left of a setting is the last one. -/
theorem overridden_key (x : Setting) : doc.overridden layers x.key = x.lastOverride doc layers := by
  rw [overridden, foldl_override_key, Option.or_none]

/-- Only settings are overridden. -/
theorem OverridesSettings.exists_eq_key (hover : doc.OverridesSettings layers) {key : SettingKey}
    {v : SettingValue} (h : doc.overridden layers key = some v) : ∃ x : Setting, key = x.key := by
  have hfold : ∀ overrides : SettingKey → Option SettingValue, layers.foldl doc.override overrides key = some v →
      overrides key = some v ∨ ∃ x : Setting, key = x.key := by
    clear h
    induction layers with
    | nil =>
        intro overrides h
        exact .inl h
    | cons l layers ih =>
        intro overrides h
        rcases ih (fun name v hl => hover name v (List.mem_cons_of_mem l hl)) _ h with hkey | hx
        · cases l with
          | file path required => exact .inl hkey
          | override name w =>
              obtain ⟨x, hx⟩ := hover name w List.mem_cons_self
              rw [override, hx] at hkey
              dsimp only at hkey
              rw [Function.update_apply] at hkey
              split at hkey
              · next heq => exact .inr ⟨x, heq⟩
              · exact .inl hkey
        · exact .inr hx
  rcases hfold _ h with hnone | hx
  · cases hnone
  · exact hx

/-! ## Overrides as values -/

section Order

variable {order : List (SettingKey × SettingValue)}

/-- An override that is left is one of a setting. -/
theorem exists_eq_nest_of_mem (hover : doc.OverridesSettings layers)
    (horder : ListsOverrides order (doc.overridden layers)) {w : SettingValue}
    (hw : w ∈ order.map fun e => e.1.nest e.2) : ∃ (x : Setting) (v : SettingValue), w = x.key.nest v := by
  obtain ⟨e, he, rfl⟩ := List.mem_map.1 hw
  obtain ⟨x, hx⟩ := hover.exists_eq_key ((horder.mem_iff e.1 e.2).1 he)
  exact ⟨x, e.2, by rw [hx]⟩

/-- The overrides that are left give the last override of a setting to it. -/
theorem flatMap_given_path (hover : doc.OverridesSettings layers)
    (horder : ListsOverrides order (doc.overridden layers)) (x : Setting) :
    (order.map fun e => e.1.nest e.2).flatMap (given x.path) = ((x.lastOverride doc layers).map some).toList := by
  rw [← overridden_key, ← horder.flatMap_eq, List.flatMap_map]
  refine List.flatMap_congr fun e he => ?_
  obtain ⟨y, hy⟩ := hover.exists_eq_key ((horder.mem_iff e.1 e.2).1 he)
  rw [hy, Setting.given_nest]

/-- The overrides that are left give nothing to the table of sites. -/
theorem flatMap_given_sites (hover : doc.OverridesSettings layers)
    (horder : ListsOverrides order (doc.overridden layers)) (path : List String) :
    (order.map fun e => e.1.nest e.2).flatMap (given ("biblio" :: "sites" :: path)) = [] := by
  refine List.flatMap_eq_nil_iff.2 fun w hw => ?_
  obtain ⟨x, v, rfl⟩ := exists_eq_nest_of_mem hover horder hw
  cases x <;> rfl

/-- The overrides that are left leave the tables of the built-in settings in place. -/
theorem keepsTables_of_mem (hover : doc.OverridesSettings layers)
    (horder : ListsOverrides order (doc.overridden layers)) {w : SettingValue}
    (hw : w ∈ order.map fun e => e.1.nest e.2) : KeepsTables w := by
  obtain ⟨x, v, rfl⟩ := exists_eq_nest_of_mem hover horder hw
  apply keepsTables_of_tablePaths
  cases x <;> simp [tablePaths, tablePathsOf, builtIn, Setting.key, Setting.group, Setting.name, SettingKey.nest,
    given, isTable]

/-- What the overrides that are left say last about a setting is the last override of it. -/
theorem lastSaid_order (hover : doc.OverridesSettings layers)
    (horder : ListsOverrides order (doc.overridden layers)) (x : Setting) :
    lastSaid x.path (order.map fun e => e.1.nest e.2) = ((x.lastOverride doc layers).map some).filter isSaid := by
  rw [← getLast?_flatMap_given, flatMap_given_path hover horder]
  cases (x.lastOverride doc layers).map some with
  | none => rfl
  | some g => by_cases hg : isSaid g = true <;> simp [hg, Option.filter]

end Order

end ConfigLibrary.Documented

namespace Settings

open ConfigLibrary.Documented

/-! ## Decisions -/

/-- How layers decide the settings. -/
structure IsDecidedBy (s : Settings) {c : ConfigLibrary} (doc : c.Documented) (layers : List SettingLayer) :
    Prop where
  /-- A setting is read from the last word on it. -/
  setting : ∀ x : Setting, ∃ v, x.decided doc layers = some v ∧ x.Holds s v.alone
  /-- An anchor of another document is read from what the files say last about it. -/
  anchor : ∀ site id,
    (lastSaid ["biblio", "sites", site, id] (doc.files layers)).join.map text? = (s.sites.suffix? site id).map some
  /-- A site is there if some file gives something to it. -/
  site : ∀ site,
    s.sites.contains site = true ↔ ∃ file ∈ doc.files layers, given ["biblio", "sites", site] file ≠ []

section Loaded

variable {c : ConfigLibrary} {doc : c.Documented} {layers : List SettingLayer} {root : SettingValue}
  {order : List (SettingKey × SettingValue)} {t : Sections} {s : Settings}

/-- A setting is read from the last word on it. -/
theorem holds_decided (hover : doc.OverridesSettings layers)
    (horder : ListsOverrides order (doc.overridden layers))
    (hroot : root.hollow = stack builtIn ((doc.files layers ++ order.map fun e => e.1.nest e.2).map hollow))
    (ht : HasSections root t) (hs : ofValue root = .ok s) (x : Setting) :
    ∃ v, x.decided doc layers = some v ∧ x.Holds s v.alone := by
  have hlast : lastSaid x.path (doc.files layers ++ order.map fun e => e.1.nest e.2)
      = (((x.lastOverride doc layers).map some).filter isSaid).or (lastSaid x.path (doc.files layers)) := by
    rw [lastSaid_append, lastSaid_order hover horder]
  obtain ⟨r, hr, hholds⟩ := ((ofValue_eq_ok_iff_holds ht).1 hs).1 x
  have hstack : (stack builtIn ((doc.files layers ++ order.map fun e => e.1.nest e.2).map hollow)).at? x.path
      = some r.hollow := by
    rw [← hroot, at?_hollow, hr, Option.map_some]
  rcases (x.readsNames_holds s).of_stack hstack ((x.holds_hollow s r).2 hholds) with
    ⟨w, hw, hholds⟩ | ⟨hnone, hbuiltIn⟩
  · rw [lastSaid_hollow] at hw
    obtain ⟨g, hg, hmap⟩ := Option.map_eq_some_iff.1 hw
    obtain ⟨v, rfl, rfl⟩ := Option.map_eq_some_iff.1 hmap
    refine ⟨v, by rw [Setting.decided, ← hlast, hg, Option.getD_some], ?_⟩
    rw [alone, ← Option.map_none (f := hollow), ← hollow_overlay, ← alone] at hholds
    exact (x.holds_hollow s v.alone).1 hholds
  · rw [lastSaid_hollow, Option.map_eq_none_iff] at hnone
    refine ⟨r.hollow, by rw [Setting.decided, ← hlast, hnone, Option.getD_none, hbuiltIn], ?_⟩
    rw [Setting.alone_builtIn hbuiltIn]
    exact (x.holds_hollow s r).2 hholds

/-- An anchor of another document is read from what the files say last about it. -/
theorem text?_lastSaid (hover : doc.OverridesSettings layers)
    (horder : ListsOverrides order (doc.overridden layers))
    (hroot : root.hollow = stack builtIn ((doc.files layers ++ order.map fun e => e.1.nest e.2).map hollow))
    (ht : HasSections root t) (hs : ofValue root = .ok s) (site id : String) :
    (lastSaid ["biblio", "sites", site, id] (doc.files layers)).join.map text?
      = (s.sites.suffix? site id).map some := by
  have hsuffix := suffix?_of_ofValue ht (distinct_of_hollow hroot) hs site id
  have hlast : lastSaid ["biblio", "sites", site, id] (doc.files layers ++ order.map fun e => e.1.nest e.2)
      = lastSaid ["biblio", "sites", site, id] (doc.files layers) := by
    have hnone : lastSaid ["biblio", "sites", site, id] (order.map fun e => e.1.nest e.2) = none := by
      rw [← getLast?_flatMap_given, flatMap_given_sites hover horder]
      rfl
    rw [lastSaid_append, hnone, Option.none_or]
  have hstack := at?_hollow root ["biblio", "sites", site, id]
  rw [hroot] at hstack
  cases hat : root.at? ["biblio", "sites", site, id] with
  | none =>
      rw [hat] at hstack hsuffix
      have hjoin := join_lastSaid_of_at?_eq_none hstack
      rw [lastSaid_hollow, hlast] at hjoin
      rw [← hsuffix]
      cases hfiles : lastSaid ["biblio", "sites", site, id] (doc.files layers) with
      | none => rfl
      | some g =>
          rw [hfiles] at hjoin
          rw [Option.map_eq_none_iff.1 hjoin]
          rfl
  | some r =>
      rw [hat] at hstack hsuffix
      obtain ⟨suffix, hfound, hread⟩ := Option.map_eq_some_iff.1 hsuffix.symm
      rw [hfound]
      rcases (readsNames_text suffix).of_stack hstack ((text?_hollow r).trans hread.symm) with
        ⟨w, hw, hreads⟩ | ⟨-, hbuiltIn⟩
      · rw [lastSaid_hollow, hlast] at hw
        obtain ⟨g, hg, hmap⟩ := Option.map_eq_some_iff.1 hw
        obtain ⟨v, rfl, rfl⟩ := Option.map_eq_some_iff.1 hmap
        rw [text?_alone, text?_hollow] at hreads
        rw [hg]
        exact congrArg some hreads
      · cases hbuiltIn

/-- A file that leaves the tables of the built-in settings in place only gives values to a site. -/
theorem isSome_of_mem_given_site {v : SettingValue} (hv : KeepsTables v) {site : String}
    {g : Option SettingValue} (hg : g ∈ given ["biblio", "sites", site] v) : g.isSome = true := by
  rw [show ["biblio", "sites", site] = ["biblio", "sites"] ++ [site] by rfl, given_append] at hg
  obtain ⟨g', hg', hg⟩ := List.mem_flatMap.1 hg
  obtain ⟨es, rfl⟩ := hv ["biblio", "sites"] _ rfl g' hg'
  obtain ⟨e, -, hg⟩ := List.mem_flatMap.1 hg
  split at hg
  · rw [List.mem_singleton.1 hg]
    rfl
  · cases hg

/-- A site is there if some file gives something to it. -/
theorem contains_site_iff (hfiles : ∀ file ∈ doc.files layers, KeepsTables file)
    (hover : doc.OverridesSettings layers) (horder : ListsOverrides order (doc.overridden layers))
    (hroot : root.hollow = stack builtIn ((doc.files layers ++ order.map fun e => e.1.nest e.2).map hollow))
    (ht : HasSections root t) (hs : ofValue root = .ok s) (site : String) :
    s.sites.contains site = true ↔
      ∃ file ∈ doc.files layers, given ["biblio", "sites", site] file ≠ [] := by
  have hsome : ∀ g ∈ ((doc.files layers).flatMap (given ["biblio", "sites", site])).map (Option.map hollow),
      g.isSome = true := by
    intro g hg
    obtain ⟨old, hold, rfl⟩ := List.mem_map.1 hg
    obtain ⟨file, hfile, hold⟩ := List.mem_flatMap.1 hold
    rw [Option.isSome_map]
    exact isSome_of_mem_given_site (hfiles file hfile) hold
  rw [contains_site_of_ofValue ht (distinct_of_hollow hroot) hs, ← Option.isSome_map (f := hollow), ← at?_hollow,
    hroot, at?_stack, flatMap_given_hollow, List.flatMap_append, flatMap_given_sites hover horder, List.append_nil,
    isSome_foldl_settle hsome]
  rw [show builtIn.at? ["biblio", "sites", site] = none by rfl]
  simp

/-- The root that layers build has all tables from which settings are read. -/
theorem hasSections_of_load (hfiles : ∀ file ∈ doc.files layers, KeepsTables file)
    (hover : doc.OverridesSettings layers) (horder : ListsOverrides order (doc.overridden layers))
    (hroot : root.hollow = stack builtIn ((doc.files layers ++ order.map fun e => e.1.nest e.2).map hollow)) :
    ∃ t, HasSections root t := by
  refine hasSections_of_keepsTables (fun v hv => ?_) hroot
  rcases List.mem_append.1 hv with hv | hv
  · exact hfiles v hv
  · exact keepsTables_of_mem hover horder hv

end Loaded

end Settings

namespace Loader

open ConfigLibrary.Documented

variable {c : ConfigLibrary} {doc : c.Documented} {layers layers' : List SettingLayer} {s : Settings}

/-- Layers whose files and overrides are the same, each in their order, are loaded to the same settings. -/
theorem load_eq_ok_of_same (hfiles : ∀ file ∈ doc.files layers, KeepsTables file)
    (hover : doc.OverridesSettings layers) (hload : load c layers = .ok s)
    (hfile : layers'.filter SettingLayer.isFile = layers.filter SettingLayer.isFile)
    (hoverride : layers'.filter (!SettingLayer.isFile ·) = layers.filter (!SettingLayer.isFile ·)) :
    load c layers' = .ok s := by
  obtain ⟨root, order, hs, horder, hroot⟩ := exists_root_of_load hover hload
  obtain ⟨vs, hvs⟩ := exists_mapM_of_load hover hload
  have hsources := filterMap_source?_congr hfile
  have hover' := hover.congr hoverride
  obtain ⟨root', order', hload', horder', hroot'⟩ := exists_root hover' (hsources ▸ hvs)
  have hfiles_eq : doc.files layers' = doc.files layers := by
    rw [files, files, hsources]
  rw [hfiles_eq] at hroot'
  rw [overridden_congr hoverride] at horder'
  obtain ⟨t, ht⟩ := hasSections_of_load hfiles hover horder hroot
  obtain ⟨t', ht'⟩ := hasSections_of_load hfiles hover horder' hroot'
  -- The overrides may be set in another order, but at each path only one of them counts.
  have hat : ∀ path, (order'.map fun e => e.1.nest e.2).flatMap (given path)
        = (order.map fun e => e.1.nest e.2).flatMap (given path) →
      (root'.at? path).map hollow = (root.at? path).map hollow := by
    intro path hpath
    rw [← at?_hollow, ← at?_hollow, hroot, hroot', at?_stack, at?_stack, flatMap_given_hollow,
      flatMap_given_hollow, List.flatMap_append, List.flatMap_append, hpath]
  rw [hload']
  refine ofValue_eq_ok_of_at? ht ht' (fun x => hat x.path ?_) (hat _ ?_) hs
  · rw [flatMap_given_path hover horder, flatMap_given_path hover horder']
  · rw [flatMap_given_sites hover horder, flatMap_given_sites hover horder']

/-- **Precedence.** If files leave the tables of the built-in settings in place and overrides name settings, then
each setting is decided by the last override of it, or else by the last file that says something about it, or else by
the built-in value; the anchors of other documents are put together anchor by anchor over all files; and it makes no
difference how files and overrides stand among each other. Of the library no more is used than what is documented. -/
theorem decidedBy_of_load (hfiles : ∀ file ∈ doc.files layers, KeepsTables file)
    (hover : doc.OverridesSettings layers) (hload : load c layers = .ok s) :
    s.IsDecidedBy doc layers ∧
      ∀ layers', layers'.filter SettingLayer.isFile = layers.filter SettingLayer.isFile →
        layers'.filter (!SettingLayer.isFile ·) = layers.filter (!SettingLayer.isFile ·) →
          load c layers' = .ok s := by
  obtain ⟨root, order, hs, horder, hroot⟩ := exists_root_of_load hover hload
  obtain ⟨t, ht⟩ := hasSections_of_load hfiles hover horder hroot
  constructor
  · exact ⟨holds_decided hover horder hroot ht hs, text?_lastSaid hover horder hroot ht hs,
      contains_site_iff hfiles hover horder hroot ht hs⟩
  · intro layers' hfile hoverride
    exact load_eq_ok_of_same hfiles hover hload hfile hoverride

/-! ## Two files and overrides around them -/

/-- Two settings files. Both say something about one anchor, and a name in the first is in upper case. -/
def layeredFiles : FileAccess :=
  .ofFiles
    [("specmd.toml", .ok ("[Anchors]\nMin_Hash_Length = 8\n\n[biblio.sites.\"https://spec.example.org/\"]\n" ++
        "sec-types = \"#types\"\nsec-values = \"#values\"\n")),
      ("local.toml", .ok ("output.format = \"biblio\"\n\n[biblio.sites.\"https://spec.example.org/\"]\n" ++
        "sec-types = \"#sec-types\"\n"))]

/-- Layers with these files, one that may be missing and is, and overrides before, between and behind them. -/
def layeredLayers : List SettingLayer :=
  [.override "Output.Format" (.text "JSON"), .file "specmd.toml" true, .file "absent.toml" false,
    .override "anchors.min_hash_length" (.text "6"), .file "local" true,
    .override "anchors.min_hash_length" (.integer 7)]

/-- The overrides among the layers name settings. -/
theorem overridesSettings_layeredLayers :
    (ConfigLibrary.documented_standard layeredFiles).OverridesSettings layeredLayers := by
  intro name v hl
  simp only [layeredLayers, List.mem_cons, reduceCtorEq, SettingLayer.override.injEq, List.not_mem_nil, false_or,
    or_false] at hl
  rcases hl with ⟨rfl, -⟩ | ⟨rfl, -⟩ | ⟨rfl, -⟩
  · exact ⟨.format, rfl⟩
  · exact ⟨.minHashLength, rfl⟩
  · exact ⟨.minHashLength, rfl⟩

/-- The files among the layers leave the tables of the built-in settings in place. -/
theorem keepsTables_layeredFiles :
    ∀ file ∈ (ConfigLibrary.documented_standard layeredFiles).files layeredLayers, KeepsTables file := by
  have hpaths : ∀ file ∈ (ConfigLibrary.documented_standard layeredFiles).files layeredLayers,
      ∀ path ∈ tablePaths builtIn, ∀ g ∈ given path file, g.any isTable = true := by
    decide +kernel
  exact fun file hfile => keepsTables_of_tablePaths (hpaths file hfile)

/-- Of the layers the last overrides count for the format and the number of digits, a file for each of the anchors,
and the built-in value for the prefix. -/
theorem decidedBy_of_load_layeredFiles :
    ∃ s, load (.standard layeredFiles) layeredLayers = .ok s ∧
      (s.format = .json ∧ s.minHashLength = 7 ∧ s.sectionPrefix = "sec-" ∧
        s.sites.suffix? "https://spec.example.org/" "sec-types" = some "#sec-types" ∧
        s.sites.suffix? "https://spec.example.org/" "sec-values" = some "#values") ∧
      s.IsDecidedBy (ConfigLibrary.documented_standard layeredFiles) layeredLayers ∧
      ∀ layers', layers'.filter SettingLayer.isFile = layeredLayers.filter SettingLayer.isFile →
        layers'.filter (!SettingLayer.isFile ·) = layeredLayers.filter (!SettingLayer.isFile ·) →
          load (.standard layeredFiles) layers' = .ok s := by
  have hshown : (load (.standard layeredFiles) layeredLayers).toOption.any (fun s =>
      s.format = .json && s.minHashLength = 7 && s.sectionPrefix = "sec-" &&
        s.sites.suffix? "https://spec.example.org/" "sec-types" = some "#sec-types" &&
        s.sites.suffix? "https://spec.example.org/" "sec-values" = some "#values") = true := by
    decide +kernel
  cases hload : load (.standard layeredFiles) layeredLayers with
  | error e =>
      rw [hload] at hshown
      cases hshown
  | ok s =>
      rw [hload] at hshown
      refine ⟨s, rfl, by simpa [Except.toOption, and_assoc] using hshown, ?_⟩
      exact decidedBy_of_load keepsTables_layeredFiles overridesSettings_layeredLayers hload

end Loader

end SpecDoc
