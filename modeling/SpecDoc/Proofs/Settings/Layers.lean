import SpecDoc.Proofs.Settings.Reading

/-!
# Layers as values

A loader gives layers to a library of which no more is known than what is documented. What a file says is kept as a
value of tables, and so is an override. All layers together set these values over the built-in settings: first the
files, then the overrides, however they stood among each other.

* `files` are what the files say, in order, and `overridden` are the overrides that remain, by their keys;
* `exists_root`: layers whose files can be read build a root, which is made of these;
* `exists_root_of_load`: so is the root from which settings were read;
* `hasSections_of_keepsTables`: if the layers leave the tables of the built-in settings in place, the root has them.
-/

namespace SpecDoc

open SettingValue Settings

/-- The source that a layer adds. -/
def SettingLayer.source? : SettingLayer → Option SettingsSource
  | .file path required => some (.file path required)
  | .override _ _ => none

/-- Whether a layer is a file. -/
def SettingLayer.isFile : SettingLayer → Bool
  | .file _ _ => true
  | .override _ _ => false

namespace ConfigLibrary.Documented

variable {c : ConfigLibrary} (doc : c.Documented)

/-! ## What layers say -/

/-- What the files among the layers say, in order. -/
def files (layers : List SettingLayer) : List SettingValue :=
  (layers.filterMap SettingLayer.source?).filterMap fun source => (doc.collect source).toOption

/-- The overrides with the one that a layer makes. -/
def override (overrides : SettingKey → Option SettingValue) : SettingLayer → SettingKey → Option SettingValue
  | .file _ _ => overrides
  | .override name v =>
    match doc.key? name with
    | none => overrides
    | some key => Function.update overrides key (some v)

/-- The overrides that remain of all layers. -/
def overridden (layers : List SettingLayer) : SettingKey → Option SettingValue :=
  layers.foldl doc.override fun _ => none

/-- Whether every override among the layers names a setting. -/
def OverridesSettings (layers : List SettingLayer) : Prop :=
  ∀ name v, .override name v ∈ layers → ∃ x : Setting, doc.key? name = some x.key

/-- Sources say what each of them says. -/
theorem filterMap_collect_of_mapM {sources : List SettingsSource} {vs : List SettingValue}
    (h : sources.mapM doc.collect = .ok vs) :
    sources.filterMap (fun source => (doc.collect source).toOption) = vs := by
  induction sources generalizing vs with
  | nil =>
      cases h
      rfl
  | cons source sources ih =>
      obtain ⟨v, ws, hv, hws, rfl⟩ := exists_of_mapM_cons_eq_ok h
      rw [List.filterMap_cons, hv, ih hws]
      rfl

/-! ## The root -/

section Root

variable {doc} {layers : List SettingLayer}

/-- All layers can be given to a builder, which registers their files and overrides. -/
theorem exists_foldlM_add (hover : doc.OverridesSettings layers) (b : c.Builder) :
    ∃ b', layers.foldlM (Loader.add c) b = .ok b' ∧
      doc.sources b' = doc.sources b ++ layers.filterMap SettingLayer.source? ∧
      doc.overrides b' = layers.foldl doc.override (doc.overrides b) := by
  induction layers generalizing b with
  | nil => exact ⟨b, rfl, (List.append_nil _).symm, rfl⟩
  | cons l layers ih =>
      have hstep : ∃ next, Loader.add c b l = .ok next ∧
          doc.sources next = doc.sources b ++ l.source?.toList ∧
          doc.overrides next = doc.override (doc.overrides b) l := by
        cases l with
        | file path required =>
            exact ⟨_, rfl, doc.sources_addSource b _, doc.overrides_addSource b _⟩
        | override name v =>
            obtain ⟨x, hx⟩ := hover name v List.mem_cons_self
            obtain ⟨next, hnext, hsources, hoverrides⟩ := doc.exists_setOverride b name v x.key hx
            refine ⟨next, hnext, ?_, ?_⟩
            · rw [hsources]
              exact (List.append_nil _).symm
            · rw [hoverrides, override, hx]
      obtain ⟨next, hnext, hsources, hoverrides⟩ := hstep
      obtain ⟨b', hb', hsources', hoverrides'⟩ := ih (fun name v hl => hover name v (List.mem_cons_of_mem l hl)) next
      refine ⟨b', ?_, ?_, ?_⟩
      · rw [List.foldlM_cons, hnext]
        exact hb'
      · rw [hsources', hsources, List.append_assoc, List.filterMap_cons]
        cases l.source? <;> rfl
      · rw [hoverrides', hoverrides, List.foldl_cons]

/-- Layers whose files can be read build a root: what they say, overrides behind files, over the built-in settings. -/
theorem exists_root (hover : doc.OverridesSettings layers) {vs : List SettingValue}
    (hvs : (layers.filterMap SettingLayer.source?).mapM doc.collect = .ok vs) :
    ∃ root order, Loader.load c layers = ofValue root ∧ ListsOverrides order (doc.overridden layers) ∧
      root.hollow = stack builtIn ((doc.files layers ++ order.map fun e => e.1.nest e.2).map hollow) := by
  obtain ⟨b, hb, hsources, hoverrides⟩ := exists_foldlM_add hover (Loader.start c)
  have hstart : doc.sources b = .builtIn :: layers.filterMap SettingLayer.source? := by
    rw [hsources, Loader.start, doc.sources_addSource, doc.sources_empty]
    rfl
  have hregistered : doc.overrides b = doc.overridden layers := by
    rw [hoverrides, Loader.start, doc.overrides_addSource, doc.overrides_empty]
    rfl
  have hcollect : (doc.sources b).mapM doc.collect = .ok (builtIn :: vs) := by
    rw [hstart, List.mapM_cons, doc.collect_builtIn, hvs]
    rfl
  obtain ⟨root, order, hbuild, horder, hroot⟩ := doc.exists_build b _ hcollect
  refine ⟨root, order, ?_, hregistered ▸ horder, ?_⟩
  · rw [Loader.load, hb]
    show (c.build b >>= ofValue) = _
    rw [hbuild]
    rfl
  · rw [files, doc.filterMap_collect_of_mapM hvs, hroot]
    rfl

/-- The files of layers from which settings were read can be read. -/
theorem exists_mapM_of_load (hover : doc.OverridesSettings layers) {s : Settings}
    (h : Loader.load c layers = .ok s) :
    ∃ vs, (layers.filterMap SettingLayer.source?).mapM doc.collect = .ok vs := by
  obtain ⟨b, hb, hsources, -⟩ := exists_foldlM_add hover (Loader.start c)
  rw [Loader.load, hb] at h
  obtain ⟨root, hbuild, -⟩ := exists_of_bind_eq_ok (show (c.build b >>= ofValue) = .ok s from h)
  obtain ⟨vs, hvs⟩ := doc.exists_collect b root hbuild
  rw [hsources, Loader.start, doc.sources_addSource, doc.sources_empty] at hvs
  obtain ⟨v, ws, -, hws, -⟩ := exists_of_mapM_cons_eq_ok hvs
  exact ⟨ws, hws⟩

/-- The root from which settings were read. -/
theorem exists_root_of_load (hover : doc.OverridesSettings layers) {s : Settings}
    (h : Loader.load c layers = .ok s) :
    ∃ root order, ofValue root = .ok s ∧ ListsOverrides order (doc.overridden layers) ∧
      root.hollow = stack builtIn ((doc.files layers ++ order.map fun e => e.1.nest e.2).map hollow) := by
  obtain ⟨vs, hvs⟩ := exists_mapM_of_load hover h
  obtain ⟨root, order, hload, horder, hroot⟩ := exists_root hover hvs
  exact ⟨root, order, hload ▸ h, horder, hroot⟩

/-! ## The order of files and overrides -/

variable {layers' : List SettingLayer}

/-- The sources of layers are those of the files among them. -/
theorem filterMap_source?_congr (h : layers'.filter SettingLayer.isFile = layers.filter SettingLayer.isFile) :
    layers'.filterMap SettingLayer.source? = layers.filterMap SettingLayer.source? := by
  have hfile : ∀ layers : List SettingLayer,
      layers.filterMap SettingLayer.source? = (layers.filter SettingLayer.isFile).filterMap SettingLayer.source? := by
    intro layers
    rw [List.filterMap_filter]
    refine List.filterMap_congr fun l _ => ?_
    cases l <;> rfl
  rw [hfile layers, hfile layers', h]

/-- The overrides that remain of layers are those of the overrides among them. -/
theorem overridden_congr
    (h : layers'.filter (!SettingLayer.isFile ·) = layers.filter (!SettingLayer.isFile ·)) :
    doc.overridden layers' = doc.overridden layers := by
  have hoverride : ∀ layers : List SettingLayer,
      doc.overridden layers = doc.overridden (layers.filter (!SettingLayer.isFile ·)) := by
    intro layers
    rw [overridden, overridden, List.foldl_filter]
    congr 1
    funext overrides l
    cases l <;> rfl
  rw [hoverride layers, hoverride layers', h]

/-- Which settings are overridden does not depend on the files. -/
theorem OverridesSettings.congr (hover : doc.OverridesSettings layers)
    (h : layers'.filter (!SettingLayer.isFile ·) = layers.filter (!SettingLayer.isFile ·)) :
    doc.OverridesSettings layers' := by
  intro name v hl
  have hmem : .override name v ∈ layers'.filter (!SettingLayer.isFile ·) := List.mem_filter.2 ⟨hl, rfl⟩
  rw [h] at hmem
  exact hover name v (List.mem_filter.1 hmem).1

end Root

end ConfigLibrary.Documented

namespace Settings

/-! ## Tables in place -/

/-- Whether a value has tables where the built-in settings have tables. -/
def KeepsTables (v : SettingValue) : Prop :=
  ∀ path es, builtIn.at? path = some (.table es) → ∀ g ∈ given path v, ∃ es', g = some (.table es')

/-- Whether a value is a table. -/
def isTable : SettingValue → Bool
  | .table _ => true
  | _ => false

/-- Only tables are tables. -/
theorem any_isTable_iff {g : Option SettingValue} : g.any isTable = true ↔ ∃ es, g = some (.table es) := by
  rcases g with _ | (_ | _ | _ | _ | _ | _ | es) <;> simp [isTable]

/-- Whether a value has tables where the built-in settings have them can be seen from a few paths. -/
theorem keepsTables_of_tablePaths {v : SettingValue}
    (h : ∀ path ∈ tablePaths builtIn, ∀ g ∈ given path v, g.any isTable = true) : KeepsTables v :=
  fun path _ hpath g hg => any_isTable_iff.1 (h path (mem_tablePaths hpath) g hg)

/-- A value that is a table when its lists are emptied is a table. -/
theorem exists_eq_table_of_hollow {v : SettingValue} {es : List (String × SettingValue)}
    (h : v.hollow = .table es) : ∃ es', v = .table es' := by
  cases v with
  | table es' => exact ⟨es', rfl⟩
  | nothing => cases h
  | bool _ => cases h
  | integer _ => cases h
  | other _ _ _ => cases h
  | text _ => cases h
  | list _ => cases h

/-- Where the built-in settings have a table, the root has one. -/
theorem exists_at?_eq_table {root : SettingValue} {vs : List SettingValue} (hvs : ∀ v ∈ vs, KeepsTables v)
    (hroot : root.hollow = stack builtIn (vs.map hollow)) {path : List String}
    {es : List (String × SettingValue)} (hpath : builtIn.at? path = some (.table es)) :
    ∃ es', root.at? path = some (.table es') := by
  have hgiven : ∀ g ∈ (vs.map hollow).flatMap (given path), ∃ es, g = some (.table es) := by
    intro g hg
    rw [flatMap_given_hollow] at hg
    obtain ⟨old, hold, rfl⟩ := List.mem_map.1 hg
    obtain ⟨v, hv, hold⟩ := List.mem_flatMap.1 hold
    obtain ⟨es, rfl⟩ := hvs v hv path _ hpath old hold
    exact ⟨_, rfl⟩
  obtain ⟨es', hes'⟩ := exists_foldl_settle_eq_table hgiven es
  have hat : (root.at? path).map hollow = some (.table es') := by
    rw [← at?_hollow, hroot, at?_stack, hpath, hes']
  obtain ⟨v, hv, htable⟩ := Option.map_eq_some_iff.1 hat
  obtain ⟨es, rfl⟩ := exists_eq_table_of_hollow htable
  exact ⟨es, hv⟩

/-- A root over which values with these tables were set has all tables from which settings are read. -/
theorem hasSections_of_keepsTables {root : SettingValue} {vs : List SettingValue}
    (hvs : ∀ v ∈ vs, KeepsTables v) (hroot : root.hollow = stack builtIn (vs.map hollow)) :
    ∃ t, HasSections root t := by
  have hpath : ∀ path es, builtIn.at? path = some (.table es) → ∃ es', root.at? path = some (.table es') :=
    fun _ _ => exists_at?_eq_table hvs hroot
  obtain ⟨document, hdocument⟩ := hpath ["document"] _ rfl
  obtain ⟨anchors, hanchors⟩ := hpath ["anchors"] _ rfl
  obtain ⟨imports, himports⟩ := hpath ["imports"] _ rfl
  obtain ⟨output, houtput⟩ := hpath ["output"] _ rfl
  obtain ⟨sites, hsites⟩ := hpath ["biblio", "sites"] _ rfl
  exact ⟨⟨document, anchors, imports, output, sites⟩, ⟨hdocument, hanchors, himports, houtput, hsites⟩⟩

/-- No name of the root occurs twice. -/
theorem distinct_of_hollow {root : SettingValue} {vs : List SettingValue}
    (hroot : root.hollow = stack builtIn vs) : root.Distinct := by
  have hdistinct : root.hollow.Distinct :=
    hroot ▸ distinct_stack (distinct_overlay none builtIn (by simp)) vs
  intro path es hpath
  have hnames := hdistinct path (hollowEntries es) (by rw [at?_hollow, hpath]; rfl)
  rwa [hollowEntries_eq_map, List.map_map] at hnames

end Settings

end SpecDoc
