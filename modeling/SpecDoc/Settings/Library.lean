import SpecDoc.Import.Library
import SpecDoc.Settings.Toml

/-!
# The library of settings

Settings are read and put together by a library. It has builders, to which sources of settings are added, and single
settings that are set by hand; a builder builds one value from all of them.

* `ConfigLibrary` is what is used of such a library;
* `ConfigLibrary.standard` is the one of a run: it sets the sources in order, each of them over the ones before, and
  then the single settings over all of them.
-/

namespace SpecDoc

/-- A source of settings: the settings that are built in, or a file, which must be there or may be missing. -/
inductive SettingsSource where
  | builtIn
  | file (path : String) (required : Bool)

/-- Why there are no settings. -/
inductive SettingsError where
  /-- A name is no key. -/
  | badKey (key : String)
  /-- A file that must be there cannot be read. -/
  | unreadable (path : String)
  /-- A file is not well formed. -/
  | malformed (path : String)
  /-- A setting has no value that fits. -/
  | badValue (key : String)
deriving DecidableEq

/-- The error in words. -/
def SettingsError.message : SettingsError → String
  | .badKey key => "invalid key \"" ++ key ++ "\""
  | .unreadable path => "configuration file \"" ++ path ++ "\" not found"
  | .malformed path => "configuration file \"" ++ path ++ "\" is malformed"
  | .badValue key => "invalid or missing value for \"" ++ key ++ "\""

/-- What is used of a library that reads settings and puts them together. -/
structure ConfigLibrary where
  /-- What is known of the settings before they are built. -/
  Builder : Type
  /-- The builder that knows nothing. -/
  empty : Builder
  /-- Adds a source behind the others. -/
  addSource : Builder → SettingsSource → Builder
  /-- Sets the setting of a key by hand. -/
  setOverride : Builder → String → SettingValue → Except SettingsError Builder
  /-- Reads the sources and puts all settings together. -/
  build : Builder → Except SettingsError SettingValue

namespace Settings

/-- The built-in settings. -/
def builtIn : SettingValue :=
  .table
    [("document", .table [("require_title", .bool true)]),
      ("anchors", .table [("section_prefix", .text "sec-"), ("min_hash_length", .integer 5)]),
      ("imports", .table [("parallel", .bool true)]),
      ("output", .table [("format", .text "outline")]),
      ("biblio", .table [("sites", .table [])])]

/-! ## Sources -/

/-- The path with the extension of settings files behind it, if it ends in a name. -/
def withExtension? (path : String) : Option String :=
  let p := Path.ofString path
  match p.steps.getLast? with
  | some (.into name) =>
    some (Path.toString ⟨p.absolute, p.steps.dropLast ++ [.into (name ++ ".toml")]⟩)
  | _ => none

/-- The text of a settings file: the one at the path, or else the one with the extension behind it. -/
def fileText? (a : FileAccess) (path : String) : Option String :=
  if a.isFile path then (a.read path).toOption
  else (withExtension? path).bind fun p => (a.read p).toOption

/-- The entries of a source. A file that may be missing and is has none. -/
def entriesOf (a : FileAccess) : SettingsSource → Except SettingsError (List (String × SettingValue))
  | .builtIn => .ok builtIn.entries
  | .file path required =>
    match fileText? a path with
    | none => if required then .error (.unreadable path) else .ok []
    | some text =>
      match Toml.parse? text with
      | none => .error (.malformed path)
      | some entries => .ok entries

/-- Sets the entries of a source. A name at the top is a key, if it can be read as one. Of names that agree in lower
case the last counts here; nothing is documented about them. -/
def addEntries (root : SettingValue) (entries : List (String × SettingValue)) : SettingValue :=
  entries.foldl (fun root e =>
    ((SettingKey.parse? e.1).getD (.top (Text.lower e.1))).set root e.2) root

/-! ## Builders -/

/-- What the standard library registers before anything is built. No key is registered twice. -/
structure Registry where
  sources : List SettingsSource
  overrides : List (SettingKey × SettingValue)
  nodup_keys : (overrides.map Prod.fst).Nodup

namespace Registry

/-- The overrides with one more, which replaces the one of its key. -/
def override (overrides : List (SettingKey × SettingValue)) (key : SettingKey) (v : SettingValue) :
    List (SettingKey × SettingValue) :=
  overrides.filter (fun e => e.1 != key) ++ [(key, v)]

/-- No key is overridden twice. -/
theorem nodup_override {overrides : List (SettingKey × SettingValue)} (h : (overrides.map Prod.fst).Nodup)
    (key : SettingKey) (v : SettingValue) : ((override overrides key v).map Prod.fst).Nodup := by
  rw [override, List.map_append, List.map_cons, List.map_nil, List.nodup_append]
  refine ⟨h.sublist (List.filter_sublist.map _), by simp, ?_⟩
  intro k hk k' hk' heq
  obtain ⟨e, he, rfl⟩ := List.mem_map.1 hk
  rw [List.mem_filter] at he
  rw [heq, List.mem_singleton.1 hk'] at he
  simp at he

/-- Adds a source behind the others. -/
def addSource (r : Registry) (source : SettingsSource) : Registry :=
  { r with sources := r.sources ++ [source] }

/-- Sets the setting of a key by hand. -/
def setOverride (r : Registry) (name : String) (v : SettingValue) : Except SettingsError Registry :=
  match SettingKey.parse? name with
  | none => .error (.badKey name)
  | some key => .ok ⟨r.sources, override r.overrides key v, nodup_override r.nodup_keys key v⟩

/-- Sets the entries of the sources in order, and then the overrides. -/
def build (a : FileAccess) (r : Registry) : Except SettingsError SettingValue := do
  let root ← r.sources.foldlM (fun root source => (entriesOf a source).map (addEntries root)) (.table [])
  return r.overrides.foldl (fun root e => e.1.set root e.2) root

end Registry

end Settings

/-- The library of a run, which reads files in the given way. -/
def ConfigLibrary.standard (a : FileAccess) : ConfigLibrary where
  Builder := Settings.Registry
  empty := ⟨[], [], List.nodup_nil⟩
  addSource := Settings.Registry.addSource
  setOverride := Settings.Registry.setOverride
  build := Settings.Registry.build a

end SpecDoc
