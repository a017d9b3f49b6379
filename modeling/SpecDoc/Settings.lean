import SpecDoc.Compile
import SpecDoc.Settings.Library

/-!
# Settings

The settings of a run come from layers, which a loader gives to the library of settings one after the
other: the built-in ones first, then files and single settings that are set by hand.

* `Loader.load` are the settings of all layers, with any library;
* `Settings.load` are the settings with the library of a run;
* `Settings.compileOptions` are the options of a run.
-/

namespace SpecDoc

/-- What is printed for a compiled document. -/
inductive OutputFormat where
  | outline
  | json
  | biblio
deriving DecidableEq

/-- The format of a name. -/
def OutputFormat.ofName? (name : String) : Option OutputFormat :=
  if name = "outline" then some .outline
  else if name = "json" then some .json
  else if name = "biblio" then some .biblio
  else none

/-- The settings of a run. That imports are resolved side by side shows in no result
(`Library.resolve_ofFiles_beside`). -/
structure Settings where
  requireTitle : Bool
  sectionPrefix : String
  minHashLength : Nat
  parallel : Bool
  format : OutputFormat
  sites : ExternalAnchors

/-- A layer of settings. -/
inductive SettingLayer where
  /-- A file, which must be there or may be missing. -/
  | file (path : String) (required : Bool)
  /-- A single setting. -/
  | override (key : String) (value : SettingValue)

namespace SettingValue

/-! ## Typed values -/

/-- The values of a record with fields of the given names: those of a table by name, those of a list by
position. -/
def fields? (names : List String) : SettingValue → Option (List (Option SettingValue))
  | .table entries => some (names.map fun name => entries.lookup name)
  | .list items => some ((List.range names.length).map fun i => items[i]?)
  | _ => none

/-- A text in the lower case of ASCII. -/
def lowerText (s : String) : String := String.ofList (s.toList.map Char.toLower)

/-- A value as a truth value; a few words and all integers stand for one. -/
def bool? : SettingValue → Option Bool
  | .bool b => some b
  | .integer n => some (n != 0)
  | .other truth _ _ => truth
  | .text s =>
    let s := lowerText s
    if s ∈ ["1", "true", "on", "yes"] then some true
    else if s ∈ ["0", "false", "off", "no"] then some false
    else none
  | _ => none

/-- A value as a number from zero to the greatest of 64 bits. -/
def nat? : SettingValue → Option Nat
  | .bool b => some (if b then 1 else 0)
  | .integer n => if 0 ≤ n then some n.toNat else none
  | .other _ number _ => number
  | .text s =>
    let word := lowerText s
    if word ∈ ["true", "on", "yes"] then some 1
    else if word ∈ ["false", "off", "no"] then some 0
    else
      let digits := match s.toList with
        | '+' :: r => r
        | cs => cs
      (Text.decimal? digits).bind fun n => if n < UInt64.size then some n else none
  | _ => none

/-- A value as a text. -/
def text? : SettingValue → Option String
  | .text s => some s
  | .bool b => some (if b then "true" else "false")
  | .integer n => some (toString n)
  | .other _ _ writing => writing
  | _ => none

/-- A value as the name of an output format, in any case; a table of one entry stands for its name. -/
def format? : SettingValue → Option OutputFormat
  | .text s => OutputFormat.ofName? (lowerText s)
  | .table [(name, _)] => OutputFormat.ofName? (lowerText name)
  | _ => none

/-- A value as a table of the values that `value?` reads. -/
def table? {α : Type} (value? : SettingValue → Option α) : SettingValue → Option (Table α)
  | .table entries =>
    (entries.mapM fun e => (value? e.2).map fun v => (e.1, v)).map Table.ofList
  | _ => none

end SettingValue

namespace Settings

/-! ## Reading the settings -/

/-- A value that must be there. -/
def need {α : Type} (key : String) (v : Option α) : Except SettingsError α :=
  match v with
  | some v => .ok v
  | none => .error (.badValue key)

/-- The anchors of other documents; there are none if nothing is said about them. -/
def sites? (biblio : Option SettingValue) : Option ExternalAnchors :=
  match biblio with
  | none => some Table.empty
  | some v =>
    match v.fields? ["sites"] with
    | some [some sites] => sites.table? (SettingValue.table? SettingValue.text?)
    | some [none] => some Table.empty
    | _ => none

/-- The value of the only field of a record, read by `value?`. -/
def single? {α : Type} (name : String) (value? : SettingValue → Option α)
    (v : Option SettingValue) : Option α :=
  match v.bind (SettingValue.fields? [name]) with
  | some [some v] => value? v
  | _ => none

/-- The settings that a value holds. -/
def ofValue (root : SettingValue) : Except SettingsError Settings := do
  let section? := fun name => root.entries.lookup name
  let anchors := (section? "anchors").bind (SettingValue.fields? ["section_prefix", "min_hash_length"])
  let (sectionPrefix, minHashLength) := match anchors with
    | some [p, l] => (p.bind SettingValue.text?, l.bind SettingValue.nat?)
    | _ => (none, none)
  return {
    requireTitle :=
      ← need "document.require_title" (single? "require_title" SettingValue.bool? (section? "document"))
    sectionPrefix := ← need "anchors.section_prefix" sectionPrefix
    minHashLength := ← need "anchors.min_hash_length" minHashLength
    parallel := ← need "imports.parallel" (single? "parallel" SettingValue.bool? (section? "imports"))
    format := ← need "output.format" (single? "format" SettingValue.format? (section? "output"))
    sites := ← need "biblio.sites" (sites? (section? "biblio")) }

/-- The options of a run with these settings. -/
def compileOptions (s : Settings) : CompileOptions :=
  ⟨⟨⟨s.sectionPrefix, s.minHashLength⟩, s.requireTitle⟩, s.sites, .never⟩

end Settings

namespace Loader

/-! ## Loaders -/

variable (c : ConfigLibrary)

/-- The loader that has only the built-in settings. -/
def start : c.Builder := c.addSource c.empty .builtIn

/-- Gives a layer to the library. -/
def add (b : c.Builder) : SettingLayer → Except SettingsError c.Builder
  | .file path required => .ok (c.addSource b (.file path required))
  | .override key value => c.setOverride b key value

/-- The settings of a loader. -/
def build (b : c.Builder) : Except SettingsError Settings := c.build b >>= Settings.ofValue

/-- The settings of all layers. -/
def load (layers : List SettingLayer) : Except SettingsError Settings :=
  layers.foldlM (add c) (start c) >>= build c

end Loader

/-- The settings of all layers with the library of a run. -/
def Settings.load (a : FileAccess) (layers : List SettingLayer) : Except SettingsError Settings :=
  Loader.load (.standard a) layers

end SpecDoc
