import SpecDoc.Proofs.Biblio
import SpecDoc.Proofs.Settings.Library
import SpecDoc.Proofs.Table

/-!
# Settings that are read

The settings are read from tables at fixed places of the root. Each of them is read from a value of its own,
and a list, or a table with several entries, is read as none of them.

* `Setting` names the settings of one value, and `Setting.Holds` says from which value a setting is read;
* `Settings.ofValue_eq_ok_iff`: which settings are read from a root that has all tables;
* `Settings.suffix?_of_ofValue`: which anchors of other documents are read.
-/

namespace SpecDoc

/-- The settings of one value each. -/
inductive Setting where
  | requireTitle
  | sectionPrefix
  | minHashLength
  | parallel
  | format
deriving DecidableEq

namespace Setting

/-- The table that holds a setting. -/
def group : Setting → String
  | .requireTitle => "document"
  | .sectionPrefix => "anchors"
  | .minHashLength => "anchors"
  | .parallel => "imports"
  | .format => "output"

/-- The name of a setting in its table. -/
def name : Setting → String
  | .requireTitle => "require_title"
  | .sectionPrefix => "section_prefix"
  | .minHashLength => "min_hash_length"
  | .parallel => "parallel"
  | .format => "format"

/-- The path of a setting. -/
def path (x : Setting) : List String := [x.group, x.name]

/-- The key of a setting. -/
def key (x : Setting) : SettingKey := .child (.top x.group) x.name

/-- Whether a setting is what a value is read as. -/
def Holds (x : Setting) (s : Settings) (v : SettingValue) : Prop :=
  match x with
  | .requireTitle => v.bool? = some s.requireTitle
  | .sectionPrefix => v.text? = some s.sectionPrefix
  | .minHashLength => v.nat? = some s.minHashLength
  | .parallel => v.bool? = some s.parallel
  | .format => v.format? = some s.format

end Setting

namespace SettingValue

/-! ## Readers -/

/-- Only a table of a single name is read as an output format. -/
theorem readsNames_format (f : OutputFormat) : ReadsNames fun v => v.format? = some f := by
  intro es h
  match es, h with
  | [(name, w)], h => exact ⟨name, w, rfl, fun _ => h⟩
  | [], h => cases h
  | _ :: _ :: _, h => cases h

/-- No table is read as a text. -/
theorem readsNames_text (t : String) : ReadsNames fun v => v.text? = some t := by
  intro es h
  cases h

/-- To empty lists makes no difference to the name of a format. -/
theorem format?_hollow (v : SettingValue) : v.hollow.format? = v.format? := by
  cases v with
  | table es =>
      match es with
      | [] => rfl
      | [_] => rfl
      | _ :: _ :: _ => rfl
  | nothing => rfl
  | bool _ => rfl
  | integer _ => rfl
  | other _ _ _ => rfl
  | text _ => rfl
  | list _ => rfl

/-- To empty lists makes no difference to a text. -/
theorem text?_hollow (v : SettingValue) : v.hollow.text? = v.text? := by
  cases v <;> rfl

/-- To empty lists makes no difference to the texts at a path. -/
theorem map_text?_at?_hollow (v : SettingValue) (path : List String) :
    (v.hollow.at? path).map text? = (v.at? path).map text? := by
  rw [at?_hollow, Option.map_map]
  congr 1
  funext w
  exact text?_hollow w

/-- To empty lists makes no difference to a table of values to which it makes none. -/
theorem table?_hollow {α : Type} {value? : SettingValue → Option α} (h : ∀ v, value? v.hollow = value? v)
    (v : SettingValue) : v.hollow.table? value? = v.table? value? := by
  cases v with
  | table es =>
      have hentries : (hollowEntries es).mapM (fun e => (value? e.2).map fun x => (e.1, x))
          = es.mapM fun e => (value? e.2).map fun x => (e.1, x) := by
        induction es with
        | nil => rfl
        | cons e es ih => rw [hollowEntries, List.mapM_cons, List.mapM_cons, h, ih]
      rw [hollow, table?, table?, hentries]
  | nothing => rfl
  | bool _ => rfl
  | integer _ => rfl
  | other _ _ _ => rfl
  | text _ => rfl
  | list _ => rfl

/-- A value that is read as a text is the same on its own. -/
theorem text?_alone (v : SettingValue) : v.alone.text? = v.text? := by
  cases v with
  | table es =>
      cases es with
      | nil => rfl
      | cons e es =>
          obtain ⟨es', hes'⟩ := exists_overlayEntries_eq_table (.table []) e es
          rw [alone, overlay, Option.getD_none, hes']
          rfl
  | nothing => rfl
  | bool _ => rfl
  | integer _ => rfl
  | other _ _ _ => rfl
  | text _ => rfl
  | list _ => rfl

/-- A value that is read as a text replaces what was before it. -/
theorem overlay_of_text? {v : SettingValue} {t : String} (h : v.text? = some t) (old : Option SettingValue) :
    overlay old v = v := by
  cases v with
  | table es => cases h
  | nothing => rfl
  | bool _ => rfl
  | integer _ => rfl
  | other _ _ _ => rfl
  | text _ => rfl
  | list _ => rfl

/-- A table is read if all its values are. -/
theorem exists_table?_eq_some {α : Type} {value? : SettingValue → Option α}
    {es : List (String × SettingValue)} (h : ∀ e ∈ es, ∃ x, value? e.2 = some x) :
    ∃ t, (table es).table? value? = some t := by
  have hlist : ∃ l, es.mapM (fun e => (value? e.2).map fun v => (e.1, v)) = some l := by
    induction es with
    | nil => exact ⟨[], rfl⟩
    | cons e es ih =>
        obtain ⟨x, hx⟩ := h e List.mem_cons_self
        obtain ⟨l, hl⟩ := ih fun e he => h e (List.mem_cons_of_mem _ he)
        exact ⟨(e.1, x) :: l, by rw [List.mapM_cons, hx, hl]; rfl⟩
  obtain ⟨l, hl⟩ := hlist
  exact ⟨Table.ofList l, by rw [table?, hl, Option.map_some]⟩

/-- What is read as the anchors of other documents, from a tidy table of sites. -/
theorem suffix?_of_table? {es : List (String × SettingValue)} (hes : (table es).Distinct) {sites : ExternalAnchors}
    (h : (table es).table? (table? text?) = some sites) (site id : String) :
    ((table es).at? [site, id]).map text? = (sites.suffix? site id).map some := by
  have hsite := Table.map_lookup_of_mapM (hes [] es rfl) h site
  rw [at?, SettingValue.entries, ExternalAnchors.suffix?]
  cases hlookup : es.lookup site with
  | none =>
      rw [hlookup, Option.map_none] at hsite
      rw [Option.map_eq_none_iff.1 hsite.symm]
      rfl
  | some v =>
      rw [hlookup, Option.map_some] at hsite
      obtain ⟨anchors, hanchors, hread⟩ := Option.map_eq_some_iff.1 hsite.symm
      have hv : v.Distinct := hes.lookup hlookup
      rw [hanchors, Option.bind_some, Option.bind_some, at?_singleton]
      cases v with
      | table es => exact Table.map_lookup_of_mapM hv.nodup_entries hread.symm id
      | nothing => cases hread
      | bool _ => cases hread
      | integer _ => cases hread
      | other _ _ _ => cases hread
      | text _ => cases hread
      | list _ => cases hread

end SettingValue

namespace Setting

open SettingValue

/-- What is read as a setting is no table but that of a single name. -/
theorem readsNames_holds (x : Setting) (s : Settings) : ReadsNames (x.Holds s) := by
  cases x with
  | requireTitle => exact fun es h => by cases h
  | sectionPrefix => exact readsNames_text _
  | minHashLength => exact fun es h => by cases h
  | parallel => exact fun es h => by cases h
  | format => exact readsNames_format _

/-- To empty lists makes no difference to a setting. -/
theorem holds_hollow (x : Setting) (s : Settings) (v : SettingValue) : x.Holds s v.hollow ↔ x.Holds s v := by
  cases x with
  | requireTitle => cases v <;> exact Iff.rfl
  | sectionPrefix => cases v <;> exact Iff.rfl
  | minHashLength => cases v <;> exact Iff.rfl
  | parallel => cases v <;> exact Iff.rfl
  | format =>
      rw [Holds, format?_hollow]
      exact Iff.rfl

end Setting

namespace Settings

open SettingValue

/-! ## The root -/

/-- The tables in which settings are. -/
structure Sections where
  document : List (String × SettingValue)
  anchors : List (String × SettingValue)
  imports : List (String × SettingValue)
  output : List (String × SettingValue)
  sites : List (String × SettingValue)

/-- Whether the root has the tables `t` at their places. -/
structure HasSections (root : SettingValue) (t : Sections) : Prop where
  document : root.at? ["document"] = some (.table t.document)
  anchors : root.at? ["anchors"] = some (.table t.anchors)
  imports : root.at? ["imports"] = some (.table t.imports)
  output : root.at? ["output"] = some (.table t.output)
  sites : root.at? ["biblio", "sites"] = some (.table t.sites)

/-- A value that is needed must be there. -/
theorem need_bind_eq_ok {α β : Type} {key : String} {v : Option α} {f : α → Except SettingsError β}
    {r : β} : (need key v >>= f) = .ok r ↔ ∃ x, v = some x ∧ f x = .ok r := by
  cases v with
  | none => simp [need, bind, Except.bind]
  | some x => simp [need, bind, Except.bind]

/-- The only value of a record that is written as a table is the one of its name. -/
theorem single?_table {α : Type} (name : String) (value? : SettingValue → Option α)
    (es : List (String × SettingValue)) :
    single? name value? (some (.table es)) = (es.lookup name).bind value? := by
  simp only [single?, Option.bind_some, fields?, List.map_cons, List.map_nil]
  cases es.lookup name <;> rfl

/-- The anchors of other documents are read from the table of sites. -/
theorem sites?_of_at? {biblio : SettingValue} {es : List (String × SettingValue)}
    (h : biblio.at? ["sites"] = some (.table es)) :
    sites? (some biblio) = (table es).table? (table? text?) := by
  cases biblio with
  | table entries =>
      rw [at?_singleton, SettingValue.entries] at h
      simp only [sites?, fields?, List.map_cons, List.map_nil, h]
  | nothing => cases h
  | bool _ => cases h
  | integer _ => cases h
  | other _ _ _ => cases h
  | text _ => cases h
  | list _ => cases h

/-- The anchors of other documents are read from what is said about them. -/
theorem sites?_of_ofValue {root : SettingValue} {s : Settings} (h : ofValue root = .ok s) :
    sites? (root.entries.lookup "biblio") = some s.sites := by
  unfold ofValue at h
  simp only [need_bind_eq_ok] at h
  obtain ⟨_, -, _, -, _, -, _, -, _, -, _, hsites, hs⟩ := h
  cases hs
  exact hsites

/-- A root with all tables holds settings iff each of them is read from the value of its name. -/
theorem ofValue_eq_ok_iff {root : SettingValue} {t : Sections} (h : HasSections root t) {s : Settings} :
    ofValue root = .ok s ↔
      (t.document.lookup "require_title").bind bool? = some s.requireTitle ∧
      (t.anchors.lookup "section_prefix").bind text? = some s.sectionPrefix ∧
      (t.anchors.lookup "min_hash_length").bind nat? = some s.minHashLength ∧
      (t.imports.lookup "parallel").bind bool? = some s.parallel ∧
      (t.output.lookup "format").bind format? = some s.format ∧
      (table t.sites).table? (table? text?) = some s.sites := by
  obtain ⟨hdocument, hanchors, himports, houtput, hsites⟩ := h
  rw [at?_singleton] at hdocument hanchors himports houtput
  obtain ⟨biblio, hbiblio, hsites⟩ := Option.bind_eq_some_iff.1 hsites
  unfold ofValue
  simp only [hdocument, hanchors, himports, houtput, hbiblio, single?_table, sites?_of_at? hsites,
    Option.bind_some, fields?, List.map_cons, List.map_nil, need_bind_eq_ok]
  constructor
  · rintro ⟨_, htitle, _, hprefix, _, hlength, _, hparallel, _, hformat, _, htable, hs⟩
    cases hs
    exact ⟨htitle, hprefix, hlength, hparallel, hformat, htable⟩
  · rintro ⟨htitle, hprefix, hlength, hparallel, hformat, htable⟩
    exact ⟨_, htitle, _, hprefix, _, hlength, _, hparallel, _, hformat, _, htable, rfl⟩

/-- A value in a table of the root is at the path behind this table. -/
theorem at?_pair {root : SettingValue} {group name : String} {es : List (String × SettingValue)}
    (h : root.at? [group] = some (.table es)) : root.at? [group, name] = es.lookup name := by
  rw [show [group, name] = [group] ++ [name] by rfl, at?_append, h, Option.bind_some, at?_singleton]
  rfl

/-- The settings that are read are read from the values at their paths. -/
theorem ofValue_eq_ok_iff_holds {root : SettingValue} {t : Sections} (h : HasSections root t) {s : Settings} :
    ofValue root = .ok s ↔ (∀ x : Setting, ∃ v, root.at? x.path = some v ∧ x.Holds s v) ∧
      (table t.sites).table? (table? text?) = some s.sites := by
  rw [ofValue_eq_ok_iff h]
  simp only [← at?_pair h.document, ← at?_pair h.anchors, ← at?_pair h.imports, ← at?_pair h.output,
    Option.bind_eq_some_iff]
  constructor
  · rintro ⟨htitle, hprefix, hlength, hparallel, hformat, hsites⟩
    refine ⟨fun x => ?_, hsites⟩
    cases x with
    | requireTitle => exact htitle
    | sectionPrefix => exact hprefix
    | minHashLength => exact hlength
    | parallel => exact hparallel
    | format => exact hformat
  · rintro ⟨hholds, hsites⟩
    exact ⟨hholds .requireTitle, hholds .sectionPrefix, hholds .minHashLength, hholds .parallel, hholds .format,
      hsites⟩

/-- Roots with the same values at the paths of settings are read alike; lists in them do not matter. -/
theorem ofValue_eq_ok_of_at? {root root' : SettingValue} {t t' : Sections} (h : HasSections root t)
    (h' : HasSections root' t')
    (hsettings : ∀ x : Setting, (root'.at? x.path).map hollow = (root.at? x.path).map hollow)
    (hsites : (root'.at? ["biblio", "sites"]).map hollow = (root.at? ["biblio", "sites"]).map hollow)
    {s : Settings} (hs : ofValue root = .ok s) : ofValue root' = .ok s := by
  obtain ⟨hholds, htable⟩ := (ofValue_eq_ok_iff_holds h).1 hs
  refine (ofValue_eq_ok_iff_holds h').2 ⟨fun x => ?_, ?_⟩
  · obtain ⟨v, hv, hx⟩ := hholds x
    have hat := hsettings x
    rw [hv] at hat
    obtain ⟨v', hv', hhollow⟩ := Option.map_eq_some_iff.1 hat
    exact ⟨v', hv', (x.holds_hollow s v').1 (hhollow ▸ (x.holds_hollow s v).2 hx)⟩
  · rw [h.sites, h'.sites, Option.map_some, Option.map_some, Option.some_inj] at hsites
    have hread : ∀ v : SettingValue, v.hollow.table? (table? text?) = v.table? (table? text?) :=
      table?_hollow (table?_hollow text?_hollow)
    rw [← hread, hsites, hread, htable]

/-- A path behind the table of sites is followed from this table. -/
theorem at?_sites {root : SettingValue} {t : Sections} (h : HasSections root t) (path : List String) :
    root.at? ("biblio" :: "sites" :: path) = (table t.sites).at? path := by
  rw [show "biblio" :: "sites" :: path = ["biblio", "sites"] ++ path by rfl, at?_append, h.sites, Option.bind_some]

/-- Every site is read from the value at its path. -/
theorem contains_site_of_ofValue {root : SettingValue} {t : Sections} (h : HasSections root t)
    (hroot : root.Distinct) {s : Settings} (hs : ofValue root = .ok s) (site : String) :
    s.sites.contains site = (root.at? ["biblio", "sites", site]).isSome := by
  obtain ⟨-, -, -, -, -, htable⟩ := (ofValue_eq_ok_iff h).1 hs
  have hsite := congrArg Option.isSome (Table.map_lookup_of_mapM (hroot _ _ h.sites) htable site)
  rw [Option.isSome_map, Option.isSome_map] at hsite
  rw [at?_sites h, at?_singleton, SettingValue.entries, Table.contains, hsite]

/-- What follows a site in the URL of an anchor is read from the value at the path of the anchor. -/
theorem suffix?_of_ofValue {root : SettingValue} {t : Sections} (h : HasSections root t)
    (hroot : root.Distinct) {s : Settings} (hs : ofValue root = .ok s) (site id : String) :
    (root.at? ["biblio", "sites", site, id]).map text? = (s.sites.suffix? site id).map some := by
  obtain ⟨-, -, -, -, -, htable⟩ := (ofValue_eq_ok_iff h).1 hs
  rw [at?_sites h, suffix?_of_table? (hroot.at? h.sites) htable]

end Settings

end SpecDoc
