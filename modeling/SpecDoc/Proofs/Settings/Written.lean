import SpecDoc.Proofs.Settings.Layers
import SpecDoc.Proofs.Text.Lower

/-!
# Anchors of other documents in a settings file

A settings file may give the anchors of other documents in a table of sites. The names of its tables, and with them
the sites and the anchors, are put in lower case before anything is read from them.

* `Toml.sites?` are the anchors that a text writes, with their names as they stand there;
* `ExternalAnchors.IsLowered` says that anchors are other ones with their names in lower case;
* `Settings.isLowered_of_load`: the settings of a file hold the anchors that it writes in lower case;
* `Settings.exists_load_of_sites?`: the settings of a file that writes nothing else can be had.
-/

namespace SpecDoc

open SettingValue

namespace Toml

/-! ## What a file writes -/

/-- What the lines of a settings file make up, with the names as they are written. -/
def draft? (s : String) : Option Draft :=
  let cs := s.toList
  let cs := if cs.head? = some '\uFEFF' then cs.tail else cs
  (Text.closeLines (Text.cut (· == '\n') cs)).foldlM readLine? ⟨[], []⟩

/-- A file is read as what its lines make up, with names in lower case. -/
theorem parse?_eq_map_draft? (s : String) :
    parse? s = (draft? s).map fun d => d.entries.map fun e => (e.1, e.2.toValue) := rfl

namespace Item

/-- The text that an entry writes. -/
def text? : Item → Option String
  | .value v => v.text?
  | .table _ _ _ => none

/-- The table that an entry writes, with its names as they stand there; none may stand there twice. -/
def table? {α : Type} (value? : Item → Option α) : Item → Option (Table α)
  | .table _ _ es =>
    if (es.map Prod.fst).Nodup then
      (es.mapM fun e => (value? e.2).map fun x => (e.1, x)).map Table.ofList
    else none
  | .value _ => none

/-- The anchors of other documents that an entry writes. -/
def sites? (item : Item) : Option ExternalAnchors := item.table? (table? text?)

/-- What is found in a table is written by an entry of its name. -/
theorem exists_of_table? {α : Type} {value? : Item → Option α} {item : Item} {t : Table α}
    (h : item.table? value? = some t) :
    ∃ implied dotted es, item = .table implied dotted es ∧ (es.map Prod.fst).Nodup ∧
      ∀ name, (es.lookup name).map value? = (t.find? name).map some := by
  cases item with
  | value v => cases h
  | table implied dotted es =>
      rw [table?] at h
      split at h
      · next hnames => exact ⟨implied, dotted, es, rfl, hnames, Table.map_lookup_of_mapM hnames h⟩
      · cases h

/-- Every entry of a table writes what is found for its name. -/
theorem exists_find?_of_mem {α : Type} {value? : Item → Option α} {es : Entries} {t : Table α}
    (hnames : (es.map Prod.fst).Nodup) (ht : ∀ name, (es.lookup name).map value? = (t.find? name).map some)
    {e : String × Item} (he : e ∈ es) : ∃ x, t.find? e.1 = some x ∧ value? e.2 = some x := by
  have hlookup := ht e.1
  rw [Table.lookup_of_mem hnames he, Option.map_some] at hlookup
  obtain ⟨x, hx, hvalue⟩ := Option.map_eq_some_iff.1 hlookup.symm
  exact ⟨x, hx, hvalue.symm⟩

/-- What is found in a table is written by an entry. -/
theorem exists_mem_of_find? {α : Type} {value? : Item → Option α} {es : Entries} {t : Table α}
    (ht : ∀ name, (es.lookup name).map value? = (t.find? name).map some) {name : String} {x : α}
    (hx : t.find? name = some x) : ∃ item, (name, item) ∈ es ∧ value? item = some x := by
  have hlookup := ht name
  rw [hx, Option.map_some] at hlookup
  obtain ⟨item, hitem, hvalue⟩ := Option.map_eq_some_iff.1 hlookup
  obtain ⟨before, behind, rfl, -⟩ := List.lookup_eq_some_iff.1 hitem
  exact ⟨item, List.mem_append_right _ List.mem_cons_self, hvalue⟩

/-- An entry that writes a text is a value. -/
theorem exists_eq_value_of_text? {item : Item} {s : String} (h : item.text? = some s) :
    ∃ v, item = .value v ∧ v.text? = some s := by
  cases item with
  | value v => exact ⟨v, rfl, h⟩
  | table implied dotted es => cases h

end Item

/-- The entries of a file that are about anchors of other documents. -/
def biblioEntries (d : Draft) : Entries := d.entries.filter fun e => (Settings.keyOfName e.1).first == "biblio"

/-- The anchors of other documents that a settings file writes as a table of sites, and in no other way. -/
def sites? (s : String) : Option ExternalAnchors :=
  match (draft? s).map biblioEntries with
  | some [(biblio, .table _ _ [(sites, item)])] =>
    if biblio = "biblio" ∧ sites = "sites" then item.sites? else none
  | _ => none

/-- In a file that writes anchors of other documents, the only entry about the biblio is a table of sites. -/
theorem exists_of_sites? {s : String} {sites : ExternalAnchors} (h : sites? s = some sites) :
    ∃ (d : Draft) (item : Item), draft? s = some d ∧ item.sites? = some sites ∧
      (biblioEntries d).map (fun e => (e.1, e.2.toValue)) = [("biblio", .table [("sites", item.toValue)])] := by
  unfold sites? at h
  split at h
  · next biblio implied dotted name item hentries =>
      split at h
      · next hnames =>
          obtain ⟨rfl, rfl⟩ := hnames
          obtain ⟨d, hdraft, hd⟩ := Option.map_eq_some_iff.1 hentries
          refine ⟨d, item, hdraft, h, ?_⟩
          rw [hd]
          rfl
      · cases h
  · cases h

/-- A file whose only entry about the biblio is a table of sites gives to a path behind this table what the table
does. -/
theorem given_fileValue_of_biblioEntries {d : Draft} {item : Item}
    (h : (biblioEntries d).map (fun e => (e.1, e.2.toValue)) = [("biblio", .table [("sites", item.toValue)])])
    (path : List String) :
    given ("biblio" :: "sites" :: path) (Settings.fileValue (d.entries.map fun e => (e.1, e.2.toValue)))
      = given path item.toValue := by
  have hfilter : (d.entries.map fun e => (e.1, e.2.toValue)).filter
        (fun e => (Settings.keyOfName e.1).first == "biblio")
      = [("biblio", .table [("sites", item.toValue)])] := by
    rw [List.filter_map]
    exact h
  have hkey : Settings.keyOfName "biblio" = .top "biblio" := rfl
  rw [Settings.given_fileValue, hfilter, Settings.fileValue, List.flatMap_cons, hkey]
  simp [SettingKey.nest, entries, given]

/-! ## What is given by it -/

/-- What is given to a name by a table, in which names are in lower case. -/
theorem mem_given_toValue {implied dotted : Bool} {es : Entries} {name : String} {names : List String}
    {g : Option SettingValue} :
    g ∈ given (name :: names) (Item.table implied dotted es).toValue ↔
      ∃ e ∈ es, Text.lower e.1 = name ∧ g ∈ given names e.2.toValue := by
  rw [Item.toValue, given]
  induction es with
  | nil => simp [entryValues]
  | cons e es ih =>
      obtain ⟨n, item⟩ := e
      rw [entryValues, List.flatMap_cons, List.mem_append, ih]
      by_cases hn : Text.lower n = name <;> simp [hn]

/-- Only tables are given to a site. -/
theorem exists_eq_table_of_mem_given {item : Item} {sites : ExternalAnchors} (h : item.sites? = some sites)
    {site : String} {g : Option SettingValue} (hg : g ∈ given [site] item.toValue) :
    ∃ es, g = some (.table es) := by
  obtain ⟨implied, dotted, es, rfl, hnames, hsites⟩ := Item.exists_of_table? h
  obtain ⟨e, he, -, hvalue⟩ := mem_given_toValue.1 hg
  obtain ⟨anchors, -, hread⟩ := Item.exists_find?_of_mem hnames hsites he
  obtain ⟨implied', dotted', es', htable, -⟩ := Item.exists_of_table? hread
  rw [htable, given, List.mem_singleton] at hvalue
  exact ⟨_, hvalue⟩

/-- What is given to an anchor is written for an anchor whose names are these in lower case. -/
theorem exists_of_mem_given {item : Item} {sites : ExternalAnchors} (h : item.sites? = some sites)
    {site id : String} {g : Option SettingValue} (hg : g ∈ given [site, id] item.toValue) :
    ∃ v site' id' suffix, g = some v ∧ v.text? = some suffix ∧ sites.suffix? site' id' = some suffix ∧
      Text.lower site' = site ∧ Text.lower id' = id := by
  obtain ⟨implied, dotted, es, rfl, hnames, hsites⟩ := Item.exists_of_table? h
  obtain ⟨s, hs, rfl, hsite⟩ := mem_given_toValue.1 hg
  obtain ⟨anchors, hanchors, hread⟩ := Item.exists_find?_of_mem hnames hsites hs
  obtain ⟨implied', dotted', es', htable, hnames', hanchors'⟩ := Item.exists_of_table? hread
  rw [htable] at hsite
  obtain ⟨e, he, rfl, hvalue⟩ := mem_given_toValue.1 hsite
  obtain ⟨suffix, hsuffix, hread'⟩ := Item.exists_find?_of_mem hnames' hanchors' he
  obtain ⟨v, hv, htext⟩ := Item.exists_eq_value_of_text? hread'
  rw [hv, Item.toValue, given, List.mem_singleton] at hvalue
  refine ⟨v, s.1, e.1, suffix, hvalue, htext, ?_, rfl, rfl⟩
  rw [ExternalAnchors.suffix?, hanchors, Option.bind_some, hsuffix]

/-- Something is given to every anchor that is written, under its names in lower case. -/
theorem given_ne_nil_of_suffix? {item : Item} {sites : ExternalAnchors} (h : item.sites? = some sites)
    {site id suffix : String} (hsuffix : sites.suffix? site id = some suffix) :
    given [Text.lower site, Text.lower id] item.toValue ≠ [] := by
  obtain ⟨implied, dotted, es, rfl, -, hsites⟩ := Item.exists_of_table? h
  obtain ⟨anchors, hanchors, hfound⟩ := Option.bind_eq_some_iff.1 hsuffix
  obtain ⟨table, hs, hread⟩ := Item.exists_mem_of_find? hsites hanchors
  obtain ⟨implied', dotted', es', rfl, -, hanchors'⟩ := Item.exists_of_table? hread
  obtain ⟨value, he, -⟩ := Item.exists_mem_of_find? hanchors' hfound
  have hsite : some value.toValue ∈ given [Text.lower id] (Item.table implied' dotted' es').toValue :=
    mem_given_toValue.2 ⟨_, he, rfl, List.mem_singleton_self _⟩
  exact List.ne_nil_of_mem (mem_given_toValue.2 ⟨_, hs, rfl, hsite⟩)

end Toml

/-! ## Names in lower case -/

/-- Whether anchors are other ones with their names in lower case. Of several anchors with the same names in lower
case one remains. -/
structure ExternalAnchors.IsLowered (sites lowered : ExternalAnchors) : Prop where
  /-- Every anchor is one of the others. -/
  sound : ∀ site id suffix, lowered.suffix? site id = some suffix →
    ∃ site' id', sites.suffix? site' id' = some suffix ∧ Text.lower site' = site ∧ Text.lower id' = id
  /-- Every anchor of the others is there under its names in lower case. -/
  complete : ∀ site id suffix, sites.suffix? site id = some suffix →
    (lowered.suffix? (Text.lower site) (Text.lower id)).isSome = true

namespace Settings

open Toml

/-- What is at an anchor in the end is written for an anchor whose names are these in lower case. -/
theorem exists_of_at?_alone {item : Item} {sites : ExternalAnchors} (h : item.sites? = some sites)
    {site id : String} {r : SettingValue} (hr : item.toValue.alone.at? [site, id] = some r) :
    ∃ site' id' suffix, r.text? = some suffix ∧ sites.suffix? site' id' = some suffix ∧
      Text.lower site' = site ∧ Text.lower id' = id := by
  rw [alone, at?_overlay] at hr
  obtain ⟨old, w, hw, rfl⟩ := exists_mem_of_foldl_settle hr
  obtain ⟨v, site', id', suffix, hv, htext, hsuffix, hsite, hid⟩ := exists_of_mem_given h hw
  obtain rfl : w = v := Option.some.inj hv
  rw [overlay_of_text? htext]
  exact ⟨site', id', suffix, htext, hsuffix, hsite, hid⟩

/-- Something is there in the end for every anchor that is written. -/
theorem isSome_at?_alone {item : Item} {sites : ExternalAnchors} (h : item.sites? = some sites)
    {site id suffix : String} (hsuffix : sites.suffix? site id = some suffix) :
    (item.toValue.alone.at? [Text.lower site, Text.lower id]).isSome = true := by
  have hsome : ∀ g ∈ given [Text.lower site, Text.lower id] item.toValue, g.isSome = true := by
    intro g hg
    obtain ⟨v, -, -, -, rfl, -⟩ := exists_of_mem_given h hg
    rfl
  rw [alone, at?_overlay]
  exact (isSome_foldl_settle hsome _).2 (.inr (given_ne_nil_of_suffix? h hsuffix))

/-- What is read from there are the anchors with their names in lower case. -/
theorem isLowered_of_at?_alone {item : Item} {sites lowered : ExternalAnchors} (h : item.sites? = some sites)
    (hread : ∀ site id,
      (item.toValue.alone.at? [site, id]).map SettingValue.text? = (lowered.suffix? site id).map some) :
    sites.IsLowered lowered where
  sound site id suffix hsuffix := by
    have hat := hread site id
    rw [hsuffix] at hat
    obtain ⟨r, hr, htext⟩ := Option.map_eq_some_iff.1 hat
    obtain ⟨site', id', suffix', htext', hwritten, hsite, hid⟩ := exists_of_at?_alone h hr
    obtain rfl : suffix' = suffix := Option.some.inj (htext'.symm.trans htext)
    exact ⟨site', id', hwritten, hsite, hid⟩
  complete site id suffix hsuffix := by
    have hat := congrArg Option.isSome (hread (Text.lower site) (Text.lower id))
    rw [Option.isSome_map, Option.isSome_map] at hat
    rw [← hat]
    exact isSome_at?_alone h hsuffix

/-- The table of sites is read. -/
theorem exists_table?_of_sites? {item : Item} {sites : ExternalAnchors} (h : item.sites? = some sites) :
    ∃ es lowered, item.toValue.alone = .table es ∧ (table es).table? (table? text?) = some lowered := by
  have htable : ∃ es, item.toValue.alone = .table es := by
    obtain ⟨implied, dotted, es, rfl, -⟩ := Item.exists_of_table? h
    exact exists_overlay_eq_table (fun _ ho => by cases ho) (entryValues es)
  obtain ⟨es, hes⟩ := htable
  have hdistinct : (table es).Distinct := hes ▸ distinct_overlay none item.toValue fun _ ho => by cases ho
  have hread : ∀ e ∈ es, ∃ anchors, e.2.table? text? = some anchors := by
    intro e he
    have hlookup : es.lookup e.1 = some e.2 := Table.lookup_of_mem hdistinct.nodup_entries he
    have hat : item.toValue.alone.at? [e.1] = some e.2 := by rw [hes, at?_singleton, entries, hlookup]
    rw [alone, at?_overlay] at hat
    obtain ⟨anchors, hanchors⟩ :=
      exists_eq_table_of_foldl_settle (fun g hg => exists_eq_table_of_mem_given h hg) hat
    have hinner : (table anchors).Distinct := hanchors ▸ hdistinct.lookup hlookup
    rw [hanchors]
    refine exists_table?_eq_some fun d hd => ?_
    have hanchor : item.toValue.alone.at? [e.1, d.1] = some d.2 := by
      rw [hes, at?, entries, hlookup, Option.bind_some, hanchors, at?_singleton]
      exact Table.lookup_of_mem hinner.nodup_entries hd
    obtain ⟨-, -, suffix, htext, -⟩ := exists_of_at?_alone h hanchor
    exact ⟨suffix, htext⟩
  obtain ⟨lowered, hlowered⟩ := exists_table?_eq_some hread
  exact ⟨es, lowered, hes, hlowered⟩

/-- The entries of a file that can be read and is well formed. -/
theorem entriesOf_file {a : FileAccess} {path text : String} {entries : List (String × SettingValue)}
    (hread : a.read path = .ok text) (hparse : Toml.parse? text = some entries) (required : Bool) :
    entriesOf a (.file path required) = .ok entries := by
  have htext : fileText? a path = some text := by
    rw [fileText?, FileAccess.isFile, hread]
    rfl
  simp only [entriesOf, htext, hparse]

/-- The settings of a file that writes anchors of other documents and nothing else can be had. -/
theorem exists_load_of_sites? {a : FileAccess} {path text : String} (hpath : a.read path = .ok text)
    {sites : ExternalAnchors} (h : Toml.sites? text = some sites)
    (honly : (draft? text).map biblioEntries = (draft? text).map Draft.entries) (required : Bool) :
    ∃ s, load a [.file path required] = .ok s := by
  obtain ⟨d, item, hdraft, hsites, hbiblio⟩ := exists_of_sites? h
  obtain ⟨es, lowered, halone, hread⟩ := exists_table?_of_sites? hsites
  rw [hdraft] at honly
  have hparse : Toml.parse? text = some [("biblio", .table [("sites", item.toValue)])] := by
    rw [parse?_eq_map_draft?, hdraft, Option.map_some, ← Option.some.inj honly, hbiblio]
  -- The table of sites is empty at first, so what is written stands there on its own.
  have hroot : addEntries builtIn [("biblio", .table [("sites", item.toValue)])]
      = .table (builtIn.entries.dropLast ++ [("biblio", .table [("sites", item.toValue.alone)])]) := by
    have hkey : keyOfName "biblio" = .top "biblio" := rfl
    rw [addEntries_cons, hkey]
    obtain ⟨implied, dotted, written, rfl, -⟩ := Item.exists_of_table? hsites
    rfl
  have hsections : HasSections (addEntries builtIn [("biblio", .table [("sites", item.toValue)])])
      ⟨[("require_title", .bool true)], [("section_prefix", .text "sec-"), ("min_hash_length", .integer 5)],
        [("parallel", .bool true)], [("format", .text "outline")], es⟩ := by
    rw [hroot, halone]
    exact ⟨rfl, rfl, rfl, rfl, rfl⟩
  have hvalue := (ofValue_eq_ok_iff hsections (s := ⟨true, "sec-", 5, true, .outline, lowered⟩)).2
    ⟨rfl, rfl, rfl, rfl, rfl, hread⟩
  refine ⟨⟨true, "sec-", 5, true, .outline, lowered⟩, ?_⟩
  have hbuild : Registry.build a ⟨[.builtIn, .file path required], [], List.nodup_nil⟩
      = .ok (addEntries builtIn [("biblio", .table [("sites", item.toValue)])]) := by
    unfold Registry.build
    simp only [List.foldlM_cons, List.foldlM_nil, entriesOf_file hpath hparse]
    rfl
  show (Registry.build a ⟨[.builtIn, .file path required], [], List.nodup_nil⟩ >>= ofValue) = _
  rw [hbuild]
  exact hvalue

/-- The value of the sites is the one that a file gives to them, on its own: nothing is there before. -/
theorem hollow_at?_sites {root : SettingValue} {item : Item} {sites : ExternalAnchors} {file : SettingValue}
    (h : item.sites? = some sites) (hroot : root.hollow = stack builtIn [file.hollow])
    (hfile : ∀ path, given ("biblio" :: "sites" :: path) file = given path item.toValue) :
    (root.at? ["biblio", "sites"]).map hollow = some item.toValue.alone.hollow := by
  have hgiven : given ["biblio", "sites"] file.hollow = [some item.toValue.hollow] := by
    rw [given_hollow, hfile, given, List.map_singleton, Option.map_some]
  rw [← at?_hollow, hroot, at?_stack, List.flatMap_singleton, hgiven, alone, hollow_overlay]
  obtain ⟨implied, dotted, es, rfl, -⟩ := Item.exists_of_table? h
  rfl

/-- **Anchors in a settings file.** If the settings of a file that writes anchors of other documents can be had, they
hold these anchors with their names in lower case. -/
theorem isLowered_of_load {a : FileAccess} {path text : String} (hpath : a.read path = .ok text)
    {sites : ExternalAnchors} (h : Toml.sites? text = some sites) {required : Bool} {s : Settings}
    (hload : load a [.file path required] = .ok s) : sites.IsLowered s.sites := by
  obtain ⟨d, item, hdraft, hsites, hbiblio⟩ := exists_of_sites? h
  let doc := ConfigLibrary.documented_standard a
  have hover : doc.OverridesSettings [.file path required] := by
    intro name v hl
    cases List.mem_singleton.1 hl
  obtain ⟨root, order, hs, horder, hroot⟩ := ConfigLibrary.Documented.exists_root_of_load hover hload
  have horder_nil : order = [] := by
    refine List.eq_nil_iff_forall_not_mem.2 fun e he => ?_
    cases (horder.mem_iff e.1 e.2).1 he
  have hfiles : doc.files [.file path required] = [fileValue (d.entries.map fun e => (e.1, e.2.toValue))] := by
    have hparse : Toml.parse? text = some (d.entries.map fun e => (e.1, e.2.toValue)) := by
      rw [parse?_eq_map_draft?, hdraft, Option.map_some]
    have hcollect : doc.collect (.file path required)
        = .ok (fileValue (d.entries.map fun e => (e.1, e.2.toValue))) := by
      show (entriesOf a (.file path required)).map fileValue = _
      rw [entriesOf_file hpath hparse]
      rfl
    simp only [ConfigLibrary.Documented.files, List.filterMap_cons, List.filterMap_nil, SettingLayer.source?,
      hcollect]
    rfl
  rw [horder_nil, List.map_nil, List.append_nil] at hroot
  rw [hfiles] at hroot
  obtain ⟨v, hv, hhollow⟩ := Option.map_eq_some_iff.1
    (hollow_at?_sites hsites hroot (given_fileValue_of_biblioEntries hbiblio))
  have htable : ∃ written, v = .table written := by
    obtain ⟨implied, dotted, entries, rfl, -⟩ := Item.exists_of_table? hsites
    obtain ⟨written, hwritten⟩ := @exists_overlay_eq_table none (fun _ ho => by cases ho) (entryValues entries)
    exact exists_eq_table_of_hollow (hhollow.trans (congrArg hollow hwritten))
  obtain ⟨written, rfl⟩ := htable
  have hread : (table written).table? (table? text?) = some s.sites := by
    obtain ⟨biblio, hbiblio, hat⟩ := Option.bind_eq_some_iff.1 hv
    rw [← sites?_of_at? hat, ← hbiblio]
    exact sites?_of_ofValue hs
  have hdistinct : (table written).Distinct := (distinct_of_hollow hroot).at? hv
  refine isLowered_of_at?_alone hsites fun site id => ?_
  rw [← suffix?_of_table? hdistinct hread, ← map_text?_at?_hollow, ← hhollow, map_text?_at?_hollow]

end Settings

end SpecDoc
