import SpecDoc.Proofs.Settings.Overlay
import SpecDoc.Settings

/-!
# What a key sets

To set what a key names is to set a value of nested tables over the root. A position makes a list of what is
before it, and the items of a list are never read as settings, so they are left out here: `hollow` empties all
lists.

* `SettingKey.nest` is the value of nested tables;
* `SettingKey.hollow_set`: what becomes of the root when the value of a key is set;
* `Settings.hollow_addEntries`: what becomes of it when the entries of a file are set.
-/

namespace SpecDoc

namespace SettingValue

/-! ## Values with empty lists -/

mutual

/-- The value with all its lists emptied. -/
def hollow : SettingValue → SettingValue
  | .list _ => .list []
  | .table entries => .table (hollowEntries entries)
  | v => v

/-- The entries of a table with all their lists emptied. -/
def hollowEntries : List (String × SettingValue) → List (String × SettingValue)
  | [] => []
  | (name, v) :: es => (name, v.hollow) :: hollowEntries es

end

/-- Every value of a table is emptied by itself. -/
theorem hollowEntries_eq_map (es : List (String × SettingValue)) :
    hollowEntries es = es.map fun e => (e.1, e.2.hollow) := by
  induction es with
  | nil => rfl
  | cons e es ih => rw [hollowEntries, ih, List.map_cons]

/-- The entries of an emptied value are those of the value, emptied. -/
theorem entries_hollow (v : SettingValue) : v.hollow.entries = hollowEntries v.entries := by
  cases v <;> rfl

/-- The value of a name in an emptied table is the emptied one. -/
theorem lookup_hollowEntries (es : List (String × SettingValue)) (name : String) :
    (hollowEntries es).lookup name = (es.lookup name).map hollow := by
  induction es with
  | nil => rfl
  | cons e es ih =>
      rw [hollowEntries, Table.lookup_cons_eq_ite, Table.lookup_cons_eq_ite, ih]
      by_cases h : name = e.1
      · rw [if_pos h, if_pos h, Option.map_some]
      · rw [if_neg h, if_neg h]

/-- The value at a path of an emptied value is the emptied one. -/
theorem at?_hollow (v : SettingValue) (path : List String) :
    v.hollow.at? path = (v.at? path).map hollow := by
  induction path generalizing v with
  | nil => rfl
  | cons name names ih =>
      rw [at?, at?, entries_hollow, lookup_hollowEntries, Option.bind_map, Option.map_bind]
      refine Option.bind_congr fun w _ => ?_
      exact ih w

/-- A change whose values are emptied. -/
theorem hollowEntries_alter {name : String} {f : Option SettingValue → SettingValue}
    (g : Option SettingValue → SettingValue) (h : ∀ old, (f old).hollow = g (old.map hollow))
    (es : List (String × SettingValue)) :
    hollowEntries (alter name f es) = alter name g (hollowEntries es) := by
  induction es with
  | nil => rw [alter, hollowEntries, hollowEntries, hollowEntries, h, Option.map_none, alter]
  | cons e es ih =>
      obtain ⟨n, v⟩ := e
      rw [alter, hollowEntries, alter]
      by_cases hn : n = name
      · rw [if_pos hn, if_pos hn, hollowEntries, h, Option.map_some]
      · rw [if_neg hn, if_neg hn, hollowEntries, ih]

mutual

/-- To empty lists makes no difference to what is set over what. -/
theorem hollow_overlay (old : Option SettingValue) (v : SettingValue) :
    (overlay old v).hollow = overlay (old.map hollow) v.hollow := by
  cases v with
  | table es =>
      rw [overlay, hollow, overlay, hollow_overlayEntries]
      cases old <;> rfl
  | nothing => rfl
  | bool _ => rfl
  | integer _ => rfl
  | other _ _ _ => rfl
  | text _ => rfl
  | list _ => rfl

/-- To empty lists makes no difference to what becomes of a value when entries are set in it. -/
theorem hollow_overlayEntries (root : SettingValue) (es : List (String × SettingValue)) :
    (overlayEntries root es).hollow = overlayEntries root.hollow (hollowEntries es) := by
  cases es with
  | nil => rfl
  | cons e es =>
      obtain ⟨n, v⟩ := e
      rw [overlayEntries, hollow_overlayEntries, hollow,
        hollowEntries_alter (overlay · v.hollow) (fun old => hollow_overlay old v), hollowEntries,
        overlayEntries, entries_hollow]

end

/-- Entries may be set in two parts, one after the other. -/
theorem overlayEntries_append (root : SettingValue) (es es' : List (String × SettingValue)) :
    overlayEntries root (es ++ es') = overlayEntries (overlayEntries root es) es' := by
  induction es generalizing root with
  | nil => rfl
  | cons e es ih => exact ih _

/-! ## What is given and said -/

/-- What is given to a path by an emptied value. -/
theorem given_hollow (path : List String) (v : SettingValue) :
    given path v.hollow = (given path v).map (Option.map hollow) := by
  induction path generalizing v with
  | nil => rfl
  | cons name names ih =>
      cases v with
      | table es =>
          rw [hollow, given, given, hollowEntries_eq_map, List.flatMap_map, List.map_flatMap]
          refine List.flatMap_congr fun e _ => ?_
          by_cases he : e.1 = name
          · rw [if_pos he, if_pos he, ih]
          · rw [if_neg he, if_neg he, List.map_nil]
      | nothing => rfl
      | bool _ => rfl
      | integer _ => rfl
      | other _ _ _ => rfl
      | text _ => rfl
      | list _ => rfl

/-- An emptied value says something where the value does. -/
theorem isSaid_map_hollow (g : Option SettingValue) : isSaid (g.map hollow) = isSaid g := by
  rcases g with _ | v
  · rfl
  · cases v with
    | table es => cases es <;> rfl
    | nothing => rfl
    | bool _ => rfl
    | integer _ => rfl
    | other _ _ _ => rfl
    | text _ => rfl
    | list _ => rfl

/-- What is given to a path by several emptied values. -/
theorem flatMap_given_hollow (path : List String) (vs : List SettingValue) :
    (vs.map hollow).flatMap (given path) = (vs.flatMap (given path)).map (Option.map hollow) := by
  rw [List.flatMap_map, List.map_flatMap]
  exact List.flatMap_congr fun v _ => given_hollow path v

/-- What is said last by emptied values. -/
theorem lastSaid_hollow (path : List String) (vs : List SettingValue) :
    lastSaid path (vs.map hollow) = (lastSaid path vs).map (Option.map hollow) := by
  rw [← getLast?_flatMap_given, ← getLast?_flatMap_given, flatMap_given_hollow, ← List.getLast?_map,
    List.filter_map]
  congr 3
  funext g
  exact isSaid_map_hollow g

end SettingValue

namespace SettingKey

open SettingValue

/-! ## Keys -/

/-- The nested tables in which a key names a value. A position makes a list of what is before it. -/
def nest : SettingKey → SettingValue → SettingValue
  | .top name, v => .table [(name, v)]
  | .child key name, v => key.nest (.table [(name, v)])
  | .item key _, _ => key.nest (.list [])

/-- The outermost value is a table. -/
theorem nest_eq_table (key : SettingKey) (v : SettingValue) : key.nest v = .table (key.nest v).entries := by
  induction key generalizing v with
  | top name => rfl
  | child key name ih => exact ih _
  | item key position ih => exact ih _

/-- The first name of a key. -/
def first : SettingKey → String
  | .top name => name
  | .child key _ => key.first
  | .item key _ => key.first

/-- The outermost table has one entry, of the first name. -/
theorem exists_entries_nest (key : SettingKey) (v : SettingValue) :
    ∃ w, (key.nest v).entries = [(key.first, w)] := by
  induction key generalizing v with
  | top name => exact ⟨v, rfl⟩
  | child key name ih => exact ih _
  | item key position ih => exact ih _

/-- To change a name of a table is to set a table of this name over it, if the change is to set a value. -/
theorem hollow_table_alter {f : Option SettingValue → SettingValue} {w : SettingValue}
    (hf : ∀ old, (f old).hollow = overlay (old.map hollow) w.hollow) (name : String) (v : SettingValue) :
    (table (SettingValue.alter name f v.entries)).hollow
      = overlay (some v.hollow) (table [(name, w)]).hollow := by
  rw [hollow, hollowEntries_alter (overlay · w.hollow) hf, hollow, hollowEntries, hollowEntries, overlay,
    overlayEntries, overlayEntries, Option.getD_some, entries_hollow]

/-- What becomes of the root when the value that a key names is changed, if the change is to set a value. -/
theorem hollow_alter {g : SettingValue → SettingValue} {w : SettingValue}
    (hg : ∀ old : Option SettingValue, (g (old.getD .nothing)).hollow = overlay (old.map hollow) w.hollow)
    (key : SettingKey) (root : SettingValue) :
    (key.alter g root).hollow = overlay (some root.hollow) (key.nest w).hollow := by
  induction key generalizing g w root with
  | top name => exact hollow_table_alter hg name root
  | child key name ih =>
      refine ih (fun old => ?_) root
      rw [hollow_table_alter hg]
      cases old <;> rfl
  | item key position ih => exact ih (fun old => by cases old <;> rfl) root

/-- **What a key sets.** To set the value that a key names is to set the nested tables over the root. -/
theorem hollow_set (key : SettingKey) (root v : SettingValue) :
    (key.set root v).hollow = overlay (some root.hollow) (key.nest v).hollow := by
  have hname : ∀ (name : String) (parent : SettingValue),
      (setName parent name v).hollow = overlay (some parent.hollow) (table [(name, v)]).hollow :=
    hollow_table_alter fun old => hollow_overlay old v
  cases key with
  | top name => exact hname name root
  | child key name =>
      refine hollow_alter (fun old => ?_) key root
      rw [hname]
      cases old <;> rfl
  | item key position => exact hollow_alter (fun old => by cases old <;> rfl) key root

end SettingKey

namespace Settings

open SettingValue

/-! ## Entries of a file -/

/-- The key of a name at the top of a file. -/
def keyOfName (name : String) : SettingKey := (SettingKey.parse? name).getD (.top (Text.lower name))

/-- The entries of a file are set one after the other. -/
theorem addEntries_cons (root : SettingValue) (e : String × SettingValue) (es : List (String × SettingValue)) :
    addEntries root (e :: es) = addEntries ((keyOfName e.1).set root e.2) es := rfl

/-- The entries of a file as one table, in which names may occur several times. -/
def fileValue (entries : List (String × SettingValue)) : SettingValue :=
  .table (entries.flatMap fun e => ((keyOfName e.1).nest e.2).entries)

/-- What a file gives to a path is given by the entries whose keys start as the path does. -/
theorem given_fileValue (name : String) (names : List String) (es : List (String × SettingValue)) :
    given (name :: names) (fileValue es)
      = given (name :: names) (fileValue (es.filter fun e => (keyOfName e.1).first == name)) := by
  rw [fileValue, fileValue, given, given]
  induction es with
  | nil => rfl
  | cons e es ih =>
      obtain ⟨w, hw⟩ := (keyOfName e.1).exists_entries_nest e.2
      rw [List.flatMap_cons, List.flatMap_append, ih]
      by_cases hfirst : (keyOfName e.1).first = name
      · rw [List.filter_cons, if_pos (beq_iff_eq.2 hfirst), List.flatMap_cons, List.flatMap_append]
      · rw [List.filter_cons, if_neg (fun h => hfirst (beq_iff_eq.1 h)), hw, List.flatMap_cons, if_neg hfirst]
        rfl

/-- To set the entries of a file is to set this table over the root. -/
theorem hollow_addEntries (root : SettingValue) (entries : List (String × SettingValue)) :
    (addEntries root entries).hollow = overlay (some root.hollow) (fileValue entries).hollow := by
  rw [fileValue, hollow, overlay, Option.getD_some]
  induction entries generalizing root with
  | nil => rfl
  | cons e entries ih =>
      have hset := (keyOfName e.1).hollow_set root e.2
      rw [SettingKey.nest_eq_table, hollow, overlay, Option.getD_some] at hset
      rw [addEntries_cons, ih, List.flatMap_cons, hollowEntries_eq_map, hollowEntries_eq_map, List.map_append,
        overlayEntries_append, ← hollowEntries_eq_map, ← hollowEntries_eq_map, hset]

end Settings

end SpecDoc
