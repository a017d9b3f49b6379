import Mathlib.Logic.Function.Basic
import SpecDoc.Proofs.Settings.Keys

/-!
# What is documented of a library of settings

A builder registers sources in the order in which they are added, and overrides by their keys. Nothing is read before
the value is built. Then the sources are set in their order, table by table, and the overrides behind them, in an
order that is not known. Nor is it known in which order a source gives its entries.

* `ConfigLibrary.Documented` says so of a library;
* `ConfigLibrary.documented_standard`: it is true of the library of a run.
-/

namespace SpecDoc

open SettingValue Settings

/-- Whether a list has the overrides of a map, each of them once. -/
structure ListsOverrides (order : List (SettingKey × SettingValue)) (overrides : SettingKey → Option SettingValue) :
    Prop where
  nodup_keys : (order.map Prod.fst).Nodup
  mem_iff : ∀ key v, (key, v) ∈ order ↔ overrides key = some v

/-- A list of overrides has one entry for a key that is overridden, and none for another. -/
theorem ListsOverrides.flatMap_eq {order : List (SettingKey × SettingValue)}
    {overrides : SettingKey → Option SettingValue} (h : ListsOverrides order overrides) (key : SettingKey) :
    (order.flatMap fun e => if e.1 = key then [some e.2] else []) = ((overrides key).map some).toList := by
  have hnil : ∀ es : List (SettingKey × SettingValue), key ∉ es.map Prod.fst →
      (es.flatMap fun e => if e.1 = key then [some e.2] else []) = [] := by
    intro es hes
    refine List.flatMap_eq_nil_iff.2 fun e he => if_neg ?_
    rintro rfl
    exact hes (List.mem_map_of_mem he)
  cases hkey : overrides key with
  | none =>
      refine hnil order fun hmem => ?_
      obtain ⟨e, he, rfl⟩ := List.mem_map.1 hmem
      rw [(h.mem_iff e.1 e.2).1 he] at hkey
      cases hkey
  | some v =>
      obtain ⟨before, behind, hsplit⟩ := List.append_of_mem ((h.mem_iff key v).2 hkey)
      have hnodup := h.nodup_keys
      rw [hsplit, List.map_append, List.map_cons, List.nodup_append, List.nodup_cons] at hnodup
      obtain ⟨-, ⟨hbehind, -⟩, hbefore⟩ := hnodup
      rw [hsplit, List.flatMap_append, List.flatMap_cons, if_pos rfl, hnil behind hbehind,
        hnil before fun hmem => hbefore key hmem key List.mem_cons_self rfl]
      rfl

/-- What is documented of a library. -/
structure ConfigLibrary.Documented (c : ConfigLibrary) where
  /-- What a source says, as a table in which names may occur several times. A file that may be missing and is says
  nothing. -/
  collect : SettingsSource → Except SettingsError SettingValue
  /-- How the name of an override is read. -/
  key? : String → Option SettingKey
  /-- The sources that a builder has registered. -/
  sources : c.Builder → List SettingsSource
  /-- The overrides that a builder has registered. -/
  overrides : c.Builder → SettingKey → Option SettingValue
  collect_builtIn : collect .builtIn = .ok builtIn
  sources_empty : sources c.empty = []
  overrides_empty : overrides c.empty = fun _ => none
  /-- Sources are kept in order, … -/
  sources_addSource : ∀ b source, sources (c.addSource b source) = sources b ++ [source]
  /-- … and do not alter an override. -/
  overrides_addSource : ∀ b source, overrides (c.addSource b source) = overrides b
  /-- An override replaces the one of its key. -/
  exists_setOverride : ∀ b name v key, key? name = some key → ∃ b', c.setOverride b name v = .ok b' ∧
    sources b' = sources b ∧ overrides b' = Function.update (overrides b) key (some v)
  /-- The sources are set in order, and the overrides come last. -/
  exists_build : ∀ b vs, (sources b).mapM collect = .ok vs → ∃ root order, c.build b = .ok root ∧
    ListsOverrides order (overrides b) ∧
    root.hollow = stack (.table []) ((vs ++ order.map fun e => e.1.nest e.2).map hollow)
  /-- A value is built only if all sources can be read. -/
  exists_collect : ∀ b root, c.build b = .ok root → ∃ vs, (sources b).mapM collect = .ok vs

namespace Settings

/-! ## The library of a run -/

/-- What a source says in a run. -/
def collect (a : FileAccess) (source : SettingsSource) : Except SettingsError SettingValue :=
  (entriesOf a source).map fileValue

/-- What succeeds after something else does so with a result of it. -/
theorem exists_of_bind_eq_ok {ε α β : Type} {x : Except ε α} {f : α → Except ε β} {r : β}
    (h : (x >>= f) = .ok r) : ∃ v, x = .ok v ∧ f v = .ok r := by
  cases x with
  | error e => cases h
  | ok v => exact ⟨v, rfl, h⟩

/-- What is had for all of a list is had for its first entry and for those behind it. -/
theorem exists_of_mapM_cons_eq_ok {ε α β : Type} {f : α → Except ε β} {x : α} {xs : List α} {ys : List β}
    (h : (x :: xs).mapM f = .ok ys) : ∃ y ys', f x = .ok y ∧ xs.mapM f = .ok ys' ∧ ys = y :: ys' := by
  rw [List.mapM_cons] at h
  obtain ⟨y, hy, h⟩ := exists_of_bind_eq_ok h
  obtain ⟨ys', hys, h⟩ := exists_of_bind_eq_ok h
  cases h
  exact ⟨y, ys', hy, hys, rfl⟩

/-- Sources that can be read are set one after the other. -/
theorem exists_foldlM_of_mapM {a : FileAccess} {sources : List SettingsSource} {vs : List SettingValue}
    (h : sources.mapM (collect a) = .ok vs) (root : SettingValue) :
    ∃ root', sources.foldlM (fun root source => (entriesOf a source).map (addEntries root)) root = .ok root' ∧
      root'.hollow = stack root.hollow (vs.map hollow) := by
  induction sources generalizing root vs with
  | nil =>
      cases h
      exact ⟨root, rfl, rfl⟩
  | cons source sources ih =>
      obtain ⟨v, ws, hv, hws, rfl⟩ := exists_of_mapM_cons_eq_ok h
      rw [collect] at hv
      cases hentries : entriesOf a source with
      | error e =>
          rw [hentries] at hv
          cases hv
      | ok entries =>
          rw [hentries] at hv
          cases hv
          obtain ⟨root', hfold, hroot⟩ := ih hws (addEntries root entries)
          refine ⟨root', ?_, ?_⟩
          · rw [List.foldlM_cons, hentries]
            exact hfold
          · rw [hroot, hollow_addEntries]
            rfl

/-- Sources that are set can be read. -/
theorem exists_mapM_of_foldlM {a : FileAccess} {sources : List SettingsSource} {root root' : SettingValue}
    (h : sources.foldlM (fun root source => (entriesOf a source).map (addEntries root)) root = .ok root') :
    ∃ vs, sources.mapM (collect a) = .ok vs := by
  induction sources generalizing root with
  | nil => exact ⟨[], rfl⟩
  | cons source sources ih =>
      rw [List.foldlM_cons] at h
      obtain ⟨next, hnext, h⟩ := exists_of_bind_eq_ok h
      obtain ⟨vs, hvs⟩ := ih h
      cases hentries : entriesOf a source with
      | error e =>
          rw [hentries] at hnext
          cases hnext
      | ok entries =>
          refine ⟨fileValue entries :: vs, ?_⟩
          rw [List.mapM_cons, collect, hentries, hvs]
          rfl

/-- Overrides are set one after the other. -/
theorem hollow_foldl_set (overrides : List (SettingKey × SettingValue)) (root : SettingValue) :
    (overrides.foldl (fun root e => e.1.set root e.2) root).hollow
      = stack root.hollow ((overrides.map fun e => e.1.nest e.2).map hollow) := by
  induction overrides generalizing root with
  | nil => rfl
  | cons e overrides ih =>
      rw [List.foldl_cons, ih, SettingKey.hollow_set]
      rfl

namespace Registry

/-- What is found for a key when the entries of another one are left out. -/
theorem lookup_filter_ne (overrides : List (SettingKey × SettingValue)) (key k : SettingKey) :
    (overrides.filter fun e => e.1 != key).lookup k = if k = key then none else overrides.lookup k := by
  induction overrides with
  | nil => exact (ite_self none).symm
  | cons e overrides ih =>
      rw [List.filter_cons, Table.lookup_cons_eq_ite]
      by_cases he : e.1 = key
      · rw [if_neg (by simp [he]), ih, he]
        by_cases hk : k = key
        · rw [if_pos hk, if_pos hk]
        · rw [if_neg hk, if_neg hk, if_neg hk]
      · rw [if_pos (by simp [he]), Table.lookup_cons_eq_ite, ih]
        by_cases hk : k = e.1
        · rw [if_pos hk, if_pos hk, if_neg (hk ▸ he)]
        · rw [if_neg hk, if_neg hk]

/-- What is found after an override was registered. -/
theorem lookup_override (overrides : List (SettingKey × SettingValue)) (key : SettingKey) (v : SettingValue)
    (k : SettingKey) :
    (override overrides key v).lookup k = if k = key then some v else overrides.lookup k := by
  rw [override, List.lookup_append, lookup_filter_ne, Table.lookup_cons_eq_ite]
  by_cases hk : k = key
  · rw [if_pos hk, if_pos hk, if_pos hk, Option.none_or]
  · rw [if_neg hk, if_neg hk, if_neg hk, List.lookup_nil, Option.or_none]

/-- The overrides of a builder are listed by themselves. -/
theorem listsOverrides (r : Registry) : ListsOverrides r.overrides fun key => r.overrides.lookup key where
  nodup_keys := r.nodup_keys
  mem_iff key v := by
    constructor
    · intro hmem
      obtain ⟨before, behind, hsplit⟩ := List.append_of_mem hmem
      refine List.lookup_eq_some_iff.2 ⟨before, behind, hsplit, fun e he => ?_⟩
      have hnodup := r.nodup_keys
      rw [hsplit, List.map_append, List.nodup_append] at hnodup
      rw [bne_iff_ne]
      exact (hnodup.2.2 e.1 (List.mem_map_of_mem he) key (by simp)).symm
    · intro hlookup
      obtain ⟨before, behind, hsplit, -⟩ := List.lookup_eq_some_iff.1 hlookup
      rw [hsplit]
      exact List.mem_append_right before List.mem_cons_self

end Registry

end Settings

/-- The library of a run does what is documented. -/
def ConfigLibrary.documented_standard (a : FileAccess) : (ConfigLibrary.standard a).Documented where
  collect := Settings.collect a
  key? := SettingKey.parse?
  sources := Registry.sources
  overrides r key := r.overrides.lookup key
  collect_builtIn := rfl
  sources_empty := rfl
  overrides_empty := rfl
  sources_addSource _ _ := rfl
  overrides_addSource _ _ := rfl
  exists_setOverride := by
    intro r name v key hkey
    let next : Registry :=
      ⟨r.sources, Registry.override r.overrides key v, Registry.nodup_override r.nodup_keys key v⟩
    refine ⟨next, ?_, rfl, ?_⟩
    · show Registry.setOverride r name v = .ok next
      unfold Registry.setOverride
      rw [hkey]
    · funext k
      rw [Function.update_apply]
      exact Registry.lookup_override r.overrides key v k
  exists_build := by
    intro r vs hvs
    obtain ⟨root, hfold, hroot⟩ := exists_foldlM_of_mapM hvs (.table [])
    refine ⟨r.overrides.foldl (fun root e => e.1.set root e.2) root, r.overrides, ?_, r.listsOverrides, ?_⟩
    · show Registry.build a r = _
      unfold Registry.build
      rw [hfold]
      rfl
    · rw [hollow_foldl_set, hroot, List.map_append]
      exact List.foldl_append.symm
  exists_collect := by
    intro r root hbuild
    obtain ⟨root', hfold, -⟩ := exists_of_bind_eq_ok hbuild
    exact exists_mapM_of_foldlM hfold

end SpecDoc
