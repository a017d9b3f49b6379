import Mathlib.Data.List.Induction
import Mathlib.Data.List.Nodup
import SpecDoc.Settings.Value
import SpecDoc.Table

/-!
# Values that are set over others

A value is set over another one table by table. What becomes of the value at a path depends only on what is given
to this path, and on the order in which it is given: `given` lists it, with `none` where a table on the way to the
path is replaced by something else.

* `at?_overlay` and `at?_stack`: the value at a path after one value, and after several, were set;
* `distinct_stack`: no name of a table occurs twice;
* `ReadsNames.of_stack`: where a single value is read in the end, it is the one that was said last.
-/

namespace SpecDoc.SettingValue

/-! ## Paths -/

/-- The value at the end of a path of names. -/
def at? : SettingValue → List String → Option SettingValue
  | v, [] => some v
  | v, name :: names => (v.entries.lookup name).bind fun w => at? w names

/-- What is given to a path when a value is set, in order: values, and `none` where something else than a table
is given to a part of the path. A table need not be tidy: its names may occur several times. -/
def given : List String → SettingValue → List (Option SettingValue)
  | [], v => [some v]
  | name :: names, .table entries =>
    entries.flatMap fun e => if e.1 = name then given names e.2 else []
  | _ :: _, _ => [none]

/-- What becomes of the value at a path when something is given to it. -/
def settle (old : Option SettingValue) : Option SettingValue → Option SettingValue
  | none => none
  | some v => some (overlay old v)

/-- A path of one name leads to the entry of this name. -/
@[simp]
theorem at?_singleton (v : SettingValue) (name : String) : v.at? [name] = v.entries.lookup name := by
  rw [at?]
  exact Option.bind_fun_some _

/-- A path behind another one is followed from where that one leads. -/
theorem at?_append (v : SettingValue) (path path' : List String) :
    v.at? (path ++ path') = (v.at? path).bind fun w => w.at? path' := by
  induction path generalizing v with
  | nil => rfl
  | cons name names ih =>
      rw [List.cons_append, at?, at?, Option.bind_assoc]
      exact Option.bind_congr fun w _ => ih w

mutual

/-- The paths of all tables in a value. -/
def tablePaths : SettingValue → List (List String)
  | .table entries => [] :: tablePathsOf entries
  | _ => []

/-- The paths of all tables in the values of entries. -/
def tablePathsOf : List (String × SettingValue) → List (List String)
  | [] => []
  | (name, v) :: es => (tablePaths v).map (name :: ·) ++ tablePathsOf es

end

/-- A path of a table in an entry, behind the name of the entry, is one in the entries. -/
theorem mem_tablePathsOf {es : List (String × SettingValue)} {name : String} {v : SettingValue}
    {path : List String} (hv : (name, v) ∈ es) (hpath : path ∈ tablePaths v) :
    name :: path ∈ tablePathsOf es := by
  induction es with
  | nil => cases hv
  | cons e es ih =>
      rw [tablePathsOf, List.mem_append]
      rcases List.mem_cons.1 hv with rfl | hv
      · exact .inl (List.mem_map_of_mem hpath)
      · exact .inr (ih hv)

/-- The paths of tables are where the tables are. -/
theorem mem_tablePaths {v : SettingValue} {path : List String} {es : List (String × SettingValue)}
    (h : v.at? path = some (.table es)) : path ∈ tablePaths v := by
  induction path generalizing v with
  | nil =>
      cases h
      exact List.mem_cons_self
  | cons name names ih =>
      obtain ⟨w, hw, hat⟩ := Option.bind_eq_some_iff.1 h
      cases v with
      | table entries =>
          obtain ⟨before, behind, rfl, -⟩ := List.lookup_eq_some_iff.1 hw
          exact List.mem_cons_of_mem _ (mem_tablePathsOf (List.mem_append_right before List.mem_cons_self) (ih hat))
      | nothing => cases hw
      | bool _ => cases hw
      | integer _ => cases hw
      | other _ _ _ => cases hw
      | text _ => cases hw
      | list _ => cases hw

/-- What is given to a path behind another one: if a value is taken away, so is all that is in it. -/
theorem given_append (path path' : List String) (v : SettingValue) :
    given (path ++ path') v = (given path v).flatMap fun g => g.elim [none] (given path') := by
  induction path generalizing v with
  | nil => exact (List.append_nil _).symm
  | cons name names ih =>
      cases v with
      | table es =>
          rw [List.cons_append, given, given, List.flatMap_assoc]
          refine List.flatMap_congr fun e _ => ?_
          by_cases he : e.1 = name
          · rw [if_pos he, if_pos he, ih]
          · rw [if_neg he, if_neg he, List.flatMap_nil]
      | nothing => rfl
      | bool _ => rfl
      | integer _ => rfl
      | other _ _ _ => rfl
      | text _ => rfl
      | list _ => rfl

/-- The value of a name after another one was changed or added. -/
theorem lookup_alter (name : String) (f : Option SettingValue → SettingValue)
    (es : List (String × SettingValue)) (k : String) :
    (alter name f es).lookup k = if k = name then some (f (es.lookup name)) else es.lookup k := by
  induction es with
  | nil => exact Table.lookup_cons_eq_ite (name, f none) [] k
  | cons e es ih =>
      rw [alter]
      by_cases he : e.1 = name
      · rw [if_pos he, Table.lookup_cons_eq_ite, Table.lookup_cons_eq_ite, Table.lookup_cons_eq_ite,
          if_pos he.symm, he]
        by_cases hk : k = name
        · rw [if_pos hk, if_pos hk]
        · rw [if_neg hk, if_neg hk, if_neg hk]
      · rw [if_neg he, Table.lookup_cons_eq_ite, ih, Table.lookup_cons_eq_ite, Table.lookup_cons_eq_ite,
          if_neg (Ne.symm he)]
        by_cases hk : k = e.1
        · rw [if_pos hk, if_neg (fun hname => he (hk.symm.trans hname)), if_pos hk]
        · rw [if_neg hk, if_neg hk]

/-- The value of a name after the entries of a table were set: each entry of this name is set over it. -/
theorem lookup_overlayEntries (root : SettingValue) (es : List (String × SettingValue)) (name : String) :
    (overlayEntries root es).entries.lookup name
      = es.foldl (fun old e => if e.1 = name then some (overlay old e.2) else old)
        (root.entries.lookup name) := by
  induction es generalizing root with
  | nil => rw [overlayEntries, List.foldl_nil]
  | cons e es ih =>
      obtain ⟨n, v⟩ := e
      rw [overlayEntries, ih, List.foldl_cons, entries, lookup_alter]
      by_cases hn : name = n
      · rw [if_pos hn, if_pos hn.symm, hn]
      · rw [if_neg hn, if_neg (Ne.symm hn)]

/-- **Values at paths.** After a value was set, the value at a path is what it was, with all that was given to the
path set over it. -/
theorem at?_overlay (old : Option SettingValue) (v : SettingValue) (path : List String) :
    (overlay old v).at? path = (given path v).foldl settle (old.bind fun o => o.at? path) := by
  induction path generalizing old v with
  | nil => cases old <;> rfl
  | cons name names ih =>
      cases v with
      | table es =>
          have hstart : (old.getD (.table [])).entries.lookup name
              = old.bind fun o => o.entries.lookup name := by
            cases old <;> rfl
          have hold : (old.bind fun o => o.at? (name :: names))
              = ((old.getD (.table [])).entries.lookup name).bind fun o => o.at? names := by
            rw [hstart, Option.bind_assoc]
            rfl
          rw [overlay, at?, lookup_overlayEntries, hold, given]
          generalize (old.getD (.table [])).entries.lookup name = found
          -- The entries of this name are taken one by one; each changes what was found before.
          induction es generalizing found with
          | nil => rfl
          | cons e es ihEntries =>
              rw [List.foldl_cons, ihEntries, List.flatMap_cons, List.foldl_append]
              by_cases he : e.1 = name
              · rw [if_pos he, if_pos he, Option.bind_some, ih]
              · rw [if_neg he, if_neg he, List.foldl_nil]
      | nothing => rfl
      | bool _ => rfl
      | integer _ => rfl
      | other _ _ _ => rfl
      | text _ => rfl
      | list _ => rfl

/-- Entries that are set over anything make a table. -/
theorem exists_overlayEntries_eq_table (root : SettingValue) (e : String × SettingValue)
    (es : List (String × SettingValue)) : ∃ es', overlayEntries root (e :: es) = .table es' := by
  induction es generalizing root e with
  | nil => exact ⟨_, rfl⟩
  | cons e' es ih => exact ih _ e'

/-- A table that is set over a table, or where nothing was before, makes a table. -/
theorem exists_overlay_eq_table {old : Option SettingValue} (hold : ∀ o ∈ old, ∃ es, o = .table es)
    (es : List (String × SettingValue)) : ∃ es', overlay old (.table es) = .table es' := by
  cases es with
  | nil =>
      cases old with
      | none => exact ⟨[], rfl⟩
      | some o => exact hold o rfl
  | cons e es => exact exists_overlayEntries_eq_table _ e es

/-- Tables that are set over a table make a table. -/
theorem exists_foldl_settle_eq_table {gs : List (Option SettingValue)}
    (hgs : ∀ g ∈ gs, ∃ es, g = some (.table es)) (es : List (String × SettingValue)) :
    ∃ es', gs.foldl settle (some (.table es)) = some (.table es') := by
  induction gs generalizing es with
  | nil => exact ⟨es, rfl⟩
  | cons g gs ih =>
      obtain ⟨es', rfl⟩ := hgs g List.mem_cons_self
      obtain ⟨next, hnext⟩ := exists_overlay_eq_table (fun o ho => ⟨es, (Option.some.inj ho).symm⟩) es'
      rw [List.foldl_cons, settle, hnext]
      exact ih (fun g hg => hgs g (List.mem_cons_of_mem _ hg)) next

/-- Where only tables are given, there is a table in the end, if anything. -/
theorem exists_eq_table_of_foldl_settle {gs : List (Option SettingValue)}
    (hgs : ∀ g ∈ gs, ∃ es, g = some (.table es)) {r : SettingValue} (hr : gs.foldl settle none = some r) :
    ∃ es, r = .table es := by
  cases gs with
  | nil => cases hr
  | cons g gs =>
      obtain ⟨es, rfl⟩ := hgs g List.mem_cons_self
      obtain ⟨next, hnext⟩ := @exists_overlay_eq_table none (fun _ ho => by cases ho) es
      rw [List.foldl_cons, settle, hnext] at hr
      obtain ⟨es', hes'⟩ := exists_foldl_settle_eq_table (fun g hg => hgs g (List.mem_cons_of_mem _ hg)) next
      exact ⟨es', Option.some.inj (hr.symm.trans hes')⟩

/-- What is there in the end was set by one of the values that were given, if nothing was there before. -/
theorem exists_mem_of_foldl_settle {gs : List (Option SettingValue)} {r : SettingValue}
    (hr : gs.foldl settle none = some r) : ∃ old v, some v ∈ gs ∧ r = overlay old v := by
  rcases List.eq_nil_or_concat gs with rfl | ⟨gs, g, rfl⟩
  · cases hr
  · rw [List.concat_eq_append, List.foldl_append] at hr
    cases g with
    | none => cases hr
    | some v =>
        cases hr
        exact ⟨_, v, by simp, rfl⟩

/-- Where only values are given, there is one in the end, if any was given or there. -/
theorem isSome_foldl_settle {gs : List (Option SettingValue)} (hgs : ∀ g ∈ gs, g.isSome = true)
    (old : Option SettingValue) : (gs.foldl settle old).isSome = true ↔ old.isSome = true ∨ gs ≠ [] := by
  induction gs generalizing old with
  | nil => simp
  | cons g gs ih =>
      obtain ⟨v, rfl⟩ := Option.isSome_iff_exists.1 (hgs g List.mem_cons_self)
      rw [List.foldl_cons, ih fun g hg => hgs g (List.mem_cons_of_mem _ hg)]
      simp [settle]

/-! ## Several values -/

/-- A value with others set over it in order. -/
def stack (root : SettingValue) (vs : List SettingValue) : SettingValue :=
  vs.foldl (fun root v => overlay (some root) v) root

/-- The value at a path after several values were set. -/
theorem at?_stack (root : SettingValue) (vs : List SettingValue) (path : List String) :
    (stack root vs).at? path = (vs.flatMap (given path)).foldl settle (root.at? path) := by
  induction vs generalizing root with
  | nil => rfl
  | cons v vs ih =>
      rw [List.flatMap_cons, List.foldl_append]
      show (stack (overlay (some root) v) vs).at? path = _
      rw [ih, at?_overlay, Option.bind_some]

/-- The value on its own: what becomes of it where nothing was before. Only tables may change, whose repeated names
are put together. -/
def alone (v : SettingValue) : SettingValue := overlay none v

/-- Whether something is said by what is given: an empty table says nothing. -/
def isSaid : Option SettingValue → Bool
  | some (.table []) => false
  | _ => true

/-- What a value says about a path in the end: the value that it gives to it last, or that there is none. -/
def said? (path : List String) (v : SettingValue) : Option (Option SettingValue) :=
  ((given path v).filter isSaid).getLast?

/-- What the last of several values that says something about a path says about it. -/
def lastSaid (path : List String) (vs : List SettingValue) : Option (Option SettingValue) :=
  (vs.filterMap (said? path)).getLast?

/-- Values that are set later count first. -/
theorem lastSaid_append (path : List String) (vs ws : List SettingValue) :
    lastSaid path (vs ++ ws) = (lastSaid path ws).or (lastSaid path vs) := by
  rw [lastSaid, List.filterMap_append, List.getLast?_append]
  rfl

/-- What is said last about a path is the last of all that is given to it and says something. -/
theorem getLast?_flatMap_given (path : List String) (vs : List SettingValue) :
    ((vs.flatMap (given path)).filter isSaid).getLast? = lastSaid path vs := by
  induction vs with
  | nil => rfl
  | cons v vs ih =>
      rw [List.flatMap_cons, List.filter_append, List.getLast?_append, ih]
      show _ = lastSaid path ([v] ++ vs)
      rw [lastSaid_append]
      congr 1
      rw [lastSaid, ← said?, List.filterMap_cons, List.filterMap_nil]
      cases said? path v <;> rfl

/-! ## Names -/

/-- Whether no name of a table at any path occurs twice. -/
def Distinct (v : SettingValue) : Prop :=
  ∀ path es, v.at? path = some (.table es) → (es.map Prod.fst).Nodup

/-- The names after a change: those that were there, and the changed one. -/
theorem mem_map_fst_alter {name k : String} {f : Option SettingValue → SettingValue}
    {es : List (String × SettingValue)} :
    k ∈ (alter name f es).map Prod.fst ↔ k = name ∨ k ∈ es.map Prod.fst := by
  induction es with
  | nil => simp [alter]
  | cons e es ih =>
      rw [alter]
      by_cases he : e.1 = name
      · rw [if_pos he, List.map_cons, List.map_cons, List.mem_cons, List.mem_cons, he]
        simp
      · rw [if_neg he, List.map_cons, List.map_cons, List.mem_cons, List.mem_cons, ih]
        exact or_left_comm

/-- A change adds no name twice. -/
theorem nodup_map_fst_alter {name : String} {f : Option SettingValue → SettingValue}
    {es : List (String × SettingValue)} (h : (es.map Prod.fst).Nodup) :
    ((alter name f es).map Prod.fst).Nodup := by
  induction es with
  | nil => simp [alter]
  | cons e es ih =>
      rw [List.map_cons, List.nodup_cons] at h
      rw [alter]
      by_cases he : e.1 = name
      · rw [if_pos he, List.map_cons, List.nodup_cons]
        exact ⟨he ▸ h.1, h.2⟩
      · rw [if_neg he, List.map_cons, List.nodup_cons, mem_map_fst_alter, not_or]
        exact ⟨⟨he, h.1⟩, ih h.2⟩

/-- If the values of a table are tidy and no name occurs twice, the table is tidy. -/
theorem distinct_table {es : List (String × SettingValue)} (hnames : (es.map Prod.fst).Nodup)
    (hvalues : ∀ name w, es.lookup name = some w → w.Distinct) : (table es).Distinct := by
  intro path es' hpath
  cases path with
  | nil =>
      cases hpath
      exact hnames
  | cons name names =>
      obtain ⟨w, hw, hat⟩ := Option.bind_eq_some_iff.1 hpath
      exact hvalues name w hw names es' hat

/-- A value at a path of a tidy value is tidy. -/
theorem Distinct.at? {v w : SettingValue} {path : List String} (hv : v.Distinct) (hw : v.at? path = some w) :
    w.Distinct := by
  intro path' es hat
  refine hv (path ++ path') es ?_
  rw [at?_append, hw, Option.bind_some, hat]

/-- The values of a tidy table are tidy. -/
theorem Distinct.lookup {v w : SettingValue} {name : String} (hv : v.Distinct)
    (hw : v.entries.lookup name = some w) : w.Distinct := by
  rw [← at?_singleton] at hw
  exact hv.at? hw

/-- The entries of a tidy value have distinct names. -/
theorem Distinct.nodup_entries {v : SettingValue} (hv : v.Distinct) : (v.entries.map Prod.fst).Nodup := by
  cases v with
  | table es => exact hv [] es rfl
  | nothing => exact List.nodup_nil
  | bool _ => exact List.nodup_nil
  | integer _ => exact List.nodup_nil
  | other _ _ _ => exact List.nodup_nil
  | text _ => exact List.nodup_nil
  | list _ => exact List.nodup_nil

/-- Only a table has entries. -/
theorem distinct_of_entries_eq_nil {v : SettingValue} (hv : v.entries = []) : v.Distinct := by
  intro path es hat
  cases path with
  | nil =>
      cases hat
      cases hv
      exact List.nodup_nil
  | cons name names =>
      rw [at?, hv] at hat
      cases hat

mutual

/-- What is set over a tidy value is tidy. -/
theorem distinct_overlay (old : Option SettingValue) (v : SettingValue)
    (hold : ∀ o ∈ old, Distinct o) : (overlay old v).Distinct := by
  cases v with
  | table es =>
      rw [overlay]
      refine distinct_overlayEntries (old.getD (.table [])) es ?_
      cases old with
      | none => exact distinct_of_entries_eq_nil rfl
      | some o => exact hold o rfl
  | nothing => exact distinct_of_entries_eq_nil rfl
  | bool _ => exact distinct_of_entries_eq_nil rfl
  | integer _ => exact distinct_of_entries_eq_nil rfl
  | other _ _ _ => exact distinct_of_entries_eq_nil rfl
  | text _ => exact distinct_of_entries_eq_nil rfl
  | list _ => exact distinct_of_entries_eq_nil rfl

/-- A tidy value is tidy after the entries of a table were set. -/
theorem distinct_overlayEntries (root : SettingValue) (es : List (String × SettingValue))
    (hroot : root.Distinct) : (overlayEntries root es).Distinct := by
  cases es with
  | nil =>
      rw [overlayEntries]
      exact hroot
  | cons e es =>
      obtain ⟨n, v⟩ := e
      rw [overlayEntries]
      refine distinct_overlayEntries _ es (distinct_table (nodup_map_fst_alter hroot.nodup_entries) ?_)
      intro name w hw
      rw [lookup_alter] at hw
      split at hw
      · cases hw
        exact distinct_overlay _ v fun o ho => hroot.lookup ho
      · exact hroot.lookup hw

end

/-- Several values that are set keep a value tidy. -/
theorem distinct_stack {root : SettingValue} (hroot : root.Distinct) (vs : List SettingValue) :
    (stack root vs).Distinct := by
  induction vs generalizing root with
  | nil => exact hroot
  | cons v vs ih =>
      refine ih (distinct_overlay (some root) v fun o ho => ?_)
      cases ho
      exact hroot

/-- The names after the entries of a table were set: those that were there, and those of the entries. -/
theorem mem_map_fst_overlayEntries {root : SettingValue} {es : List (String × SettingValue)} {k : String} :
    k ∈ (overlayEntries root es).entries.map Prod.fst ↔
      k ∈ root.entries.map Prod.fst ∨ k ∈ es.map Prod.fst := by
  induction es generalizing root with
  | nil => simp [overlayEntries]
  | cons e es ih =>
      obtain ⟨n, v⟩ := e
      rw [overlayEntries, ih, List.map_cons, List.mem_cons, ← or_assoc]
      refine or_congr_left ?_
      show k ∈ (alter n _ root.entries).map Prod.fst ↔ _
      rw [mem_map_fst_alter]
      exact or_comm

/-- If all entries that are set have one name, they make a table of one entry. -/
theorem exists_alone_eq {name : String} {e : String × SettingValue} {es : List (String × SettingValue)}
    (h : ∀ k ∈ (e :: es).map Prod.fst, k = name) : ∃ w, (table (e :: es)).alone = .table [(name, w)] := by
  obtain ⟨es', hes'⟩ := exists_overlayEntries_eq_table (.table []) e es
  have halone : (table (e :: es)).alone = .table es' := by
    rw [alone, overlay]
    exact hes'
  have hmem : ∀ k, k ∈ es'.map Prod.fst ↔ k ∈ (e :: es).map Prod.fst := by
    intro k
    have hnames := @mem_map_fst_overlayEntries (.table []) (e :: es) k
    rw [hes'] at hnames
    exact hnames.trans (or_iff_right List.not_mem_nil)
  have hnodup : (es'.map Prod.fst).Nodup := by
    have hdistinct := distinct_overlay none (table (e :: es)) (by simp)
    rw [← alone, halone] at hdistinct
    exact hdistinct.nodup_entries
  rw [halone]
  match es', hmem, hnodup with
  | [], hmem, _ => exact absurd ((hmem e.1).2 List.mem_cons_self) List.not_mem_nil
  | [(n, w)], hmem, _ =>
      obtain rfl : n = name := h n ((hmem n).1 List.mem_cons_self)
      exact ⟨w, rfl⟩
  | a :: b :: _, hmem, hnodup =>
      have ha := h a.1 ((hmem a.1).1 List.mem_cons_self)
      have hb := h b.1 ((hmem b.1).1 (List.mem_cons_of_mem _ List.mem_cons_self))
      rw [List.map_cons, List.nodup_cons, ha, ← hb] at hnodup
      exact absurd List.mem_cons_self hnodup.1

/-! ## Reading what was said last -/

/-- Whether a reading takes no tables but those of a single entry, of which only the name matters to it. -/
def ReadsNames (reads : SettingValue → Prop) : Prop :=
  ∀ es, reads (.table es) → ∃ name w, es = [(name, w)] ∧ ∀ w', reads (.table [(name, w')])

section Reading

variable {reads : SettingValue → Prop}

/-- An empty table is not read. -/
theorem ReadsNames.not_empty (hread : ReadsNames reads) : ¬reads (.table []) := by
  intro h
  obtain ⟨name, w, hnil, -⟩ := hread [] h
  cases hnil

/-- What is read after a value was set is read from the value on its own. -/
theorem ReadsNames.alone (hread : ReadsNames reads) {old : Option SettingValue} {v : SettingValue}
    (hsaid : isSaid (some v) = true) (h : reads (overlay old v)) : reads v.alone := by
  cases v with
  | table es =>
      cases es with
      | nil => cases hsaid
      | cons e es =>
          rw [overlay] at h
          obtain ⟨es', hes'⟩ := exists_overlayEntries_eq_table (old.getD (.table [])) e es
          rw [hes'] at h
          obtain ⟨name, w, rfl, hname⟩ := hread es' h
          have hnames : ∀ k ∈ (e :: es).map Prod.fst, k = name := by
            intro k hk
            have hmem := (@mem_map_fst_overlayEntries (old.getD (.table [])) (e :: es) k).2 (.inr hk)
            rw [hes'] at hmem
            exact List.mem_singleton.1 hmem
          obtain ⟨w', hw'⟩ := exists_alone_eq hnames
          rw [hw']
          exact hname w'
  | nothing => exact h
  | bool _ => exact h
  | integer _ => exact h
  | other _ _ _ => exact h
  | text _ => exact h
  | list _ => exact h

/-- What is read where several things were given is read from the last of them that says something, or else from
what was there before. -/
theorem ReadsNames.of_foldl_settle (hread : ReadsNames reads) {gs : List (Option SettingValue)}
    {old : Option SettingValue} {r : SettingValue} (hr : gs.foldl settle old = some r) (hreads : reads r) :
    (∃ v, (gs.filter isSaid).getLast? = some (some v) ∧ reads v.alone) ∨
      (gs.filter isSaid).getLast? = none ∧ old = some r := by
  induction gs using List.reverseRecOn generalizing r with
  | nil => exact .inr ⟨rfl, hr⟩
  | append_singleton gs g ih =>
      rw [List.foldl_append, List.foldl_cons, List.foldl_nil] at hr
      rw [List.filter_append]
      cases g with
      | none => cases hr
      | some v =>
          cases hr
          by_cases hsaid : isSaid (some v) = true
          · rw [List.filter_cons_of_pos hsaid, List.filter_nil, List.getLast?_concat]
            exact .inl ⟨v, rfl, hread.alone hsaid hreads⟩
          · -- An empty table changes nothing, and is not read itself.
            obtain rfl : v = .table [] := by
              unfold isSaid at hsaid
              split at hsaid
              · next heq => exact Option.some.inj heq
              · exact absurd rfl hsaid
            rw [List.filter_cons_of_neg hsaid, List.filter_nil, List.append_nil]
            cases hold : gs.foldl settle old with
            | none =>
                rw [hold] at hreads
                exact absurd hreads hread.not_empty
            | some o =>
                rw [hold] at hreads
                exact ih hold hreads

/-- What is read at a path after several values were set is what was said last about it, or else what was there
before. -/
theorem ReadsNames.of_stack (hread : ReadsNames reads) {root r : SettingValue} {vs : List SettingValue}
    {path : List String} (hr : (stack root vs).at? path = some r) (hreads : reads r) :
    (∃ v, lastSaid path vs = some (some v) ∧ reads v.alone) ∨
      lastSaid path vs = none ∧ root.at? path = some r := by
  rw [at?_stack] at hr
  rw [← getLast?_flatMap_given]
  exact hread.of_foldl_settle hr hreads

end Reading

/-- Where nothing is in the end, the last word is not a value. -/
theorem join_lastSaid_of_at?_eq_none {root : SettingValue} {vs : List SettingValue} {path : List String}
    (h : (stack root vs).at? path = none) : (lastSaid path vs).join = none := by
  rw [at?_stack] at h
  rw [← getLast?_flatMap_given]
  generalize vs.flatMap (given path) = gs at h
  rcases List.eq_nil_or_concat gs with rfl | ⟨gs, g, rfl⟩
  · rfl
  · rw [List.concat_eq_append, List.foldl_append] at h
    cases g with
    | none => rw [List.concat_eq_append, List.filter_append, List.getLast?_append]; rfl
    | some v => cases h

end SpecDoc.SettingValue
