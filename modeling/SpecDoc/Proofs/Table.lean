import Mathlib.Data.List.Nodup
import SpecDoc.Table

/-!
# Tables of entries

Entries are put into a table one after the other, so of several entries of a key the last one counts.

* `find?_foldl_insert` and `find?_ofList`: what is found in a table after its entries were put in;
* `map_lookup_of_mapM`: what is found after their values were read;
* `ofList_entries`: the entries of a table make up the same table again.
-/

namespace SpecDoc.Table

variable {α : Type}

/-- Entries that are put into a table go before what is there, and later ones before earlier ones. -/
theorem find?_foldl_insert (l : List (String × α)) (t : Table α) (k : String) :
    (l.foldl (fun t e => t.insert e.1 e.2) t).find? k = (l.reverse.lookup k).or (t.find? k) := by
  induction l generalizing t with
  | nil => rfl
  | cons e es ih =>
      rw [List.foldl_cons, ih, find?_insert, List.reverse_cons, List.lookup_append, Option.or_assoc,
        lookup_cons_eq_ite]
      by_cases hk : k = e.1
      · rw [if_pos hk, if_pos hk]
        rfl
      · rw [if_neg hk, if_neg hk]
        rfl

/-- The last entry of a key counts. -/
theorem find?_ofList (l : List (String × α)) (k : String) : (ofList l).find? k = l.reverse.lookup k := by
  rw [ofList, find?_foldl_insert, find?_empty, Option.or_none]

/-- If no key occurs twice, the first entry of a key is the last one. -/
theorem lookup_reverse {l : List (String × α)} (h : (l.map Prod.fst).Nodup) (k : String) :
    l.reverse.lookup k = l.lookup k := by
  induction l with
  | nil => rfl
  | cons e es ih =>
      obtain ⟨he, hes⟩ := List.nodup_cons.1 h
      rw [List.reverse_cons, List.lookup_append, ih hes, lookup_cons_eq_ite, lookup_cons_eq_ite]
      by_cases hk : k = e.1
      · have hnone : es.lookup e.1 = none :=
          List.lookup_eq_none_iff.2 fun x hx =>
            bne_iff_ne.2 fun hkey => he (hkey ▸ List.mem_map_of_mem hx)
        rw [if_pos hk, if_pos hk, hk, hnone]
        rfl
      · rw [if_neg hk, if_neg hk]
        exact Option.or_none

/-- If no key occurs twice, each entry is found for its key. -/
theorem lookup_of_mem {l : List (String × α)} (h : (l.map Prod.fst).Nodup) {e : String × α} (he : e ∈ l) :
    l.lookup e.1 = some e.2 := by
  induction l with
  | nil => cases he
  | cons d l ih =>
      obtain ⟨hd, hl⟩ := List.nodup_cons.1 h
      rw [lookup_cons_eq_ite]
      rcases List.mem_cons.1 he with rfl | he
      · rw [if_pos rfl]
      · have hkey : e.1 ≠ d.1 := fun hkey => hd (hkey ▸ List.mem_map_of_mem he)
        rw [if_neg hkey, ih hl he]

/-- If the values of entries are read one by one, the keys stay, and what is found for one of them is read from what
was there. -/
theorem lookup_of_mapM {β : Type} {value? : β → Option α} {es : List (String × β)} {l : List (String × α)}
    (h : es.mapM (fun e => (value? e.2).map fun v => (e.1, v)) = some l) :
    l.map Prod.fst = es.map Prod.fst ∧ ∀ k, (es.lookup k).map value? = (l.lookup k).map some := by
  induction es generalizing l with
  | nil =>
      cases h
      exact ⟨rfl, fun _ => rfl⟩
  | cons e es ih =>
      rw [List.mapM_cons] at h
      obtain ⟨d, hd, h⟩ := Option.bind_eq_some_iff.1 h
      obtain ⟨v, hv, rfl⟩ := Option.map_eq_some_iff.1 hd
      obtain ⟨l', hl', hcons⟩ := Option.bind_eq_some_iff.1 h
      cases hcons
      obtain ⟨hkeys, hlookup⟩ := ih hl'
      refine ⟨by rw [List.map_cons, List.map_cons, hkeys], fun k => ?_⟩
      rw [lookup_cons_eq_ite, lookup_cons_eq_ite]
      by_cases hk : k = e.1
      · rw [if_pos hk, if_pos hk, Option.map_some, Option.map_some, hv]
      · rw [if_neg hk, if_neg hk, hlookup]

/-- If no key occurs twice, what is in the table of entries that are read one by one is read from what is in these
entries. -/
theorem map_lookup_of_mapM {β : Type} {value? : β → Option α} {es : List (String × β)}
    (hes : (es.map Prod.fst).Nodup) {t : Table α}
    (h : (es.mapM fun e => (value? e.2).map fun v => (e.1, v)).map ofList = some t) (k : String) :
    (es.lookup k).map value? = (t.find? k).map some := by
  obtain ⟨l, hl, rfl⟩ := Option.map_eq_some_iff.1 h
  obtain ⟨hkeys, hlookup⟩ := lookup_of_mapM hl
  rw [find?_ofList, lookup_reverse (hkeys ▸ hes), hlookup]

/-- Values that are written one by one are read back. -/
theorem mapM_map_entries {β : Type} {value? : β → Option α} {write : α → β}
    (hwrite : ∀ x, value? (write x) = some x) (l : List (String × α)) :
    (l.map fun e => (e.1, write e.2)).mapM (fun e => (value? e.2).map fun x => (e.1, x)) = some l := by
  have hread : (fun e : String × β => (value? e.2).map fun x => (e.1, x)) ∘
      (fun e : String × α => (e.1, write e.2)) = some := by
    funext e
    show (value? (write e.2)).map (fun x => (e.1, x)) = some e
    rw [hwrite, Option.map_some]
  rw [List.mapM_map, hread]
  exact List.mapM_pure.trans (congrArg some (List.map_id _))

/-- No key of a table occurs twice. -/
theorem nodup_keys (t : Table α) : (t.entries.map Prod.fst).Nodup :=
  List.pairwise_map.2 (t.sorted.imp fun h => String.ne_of_lt h)

/-- The entries of a table make up the same table again. -/
theorem ofList_entries (t : Table α) : ofList t.entries = t := by
  apply ext_find?
  intro k
  rw [find?_ofList, lookup_reverse t.nodup_keys, find?]

end SpecDoc.Table
