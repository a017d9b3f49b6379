/-!
# Sorted tables

A table maps texts to values and keeps its keys in increasing order (by code points, which is also the
order of their UTF-8 bytes). Two tables with the same entries are equal.

* `find?_insert`: what is found after an insertion;
* `ext_find?`: a table is determined by what is found in it.
-/

namespace SpecDoc

/-- A finite map with text keys in increasing order. -/
structure Table (α : Type) where
  entries : List (String × α)
  sorted : entries.Pairwise fun a b => a.1 < b.1

namespace Table

variable {α : Type}

instance [BEq α] : BEq (Table α) := ⟨fun s t => s.entries == t.entries⟩

instance [DecidableEq α] : DecidableEq (Table α) := fun s t =>
  decidable_of_iff (s.entries = t.entries)
    ⟨fun h => by cases s; cases t; cases h; rfl, fun h => by rw [h]⟩

/-- The table without entries. -/
def empty : Table α := ⟨[], List.Pairwise.nil⟩

instance : Inhabited (Table α) := ⟨empty⟩

/-- Puts an entry in its place, over the entry of the same key if there is one. -/
def insertEntry (k : String) (v : α) : List (String × α) → List (String × α)
  | [] => [(k, v)]
  | e :: es =>
    if k < e.1 then (k, v) :: e :: es
    else if e.1 < k then e :: insertEntry k v es
    else (k, v) :: es

/-- After an insertion there are the new entry and old ones. -/
theorem mem_insertEntry {k : String} {v : α} {l : List (String × α)} {x : String × α}
    (h : x ∈ insertEntry k v l) : x = (k, v) ∨ x ∈ l := by
  induction l with
  | nil => simpa [insertEntry] using h
  | cons e es ih =>
    unfold insertEntry at h
    split at h
    · simpa using h
    · split at h
      · rcases List.mem_cons.1 h with rfl | h
        · exact .inr List.mem_cons_self
        · exact (ih h).imp_right (List.mem_cons_of_mem _)
      · rcases List.mem_cons.1 h with rfl | h
        · exact .inl rfl
        · exact .inr (List.mem_cons_of_mem _ h)

/-- An insertion keeps the order. -/
theorem sorted_insertEntry (k : String) (v : α) {l : List (String × α)}
    (h : l.Pairwise fun a b => a.1 < b.1) :
    (insertEntry k v l).Pairwise fun a b => a.1 < b.1 := by
  induction l with
  | nil => simp [insertEntry]
  | cons e es ih =>
    obtain ⟨he, hes⟩ := List.pairwise_cons.1 h
    unfold insertEntry
    split
    · next hk =>
      refine List.pairwise_cons.2 ⟨fun x hx => ?_, h⟩
      rcases List.mem_cons.1 hx with rfl | hx
      · exact hk
      · exact String.lt_trans hk (he x hx)
    · split
      · next hk =>
        refine List.pairwise_cons.2 ⟨fun x hx => ?_, ih hes⟩
        rcases mem_insertEntry hx with rfl | hx
        · exact hk
        · exact he x hx
      · next h1 h2 =>
        have hk : k = e.1 := String.le_antisymm (String.not_lt.1 h2) (String.not_lt.1 h1)
        exact List.pairwise_cons.2 ⟨fun x hx => by simpa [hk] using he x hx, hes⟩

/-- The table with one entry added or replaced. -/
def insert (t : Table α) (k : String) (v : α) : Table α :=
  ⟨insertEntry k v t.entries, sorted_insertEntry k v t.sorted⟩

/-- The value of a key. -/
def find? (t : Table α) (k : String) : Option α := t.entries.lookup k

/-- Whether a key has a value. -/
def contains (t : Table α) (k : String) : Bool := (t.find? k).isSome

/-- The number of entries. -/
def size (t : Table α) : Nat := t.entries.length

/-- The table of a list of entries, where the last one of a key counts. -/
def ofList (l : List (String × α)) : Table α := l.foldl (fun t e => t.insert e.1 e.2) empty

/-- The table with all entries of another one added or replaced. -/
def merge (t u : Table α) : Table α := u.entries.foldl (fun t e => t.insert e.1 e.2) t

/-! ## Lookup -/

/-- The first entry answers for its own key, and the rest for every other key. -/
theorem lookup_cons_eq_ite {κ : Type} [BEq κ] [LawfulBEq κ] [DecidableEq κ] (e : κ × α)
    (l : List (κ × α)) (k : κ) :
    (e :: l).lookup k = if k = e.1 then some e.2 else l.lookup k := by
  obtain ⟨a, v⟩ := e
  rw [List.lookup_cons]
  by_cases h : k = a
  · simp [h]
  · simp [h, beq_false_of_ne h]

/-- After an insertion into any list the new entry answers for its key, and the others answer as before. -/
theorem lookup_insertEntry (k : String) (v : α) (l : List (String × α)) (k' : String) :
    (insertEntry k v l).lookup k' = if k' = k then some v else l.lookup k' := by
  induction l with
  | nil => exact lookup_cons_eq_ite (k, v) [] k'
  | cons e es ih =>
    unfold insertEntry
    split
    · exact lookup_cons_eq_ite (k, v) (e :: es) k'
    · split
      · next h1 h2 =>
        have hek : e.1 ≠ k := String.ne_of_lt h2
        rw [lookup_cons_eq_ite, lookup_cons_eq_ite, ih]
        by_cases h : k' = e.1
        · simp [h, hek]
        · simp [h]
      · next h1 h2 =>
        have hk : k = e.1 := String.le_antisymm (String.not_lt.1 h2) (String.not_lt.1 h1)
        rw [lookup_cons_eq_ite, lookup_cons_eq_ite, ← hk]
        by_cases h : k' = k
        · simp [h]
        · simp [h]

/-- After an insertion the key has the new value and every other key what it had. -/
@[simp]
theorem find?_insert (t : Table α) (k : String) (v : α) (k' : String) :
    (t.insert k v).find? k' = if k' = k then some v else t.find? k' :=
  lookup_insertEntry k v t.entries k'

/-- The empty table has no entry. -/
@[simp]
theorem find?_empty (k : String) : (empty : Table α).find? k = none := rfl

/-- A key of the table is found with its value. -/
theorem find?_of_mem {t : Table α} {k : String} {v : α} (h : (k, v) ∈ t.entries) :
    t.find? k = some v := by
  obtain ⟨l, hs⟩ := t
  unfold find?
  induction l with
  | nil => simp at h
  | cons e es ih =>
    obtain ⟨he, hes⟩ := List.pairwise_cons.1 hs
    rcases List.mem_cons.1 h with rfl | h
    · exact List.lookup_cons_self
    · rw [lookup_cons_eq_ite, if_neg (String.ne_of_lt (he _ h)).symm]
      exact ih hes h

/-- What is found is an entry. -/
theorem mem_of_find? {t : Table α} {k : String} {v : α} (h : t.find? k = some v) :
    (k, v) ∈ t.entries := by
  obtain ⟨l, hs⟩ := t
  unfold find? at h
  induction l with
  | nil => simp at h
  | cons e es ih =>
    rw [lookup_cons_eq_ite] at h
    by_cases hk : k = e.1
    · subst hk
      simp at h
      subst h
      exact List.mem_cons_self
    · rw [if_neg hk] at h
      exact List.mem_cons_of_mem _ (ih (List.pairwise_cons.1 hs).2 h)

/-- A table is determined by what is found in it. -/
theorem ext_find? {s t : Table α} (h : ∀ k, s.find? k = t.find? k) : s = t := by
  suffices hl : s.entries = t.entries by cases s; cases t; cases hl; rfl
  have hmem : ∀ x, x ∈ s.entries ↔ x ∈ t.entries := fun x =>
    ⟨fun hx => mem_of_find? (h x.1 ▸ find?_of_mem hx),
      fun hx => mem_of_find? ((h x.1).symm ▸ find?_of_mem hx)⟩
  obtain ⟨l, hl⟩ := s
  obtain ⟨m, hm⟩ := t
  simp only at hmem ⊢
  clear h
  induction l generalizing m with
  | nil =>
    cases m with
    | nil => rfl
    | cons e es => simpa using (hmem e).2 List.mem_cons_self
  | cons a as ih =>
    cases m with
    | nil => simpa using (hmem a).1 List.mem_cons_self
    | cons b bs =>
      obtain ⟨ha, has⟩ := List.pairwise_cons.1 hl
      obtain ⟨hb, hbs⟩ := List.pairwise_cons.1 hm
      have hab : a = b := by
        rcases List.mem_cons.1 ((hmem a).1 List.mem_cons_self) with h | h
        · exact h
        · rcases List.mem_cons.1 ((hmem b).2 List.mem_cons_self) with h' | h'
          · exact h'.symm
          · exact absurd (String.lt_trans (hb a h) (ha b h')) (String.lt_irrefl _)
      subst hab
      refine congrArg (a :: ·) (ih has bs hbs fun x => ⟨fun hx => ?_, fun hx => ?_⟩)
      · rcases List.mem_cons.1 ((hmem x).1 (List.mem_cons_of_mem _ hx)) with rfl | h
        · exact absurd (ha x hx) (String.lt_irrefl _)
        · exact h
      · rcases List.mem_cons.1 ((hmem x).2 (List.mem_cons_of_mem _ hx)) with rfl | h
        · exact absurd (hb x hx) (String.lt_irrefl _)
        · exact h

end Table

end SpecDoc
