import SpecDoc.Proofs.Json
import SpecDoc.Proofs.Table
import SpecDoc.Snapshot

/-!
# Snapshots are read back

The writer leaves empty attributes and children out, and the reader takes what is missing as empty. So
nothing is lost, at whatever depth a part is missing.

* `exists_toJson_eq_object`: what stands in each of the four fields of a written snapshot;
* `ofJsonWithin?_toJson`: a snapshot is read back from its JSON value;
* `read_written`: a snapshot is read back from the text of this value, in either layout;
* `read_written_within`: a reader with a limit on the depth reads back the snapshots of half as many levels.
-/

namespace SpecDoc

namespace Snapshot

open Json

/-- A table of texts is read back. -/
theorem table?_tableToJson (t : Table String) : (tableToJson t).table? Json.string? = some t := by
  have hstring : ∀ s : String, Json.string? (.string s) = some s := fun _ => rfl
  rw [tableToJson, Json.table?, Table.mapM_map_entries hstring, Option.map_some, Table.ofList_entries]

/-! ## The fields of a snapshot -/

/-- The four fields of a written snapshot, of which the last two are there unless they are empty. -/
theorem exists_toJson_eq_object (nodeType label : String) (attributes : Table String)
    (children : List Snapshot) :
    ∃ fields, toJson (.mk nodeType label attributes children) = .object fields ∧
      uniqueField? "node_type" fields = some (some (.string nodeType)) ∧
      uniqueField? "label" fields = some (some (.string label)) ∧
      uniqueField? "attributes" fields = some
        (if attributes.entries.isEmpty then none else some (tableToJson attributes)) ∧
      uniqueField? "children" fields = some
        (if children.isEmpty then none else some (.array (toJsonAll children))) := by
  -- Whether the attributes are there does not depend on the children, and the other way round.
  cases children with
  | nil =>
      refine ⟨_, toJson.eq_def _, ?_⟩
      by_cases hattributes : attributes.entries.isEmpty
      · simp [uniqueField?, hattributes]
      · simp [uniqueField?, hattributes]
  | cons c cs =>
      refine ⟨_, toJson.eq_def _, ?_⟩
      by_cases hattributes : attributes.entries.isEmpty
      · simp [uniqueField?, hattributes, toJsonAll]
      · simp [uniqueField?, hattributes, toJsonAll]

/-- The parts that were left out come back as empty. -/
theorem ofParts?_written {children? : Json → Option (List Snapshot)} {children : List Snapshot}
    (hchildren : children? (.array (toJsonAll children)) = some children)
    (nodeType label : String) (attributes : Table String) :
    ofParts? children? (.string nodeType) (.string label)
      (if attributes.entries.isEmpty then none else some (tableToJson attributes))
      (if children.isEmpty then none else some (.array (toJsonAll children)))
      = some (.mk nodeType label attributes children) := by
  have hread := table?_tableToJson attributes
  by_cases hattributes : attributes.entries.isEmpty
  · have hempty : attributes = Table.empty := by
      obtain ⟨entries, sorted⟩ := attributes
      obtain rfl := List.isEmpty_iff.1 hattributes
      rfl
    cases children with
    | nil => simp [ofParts?, Json.string?, hempty, Table.empty]
    | cons c cs => simp [ofParts?, Json.string?, hempty, Table.empty, hchildren]
  · cases children with
    | nil => simp [ofParts?, Json.string?, hattributes, hread]
    | cons c cs => simp [ofParts?, Json.string?, hattributes, hread, hchildren]

/-! ## Reading back -/

/-- The children of a snapshot have fewer levels. -/
theorem depthOfItems_lt_depth (nodeType label : String) (attributes : Table String)
    (children : List Snapshot) :
    depthOfItems (toJsonAll children) < (toJson (.mk nodeType label attributes children)).depth := by
  cases children with
  | nil => simp [toJson, toJsonAll, depth, depthOfItems]
  | cons c cs =>
      -- The children stand in a field behind others, of which the attributes may be missing.
      by_cases hattributes : attributes.entries.isEmpty
      · simp only [toJson, toJsonAll, depth, depthOfItems, depthOfFields, hattributes, ↓reduceIte,
          List.append_nil, List.cons_append, List.nil_append]
        omega
      · simp only [toJson, toJsonAll, depth, depthOfItems, depthOfFields, hattributes, ↓reduceIte,
          Bool.false_eq_true, List.cons_append, List.nil_append]
        omega

mutual

/-- A snapshot is read back within its own depth. -/
theorem ofJsonWithin?_toJson (s : Snapshot) (fuel : ℕ) (h : s.toJson.depth ≤ fuel) :
    ofJsonWithin? fuel s.toJson = some s := by
  obtain ⟨nodeType, label, attributes, children⟩ := s
  obtain ⟨fuel, rfl⟩ : ∃ m, fuel = m + 1 := ⟨fuel - 1, by
    have hpos := depthOfItems_lt_depth nodeType label attributes children
    omega⟩
  have hchildren := mapM_ofJsonWithin?_toJsonAll children fuel (by
    have hlt := depthOfItems_lt_depth nodeType label attributes children
    omega)
  obtain ⟨fields, hobject, hnodeType, hlabel, hattributes, hfield⟩ :=
    exists_toJson_eq_object nodeType label attributes children
  rw [hobject, ofJsonWithin?]
  simp only [hnodeType, hlabel, hattributes, hfield, Option.bind_eq_bind, Option.bind_some]
  exact ofParts?_written hchildren nodeType label attributes

/-- The snapshots of a sequence are read back within the greatest of their depths. -/
theorem mapM_ofJsonWithin?_toJsonAll (ss : List Snapshot) (fuel : ℕ)
    (h : depthOfItems (toJsonAll ss) ≤ fuel) :
    (toJsonAll ss).mapM (ofJsonWithin? fuel) = some ss := by
  cases ss with
  | nil => rfl
  | cons s ss =>
      rw [toJsonAll, depthOfItems] at h
      have hhead := ofJsonWithin?_toJson s fuel (by omega)
      have htail := mapM_ofJsonWithin?_toJsonAll ss fuel (by omega)
      rw [toJsonAll, List.mapM_cons, hhead, htail]
      rfl

end

/-! ## Texts -/

/-- A table of texts is written without numbers. -/
theorem numberFree_tableToJson (t : Table String) : (tableToJson t).NumberFree := by
  rw [tableToJson, NumberFree]
  induction t.entries with
  | nil => trivial
  | cons e es ih => exact ⟨trivial, ih⟩

mutual

/-- A snapshot is written without numbers. -/
theorem numberFree_toJson (s : Snapshot) : s.toJson.NumberFree := by
  obtain ⟨nodeType, label, attributes, children⟩ := s
  have htable := numberFree_tableToJson attributes
  have hchildren := numberFreeItems_toJsonAll children
  by_cases hattributes : attributes.entries.isEmpty
  · cases children with
    | nil => simp [toJson, NumberFree, NumberFreeFields, hattributes]
    | cons c cs => simpa [toJson, toJsonAll, NumberFree, NumberFreeFields, hattributes] using hchildren
  · cases children with
    | nil => simpa [toJson, NumberFree, NumberFreeFields, hattributes] using htable
    | cons c cs =>
        simpa [toJson, toJsonAll, NumberFree, NumberFreeFields, hattributes] using
          And.intro htable hchildren

/-- The snapshots of a sequence are written without numbers. -/
theorem numberFreeItems_toJsonAll (ss : List Snapshot) : NumberFreeItems (toJsonAll ss) := by
  cases ss with
  | nil => trivial
  | cons s ss => exact ⟨numberFree_toJson s, numberFreeItems_toJsonAll ss⟩

end

/-- Every snapshot is read back from its JSON value, and from the text that writes this value on one
line or over several. -/
theorem read_written (s : Snapshot) :
    ofJson? s.toJson = some s ∧
      (Json.parse? s.toJson.compact).bind ofJson? = some s ∧
      (Json.parse? s.toJson.pretty).bind ofJson? = some s := by
  have hread : ofJson? s.toJson = some s := ofJsonWithin?_toJson s _ le_rfl
  refine ⟨hread, ?_, ?_⟩
  · rw [parse?_compact (numberFree_toJson s), Option.bind_some, hread]
  · rw [parse?_pretty (numberFree_toJson s), Option.bind_some, hread]

/-! ## Limits of the depth -/

mutual

/-- The number of levels of a snapshot. -/
def height : Snapshot → ℕ
  | .mk _ _ _ children => heightOfAll children + 1

/-- The greatest number of levels of the snapshots of a sequence. -/
def heightOfAll : List Snapshot → ℕ
  | [] => 0
  | s :: ss => max s.height (heightOfAll ss)

end

/-- The brackets of a written table hold texts only. -/
theorem depth_tableToJson (t : Table String) : (tableToJson t).depth = 1 := by
  have hfields : ∀ entries : List (String × String),
      depthOfFields (entries.map fun e => (e.1, Json.string e.2)) = 0 := by
    intro entries
    induction entries with
    | nil => rfl
    | cons e es ih =>
        show max 0 (depthOfFields (es.map fun e => (e.1, Json.string e.2))) = 0
        rw [ih, max_self]
  rw [tableToJson, depth, hfields]

mutual

/-- A level of a snapshot opens two brackets, one around its fields and one around its attributes or its children. -/
theorem depth_toJson_le (s : Snapshot) : s.toJson.depth ≤ 2 * s.height := by
  obtain ⟨nodeType, label, attributes, children⟩ := s
  have htable := depth_tableToJson attributes
  have hchildren := depthOfItems_toJsonAll_le children
  rw [height]
  by_cases hattributes : attributes.entries.isEmpty
  · cases children with
    | nil => simp [toJson, depth, depthOfFields, hattributes, heightOfAll]
    | cons c cs =>
        simp only [toJson, toJsonAll, depth, depthOfFields, hattributes, ↓reduceIte, List.append_nil,
          List.cons_append, List.nil_append] at hchildren ⊢
        omega
  · cases children with
    | nil =>
        simp only [toJson, depth, depthOfFields, hattributes, ↓reduceIte, Bool.false_eq_true, List.append_nil,
          List.cons_append, List.nil_append, htable]
        omega
    | cons c cs =>
        simp only [toJson, toJsonAll, depth, depthOfFields, hattributes, ↓reduceIte, Bool.false_eq_true,
          List.cons_append, List.nil_append, htable] at hchildren ⊢
        omega

/-- The snapshots of a sequence open two brackets for each of their levels. -/
theorem depthOfItems_toJsonAll_le (ss : List Snapshot) : depthOfItems (toJsonAll ss) ≤ 2 * heightOfAll ss := by
  cases ss with
  | nil => exact Nat.zero_le _
  | cons s ss =>
      have hhead := depth_toJson_le s
      have htail := depthOfItems_toJsonAll_le ss
      rw [toJsonAll, depthOfItems, heightOfAll]
      omega

end

/-- **Snapshots under a limit.** A snapshot of at most half as many levels as brackets may be open is read back from
either text. -/
theorem read_written_within (s : Snapshot) {limit : ℕ} (h : 2 * s.height ≤ limit) :
    (Json.parseWithin? limit s.toJson.compact).bind ofJson? = some s ∧
      (Json.parseWithin? limit s.toJson.pretty).bind ofJson? = some s := by
  have hdepth : s.toJson.depth ≤ limit := (depth_toJson_le s).trans h
  have hread : ofJson? s.toJson = some s := ofJsonWithin?_toJson s _ le_rfl
  constructor
  · rw [(parseWithin?_compact_iff (numberFree_toJson s) limit).2 hdepth, Option.bind_some, hread]
  · rw [(parseWithin?_pretty_iff (numberFree_toJson s) limit).2 hdepth, Option.bind_some, hread]

end Snapshot

end SpecDoc
