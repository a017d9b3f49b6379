import Mathlib.Data.List.Basic
import SpecDoc.Path
import SpecDoc.Proofs.Text.Lines

/-!
# Normalized and written paths

A normalized path goes up first, as far as it does, and then only into names; an absolute one never
goes up. There is nothing left in it to fold.

* `normalize_eq_self_iff`: the paths in normal form are those that normalizing leaves as they are;
* `normalize_normalize`: normalizing twice is the same as once;
* `IsLegible.ofString_toString`: a path is read back from how it is written.
-/

namespace SpecDoc

namespace Path

/-- Whether steps, listed last first, have nothing to fold: a step up only has steps up before it,
and none of them is at the root. -/
def Folded (absolute : Bool) : List PathStep → Prop
  | [] => True
  | .into _ :: last => Folded absolute last
  | .up :: last => absolute = false ∧ ∀ s ∈ last, s = .up

/-- Steps up from the current directory have nothing to fold. -/
theorem folded_of_forall_up {last : List PathStep} (h : ∀ s ∈ last, s = .up) : Folded false last := by
  cases last with
  | nil => trivial
  | cons s last =>
      obtain rfl := h s List.mem_cons_self
      exact ⟨rfl, fun t ht => h t (List.mem_cons_of_mem _ ht)⟩

/-- Without the last step there is nothing to fold either. -/
theorem Folded.of_cons {absolute : Bool} {s : PathStep} {last : List PathStep}
    (h : Folded absolute (s :: last)) : Folded absolute last := by
  cases s with
  | into name => exact h
  | up =>
      obtain ⟨rfl, hup⟩ := h
      exact folded_of_forall_up hup

/-- Folding one more step leaves nothing to fold. -/
theorem Folded.fold {absolute : Bool} {last : List PathStep} (h : Folded absolute last)
    (s : PathStep) : Folded absolute (fold absolute last s) := by
  cases s with
  | into name => exact h
  | up =>
      rcases last with _ | ⟨_ | name, last⟩
      · cases absolute
        · exact ⟨rfl, by simp⟩
        · trivial
      · obtain ⟨rfl, hup⟩ := h
        exact ⟨rfl, by simpa using hup⟩
      · exact h

/-- Folding any steps leaves nothing to fold. -/
theorem Folded.foldl {absolute : Bool} {last : List PathStep} (h : Folded absolute last)
    (steps : List PathStep) : Folded absolute (steps.foldl (Path.fold absolute) last) := by
  induction steps generalizing last with
  | nil => exact h
  | cons s steps ih => exact ih (h.fold s)

/-- A step that has nothing to fold is added as it is. -/
theorem fold_eq_cons {absolute : Bool} {s : PathStep} {last : List PathStep}
    (h : Folded absolute (s :: last)) : fold absolute last s = s :: last := by
  cases s with
  | into name => rfl
  | up =>
      obtain ⟨rfl, hup⟩ := h
      rcases last with _ | ⟨_ | name, last⟩
      · rfl
      · rfl
      · cases hup _ List.mem_cons_self

/-- Steps that have nothing to fold are added as they are. -/
theorem foldl_reverse_eq_self {absolute : Bool} {last : List PathStep} (h : Folded absolute last) :
    last.reverse.foldl (fold absolute) [] = last := by
  induction last with
  | nil => rfl
  | cons s last ih =>
      rw [List.reverse_cons, List.foldl_append, ih h.of_cons]
      exact fold_eq_cons h

/-- A path in normal form: it has nothing to fold. -/
structure IsNormal (p : Path) : Prop where
  folded : Folded p.absolute p.steps.reverse

/-- Normalizing makes a path normal. -/
theorem isNormal_normalize (p : Path) : p.normalize.IsNormal := by
  constructor
  rw [normalize, List.reverse_reverse]
  exact Folded.foldl (show Folded p.absolute [] from trivial) p.steps

/-- The normal paths are those that normalizing leaves as they are. -/
theorem normalize_eq_self_iff {p : Path} : p.normalize = p ↔ p.IsNormal := by
  constructor
  · intro h
    rw [← h]
    exact isNormal_normalize p
  · intro h
    have hsteps := foldl_reverse_eq_self h.folded
    rw [List.reverse_reverse] at hsteps
    rw [normalize, hsteps, List.reverse_reverse]

/-- To normalize twice is the same as once. -/
@[simp]
theorem normalize_normalize (p : Path) : p.normalize.normalize = p.normalize :=
  normalize_eq_self_iff.2 (isNormal_normalize p)

/-! ## Files and directories -/

/-- The directory of a normal path is normal. -/
theorem IsNormal.parent {p : Path} (h : p.IsNormal) : p.parent.IsNormal := by
  obtain ⟨absolute, steps⟩ := p
  constructor
  rcases List.eq_nil_or_concat steps with rfl | ⟨steps, s, rfl⟩
  · trivial
  · have hfolded := h.folded
    rw [List.concat_eq_append, List.reverse_append] at hfolded
    simpa [Path.parent] using hfolded.of_cons

/-- The file with a name in the directory that holds the file at `p`. -/
def sibling (p : Path) (name : String) : Path := p.parent.join ⟨false, [.into name]⟩

/-- A file next to a file with a normal path has a normal path. -/
theorem IsNormal.sibling {p : Path} (h : p.IsNormal) (name : String) :
    (p.sibling name).IsNormal := by
  constructor
  simpa [Path.sibling, join, Folded] using h.parent.folded

/-- Files next to each other are in the same directory. -/
theorem parent_sibling (p : Path) (name : String) : (p.sibling name).parent = p.parent := by
  simp [sibling, join, parent]

/-! ## Writing and reading -/

/-- A path that can be read back once it is written: every step is the one that its name stands for, and
no name holds a slash. -/
structure IsLegible (p : Path) : Prop where
  steps : ∀ s ∈ p.steps, '/' ∉ (stepName s).toList ∧ stepOfPart (stepName s).toList = some s

/-- The name of a step is the part that it was read from. -/
theorem toList_stepName {part : List Char} {s : PathStep} (h : stepOfPart part = some s) :
    (stepName s).toList = part := by
  unfold stepOfPart at h
  split at h
  · cases h
  · split at h
    · next hup =>
      cases h
      exact hup.symm
    · cases h
      exact String.toList_ofList

/-- What is read is legible. -/
theorem isLegible_ofString (s : String) : (ofString s).IsLegible := by
  constructor
  intro step hstep
  obtain ⟨part, hpart, hread⟩ := List.mem_filterMap.1 hstep
  rw [toList_stepName hread]
  refine ⟨fun hslash => ?_, hread⟩
  exact absurd (Text.eq_false_of_mem_cut hpart hslash) (by decide)

/-- Folding makes no new steps. -/
theorem mem_of_mem_foldl_fold {absolute : Bool} {s : PathStep} {last steps : List PathStep}
    (h : s ∈ steps.foldl (fold absolute) last) : s ∈ last ∨ s ∈ steps := by
  induction steps generalizing last with
  | nil => exact .inl h
  | cons t steps ih =>
      rcases ih h with hlast | hsteps
      · have hfold : s ∈ last ∨ s = t := by
          unfold fold at hlast
          split at hlast
          · exact (List.mem_cons.1 hlast).symm
          · split at hlast
            · exact .inl (List.mem_cons_of_mem _ hlast)
            · split at hlast
              · exact .inl hlast
              · exact (List.mem_cons.1 hlast).symm
        exact hfold.imp_right fun hs => List.mem_cons.2 (.inl hs)
      · exact .inr (List.mem_cons_of_mem _ hsteps)

/-- Normalizing keeps a path legible. -/
theorem IsLegible.normalize {p : Path} (h : p.IsLegible) : p.normalize.IsLegible := by
  constructor
  intro s hs
  have hmem := mem_of_mem_foldl_fold (List.mem_reverse.1 hs)
  exact h.steps s (hmem.resolve_left List.not_mem_nil)

/-- Following another path from a legible one keeps it legible. -/
theorem IsLegible.join {p q : Path} (hp : p.IsLegible) (hq : q.IsLegible) :
    (p.join q).IsLegible := by
  constructor
  intro s hs
  unfold Path.join at hs
  split at hs
  · exact hq.steps s hs
  · rcases List.mem_append.1 hs with hs | hs
    · exact hp.steps s hs
    · exact hq.steps s hs

/-- The directory of a legible path is legible. -/
theorem IsLegible.parent {p : Path} (h : p.IsLegible) : p.parent.IsLegible := by
  constructor
  intro s hs
  unfold Path.parent at hs
  split at hs
  · cases hs
  · exact h.steps s (List.dropLast_subset _ hs)

/-- A written path has a slash in front if it is absolute, and then its steps with slashes between them. -/
theorem toList_toString (p : Path) :
    p.toString.toList = (if p.absolute then ['/'] else []) ++
      Text.join ['/'] (p.steps.map fun s => (stepName s).toList) := by
  have hslash : (if p.absolute then "/" else "").toList = if p.absolute then ['/'] else [] := by
    split <;> rfl
  rw [toString, String.toList_append, String.toList_intercalate, List.map_map, hslash,
    ← Text.intercalate_eq_join]
  rfl

/-- The steps of a legible path are found between the slashes. -/
theorem IsLegible.filterMap_cut {p : Path} (h : p.IsLegible) :
    (Text.cut (· == '/') (Text.join ['/'] (p.steps.map fun s => (stepName s).toList))).filterMap
      stepOfPart = p.steps := by
  cases hsteps : p.steps with
  | nil => rfl
  | cons s ss =>
      have hnames : ∀ w ∈ p.steps.map fun s => (stepName s).toList, '/' ∉ w := by
        intro w hw
        obtain ⟨s, hs, rfl⟩ := List.mem_map.1 hw
        exact (h.steps s hs).1
      rw [← hsteps, Text.cut_join hnames (by simp [hsteps]), List.filterMap_map]
      exact (List.filterMap_congr fun s hs => (h.steps s hs).2).trans List.filterMap_some

/-- The steps of a legible path do not start with a slash. -/
theorem IsLegible.head?_ne {p : Path} (h : p.IsLegible) :
    (Text.join ['/'] (p.steps.map fun s => (stepName s).toList)).head? ≠ some '/' := by
  cases hsteps : p.steps with
  | nil => simp [Text.join]
  | cons s ss =>
      obtain ⟨hslash, hread⟩ := h.steps s (by simp [hsteps])
      cases hname : (stepName s).toList with
      | nil =>
          rw [hname] at hread
          cases hread
      | cons c r =>
          rw [hname] at hslash
          have hhead : (Text.join ['/'] ((s :: ss).map fun s => (stepName s).toList)).head?
              = some c := by
            cases ss <;> simp [Text.join, hname]
          rw [hhead]
          rintro ⟨rfl⟩
          exact hslash List.mem_cons_self

/-- **Paths can be read back.** A legible path is the one that is read from how it is written. -/
theorem IsLegible.ofString_toString {p : Path} (h : p.IsLegible) : ofString p.toString = p := by
  have hsteps := h.filterMap_cut
  rw [ofString, toList_toString]
  rcases p with ⟨_ | _, steps⟩
  · have hrelative : ((Text.join ['/'] (steps.map fun s => (stepName s).toList)).head? == some '/')
        = false := beq_false_of_ne h.head?_ne
    rw [if_neg Bool.false_ne_true, List.nil_append, hrelative, hsteps]
  · -- The slash in front only makes an empty part.
    rw [if_pos rfl, List.singleton_append,
      Text.cut_cons_of_pos (p := (· == '/')) (beq_self_eq_true '/')]
    exact congrArg (Path.mk true) hsteps

end Path

end SpecDoc
