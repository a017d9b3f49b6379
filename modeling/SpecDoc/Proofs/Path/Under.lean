import SpecDoc.Import.Resolve
import SpecDoc.Proofs.Path

/-!
# Paths under a directory

A path that does not leave the current directory can be followed from any other directory. Normalizing
does the same to it there, as long as it comes out inside: a step up that has nothing to undo stays in
front for good.

* `IsInside` are the paths that do not leave the current directory, as far as their first step tells;
* `normalize_join_of_isInside`: normalizing under a directory;
* `importTarget_join`: imports under a directory;
* `underDir` puts a directory before a written path.
-/

namespace SpecDoc

namespace Path

/-- Whether a path is relative and does not start with a step up. -/
structure IsInside (p : Path) : Prop where
  relative : p.absolute = false
  head?_ne : p.steps.head? ≠ some .up

instance (p : Path) : Decidable p.IsInside :=
  decidable_of_iff (p.absolute = false ∧ p.steps.head? ≠ some .up)
    ⟨fun h => ⟨h.1, h.2⟩, fun h => ⟨h.1, h.2⟩⟩

/-- Whether a path leads down from the current directory, from one name to the next. -/
structure IsDirectory (p : Path) : Prop where
  relative : p.absolute = false
  down : PathStep.up ∉ p.steps

instance (p : Path) : Decidable p.IsDirectory :=
  decidable_of_iff (p.absolute = false ∧ PathStep.up ∉ p.steps)
    ⟨fun h => ⟨h.1, h.2⟩, fun h => ⟨h.1, h.2⟩⟩

/-! ## Steps up -/

/-- A step up that has nothing to undo remains. -/
theorem up_mem_foldl_fold {last : List PathStep} (h : PathStep.up ∈ last) (steps : List PathStep) :
    PathStep.up ∈ steps.foldl (fold false) last := by
  induction steps generalizing last with
  | nil => exact h
  | cons s steps ih =>
      refine ih ?_
      cases s with
      | into name => exact List.mem_cons_of_mem _ h
      | up =>
          rcases last with _ | ⟨_ | name, last⟩
          · cases h
          · exact List.mem_cons_self
          · exact (List.mem_cons.1 h).resolve_left (by simp)

/-- If no step up remains, nothing before the steps was undone. -/
theorem foldl_fold_append {steps last : List PathStep} (base : List PathStep)
    (h : PathStep.up ∉ steps.foldl (fold false) last) :
    steps.foldl (fold false) (last ++ base) = steps.foldl (fold false) last ++ base := by
  induction steps generalizing last with
  | nil => rfl
  | cons s steps ih =>
      rw [List.foldl_cons] at h
      have hfold : fold false (last ++ base) s = fold false last s ++ base := by
        cases s with
        | into name => rfl
        | up =>
            rcases last with _ | ⟨_ | name, last⟩
            · exact absurd (up_mem_foldl_fold List.mem_cons_self steps) h
            · exact absurd (up_mem_foldl_fold List.mem_cons_self steps) h
            · rfl
      rw [List.foldl_cons, List.foldl_cons, hfold, ih h]

/-- Steps that have nothing to fold go up first. -/
theorem Folded.getLast?_eq {absolute : Bool} {last : List PathStep} (h : Folded absolute last)
    (hup : PathStep.up ∈ last) : last.getLast? = some .up := by
  induction last with
  | nil => cases hup
  | cons s last ih =>
      cases s with
      | into name =>
          have hlast := ih h.of_cons ((List.mem_cons.1 hup).resolve_left (by simp))
          rw [List.getLast?_cons, hlast]
          rfl
      | up =>
          -- What is before a step up that was not undone are steps up as well.
          have hall : ∀ s ∈ PathStep.up :: last, s = .up := by
            rw [List.forall_mem_cons]
            exact ⟨rfl, h.2⟩
          rw [List.getLast?_eq_some_getLast (List.cons_ne_nil _ _),
            hall _ (List.getLast_mem (List.cons_ne_nil _ _))]

/-- A normal path that does not start with a step up has none. -/
theorem IsInside.up_not_mem {p : Path} (h : p.IsInside) (hp : p.IsNormal) :
    PathStep.up ∉ p.steps := by
  intro hup
  have hlast := hp.folded.getLast?_eq (List.mem_reverse.2 hup)
  rw [List.getLast?_reverse] at hlast
  exact h.head?_ne hlast

/-! ## Directories -/

section Directory

variable {dir : Path} (hdir : dir.IsDirectory) {p q : Path}

/-- A relative path is followed from a directory by its steps. -/
theorem join_of_relative (hq : q.absolute = false) :
    p.join q = ⟨p.absolute, p.steps ++ q.steps⟩ := by
  rw [join, if_neg (by simp [hq])]

/-- What is followed from a relative path is as relative as it was. -/
theorem absolute_join (hp : p.absolute = false) : (p.join q).absolute = q.absolute := by
  cases hq : q.absolute with
  | true => rw [join, if_pos hq, hq]
  | false => rw [join_of_relative hq, hp]

include hdir

/-- Normalizing does the same under a directory, if nothing leaves it. -/
theorem normalize_join_of_isInside (hp : p.normalize.IsInside) :
    (dir.join p).normalize = dir.join p.normalize := by
  have hrelative : p.absolute = false := hp.relative
  have hup := hp.up_not_mem (isNormal_normalize p)
  -- The steps of the path are folded behind those of the directory as if these were not there.
  have hfold : p.steps.foldl (fold false) dir.steps.reverse
      = p.steps.foldl (fold false) [] ++ dir.steps.reverse := by
    have hfolded : PathStep.up ∉ p.steps.foldl (fold false) [] := by
      intro hmem
      refine hup ?_
      rw [normalize, hrelative]
      exact List.mem_reverse.2 hmem
    exact foldl_fold_append dir.steps.reverse hfolded
  -- The directory itself has nothing to fold.
  have hdown : dir.steps.foldl (fold false) [] = dir.steps.reverse := by
    have hfolded : Folded false dir.steps.reverse := by
      have hall : ∀ s ∈ dir.steps.reverse, s ≠ .up := by
        rintro s hs rfl
        exact hdir.down (List.mem_reverse.1 hs)
      generalize dir.steps.reverse = last at hall
      induction last with
      | nil => trivial
      | cons s last ih =>
          rw [List.forall_mem_cons] at hall
          cases s with
          | into name => exact ih hall.2
          | up => exact absurd rfl hall.1
    have hsteps := foldl_reverse_eq_self hfolded
    rwa [List.reverse_reverse] at hsteps
  rw [join_of_relative hrelative, join_of_relative (q := p.normalize) hrelative, normalize, normalize,
    hdir.relative, hrelative, List.foldl_append, hdown, hfold, List.reverse_append,
    List.reverse_reverse]

/-- Paths that are different remain so under a directory. -/
theorem IsDirectory.join_injective (h : dir.join p = dir.join q) : p = q := by
  have habsolute := congrArg Path.absolute h
  rw [absolute_join hdir.relative, absolute_join hdir.relative] at habsolute
  obtain ⟨_ | _, steps⟩ := p
  · rw [join_of_relative rfl, join_of_relative habsolute.symm, Path.mk.injEq,
      List.append_cancel_left_eq] at h
    obtain ⟨absolute, steps'⟩ := q
    cases habsolute
    exact congrArg (Path.mk false) h.2
  · rw [join, join, if_pos rfl, if_pos habsolute.symm] at h
    exact h

omit hdir in
/-- The directory of a file is under the same directory as the file. -/
theorem parent_join (hp : p.absolute = false) (hne : p.steps ≠ []) :
    (dir.join p).parent = dir.join p.parent := by
  have hempty : (dir.steps ++ p.steps).isEmpty = false := by simp [hne]
  have hempty' : p.steps.isEmpty = false := by simp [hne]
  rw [join_of_relative hp, parent, parent, hempty, hempty', if_neg (by simp), if_neg (by simp),
    join_of_relative (p := dir) (q := ⟨p.absolute, p.steps.dropLast⟩) hp, List.dropLast_append_of_ne_nil hne]

end Directory

end Path

open SpecDoc.Path

/-- An import leads to the same file under a directory, if it does not leave it. -/
theorem importTarget_join {dir p : Path} (hdir : dir.IsDirectory) (hp : p.absolute = false)
    (hne : p.steps ≠ []) {raw : String} (htarget : (importTarget p raw).IsInside) :
    importTarget (dir.join p) raw = dir.join (importTarget p raw) := by
  unfold importTarget at htarget ⊢
  dsimp only at htarget ⊢
  generalize Path.ofString (String.ofList (Text.percentDecode raw.toList)) = q at htarget ⊢
  have hparent : p.parent.absolute = false := by
    rw [Path.parent]
    split
    · rfl
    · exact hp
  have hq : q.absolute = false := by
    rw [← absolute_join hparent]
    exact htarget.relative
  have hassoc : (dir.join p.parent).join q = dir.join (p.parent.join q) := by
    rw [join_of_relative hq, join_of_relative hparent, join_of_relative hq,
      join_of_relative (p := dir) (q := ⟨p.parent.absolute, p.parent.steps ++ q.steps⟩) hparent,
      List.append_assoc]
  rw [parent_join hp hne, hassoc, normalize_join_of_isInside hdir htarget]

/-! ## Written paths -/

/-- A written path with a directory before it. -/
def underDir (dir : String) (path : String) : String :=
  ((Path.ofString dir).join (Path.ofString path)).toString

example : underDir "docs/v2" "./guide//a b.md" = "docs/v2/guide/a b.md" := by decide +kernel

/-- A written path with a directory before it is the path followed from the directory. -/
theorem ofString_underDir (dir path : String) :
    Path.ofString (underDir dir path) = (Path.ofString dir).join (Path.ofString path) :=
  ((isLegible_ofString dir).join (isLegible_ofString path)).ofString_toString

/-- The directory before a path that is read back. -/
theorem underDir_toString {dir : String} {p : Path} (hp : p.IsLegible) :
    underDir dir p.toString = ((Path.ofString dir).join p).toString := by
  rw [underDir, hp.ofString_toString]

end SpecDoc
