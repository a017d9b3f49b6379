import Mathlib.Logic.Relation
import SpecDoc.Proofs.Path.Under

/-!
# Spellings of a path

A path can be written in many ways: with points and empty parts among its components, and with detours
into a directory and up again. Its normal form is the same for all of them, and it does not matter
whether a path is normalized before another one is followed from it. Files are known by their normal
paths, so every spelling leads to the same file.

* `ofString_joinText`: one written path behind another one is the path that is followed from there;
* `isNormalForm_normalForm`: how a normalized path is written;
* `normalize_join_normalize`: a path is followed from a normalized one as it is from any other;
* `sameFile_of_spelledAlike`: what does not depend on the spelling;
* `normalForm_laws`: all of this for written paths.
-/

namespace SpecDoc

open Text

namespace Path

/-! ## Written paths -/

/-- Whether a written path starts at the root. -/
def IsRooted (s : String) : Prop := s.toList.head? = some '/'

instance (s : String) : Decidable (IsRooted s) :=
  inferInstanceAs (Decidable (s.toList.head? = some '/'))

/-- The parts of a written path between its slashes. -/
def partsOf (s : String) : List (List Char) := cut (· == '/') s.toList

/-- The components of a written path are its parts that are not empty. -/
def components (s : String) : List (List Char) := (partsOf s).filter (· ≠ [])

/-- A written path behind another one: with a slash between them, unless one is there, and by itself if it
starts at the root. -/
def joinText (a b : String) : String :=
  if IsRooted b then b
  else if a = "" ∨ a.toList.getLast? = some '/' then a ++ b
  else a ++ "/" ++ b

/-- The normal form of a written path. -/
def normalForm (s : String) : String := (ofString s).normalize.toString

/-- A path is read as absolute if it starts at the root. -/
theorem absolute_ofString (s : String) : (ofString s).absolute = true ↔ IsRooted s := by
  rw [ofString, IsRooted]
  exact beq_iff_eq

/-- Two written paths with a slash between them have the steps of both. -/
theorem filterMap_cut_append (as bs : List Char) :
    (cut (· == '/') (as ++ '/' :: bs)).filterMap stepOfPart
      = (cut (· == '/') as).filterMap stepOfPart ++ (cut (· == '/') bs).filterMap stepOfPart := by
  have hslash : ('/' == '/') = true := rfl
  rw [cut_append (p := (· == '/')) hslash, List.filterMap_append]

/-- **Joining written paths.** One written path behind another one is read as the path that is followed
from there. -/
theorem ofString_joinText (a b : String) :
    ofString (joinText a b) = (ofString a).join (ofString b) := by
  by_cases hb : IsRooted b
  · have habsolute : (ofString b).absolute = true := (absolute_ofString b).2 hb
    rw [joinText, if_pos hb, join, if_pos habsolute]
  · have hrelative : (ofString b).absolute = false :=
      Bool.eq_false_iff.2 fun h => hb ((absolute_ofString b).1 h)
    rw [joinText, if_neg hb, join_of_relative hrelative]
    by_cases ha : a = ""
    · rw [if_pos (.inl ha), ha, String.empty_append]
      show ofString b = ⟨false, (ofString b).steps⟩
      rw [← hrelative]
    -- What is written first has a first character, so it starts at the root alone or with more behind it.
    have hne : a.toList ≠ [] := fun h => ha (String.toList_inj.1 h)
    have hhead : ∀ r, (a.toList ++ r).head? = a.toList.head? := by
      intro r
      exact List.head?_append_of_ne_nil _ hne
    by_cases hlast : a.toList.getLast? = some '/'
    · rw [if_pos (.inr hlast)]
      obtain ⟨as, has⟩ := List.getLast?_eq_some_iff.1 hlast
      have hsteps : (ofString a).steps = (cut (· == '/') as).filterMap stepOfPart := by
        rw [ofString, has, filterMap_cut_append]
        exact List.append_nil _
      rw [hsteps, ofString, String.toList_append, hhead, has, List.append_assoc,
        List.singleton_append, filterMap_cut_append, ofString, has]
      rfl
    · rw [if_neg (by simp [ha, hlast])]
      have hslash : "/".toList = ['/'] := rfl
      rw [ofString, String.toList_append, String.toList_append, List.append_assoc, hhead, hslash,
        List.singleton_append, filterMap_cut_append]
      rfl

/-! ## Normal forms -/

/-- Steps that have nothing to fold go up first and then into names, and they do not go up from the
root. -/
theorem Folded.exists_eq_append {absolute : Bool} {last : List PathStep} (h : Folded absolute last) :
    ∃ k names, last = names ++ List.replicate k .up ∧ PathStep.up ∉ names ∧
      (absolute = true → k = 0) := by
  induction last with
  | nil => exact ⟨0, [], rfl, List.not_mem_nil, fun _ => rfl⟩
  | cons s last ih =>
      cases s with
      | into name =>
          obtain ⟨k, names, hlast, hup, hroot⟩ := ih h.of_cons
          refine ⟨k, .into name :: names, by rw [hlast, List.cons_append], ?_, hroot⟩
          rw [List.mem_cons, not_or]
          exact ⟨by simp, hup⟩
      | up =>
          obtain ⟨rfl, hups⟩ := h
          refine ⟨last.length + 1, [], ?_, List.not_mem_nil, fun hroot => by cases hroot⟩
          rw [List.nil_append, List.replicate_succ, ← List.eq_replicate_of_mem hups]

/-- The components of a legible path that is written are the names of its steps. -/
theorem IsLegible.components_toString {p : Path} (h : p.IsLegible) :
    components p.toString = p.steps.map fun s => (stepName s).toList := by
  have hnames : ∀ w ∈ p.steps.map fun s => (stepName s).toList, '/' ∉ w ∧ w ≠ [] := by
    intro w hw
    obtain ⟨s, hs, rfl⟩ := List.mem_map.1 hw
    obtain ⟨hslash, hread⟩ := h.steps s hs
    refine ⟨hslash, fun hempty => ?_⟩
    rw [hempty] at hread
    cases hread
  -- The slash of the root only makes one more empty part.
  have hroot : (cut (· == '/') p.toString.toList).filter (· ≠ [])
      = (cut (· == '/') (Text.join ['/'] (p.steps.map fun s => (stepName s).toList))).filter
          (· ≠ []) := by
    rw [toList_toString]
    split
    · rw [List.singleton_append, cut_cons_of_pos (p := (· == '/')) (beq_self_eq_true '/')]
      rfl
    · rw [List.nil_append]
  rw [components, partsOf, hroot]
  by_cases hsteps : p.steps = []
  · rw [hsteps]
    rfl
  · rw [cut_join (fun w hw => (hnames w hw).1) (by simp [hsteps])]
    exact List.filter_eq_self.2 fun w hw => by simpa using (hnames w hw).2

/-- How a path in normal form is written: no component is a point, and pairs of points only stand in front,
and not behind the root. -/
structure IsNormalForm (s : String) : Prop where
  point_notMem : ['.'] ∉ components s
  exists_ups : ∃ k names, components s = List.replicate k ['.', '.'] ++ names ∧
    ['.', '.'] ∉ names ∧ (IsRooted s → k = 0)

/-- A legible path in normal form is written like that. -/
theorem IsNormal.isNormalForm {p : Path} (h : p.IsNormal) (hlegible : p.IsLegible) :
    IsNormalForm p.toString := by
  obtain ⟨k, names, hlast, hup, hroot⟩ := h.folded.exists_eq_append
  have hsteps : p.steps = List.replicate k .up ++ names.reverse := by
    rw [← List.reverse_reverse p.steps, hlast, List.reverse_append, List.reverse_replicate]
  constructor
  · intro hpoint
    rw [hlegible.components_toString] at hpoint
    obtain ⟨s, hs, hname⟩ := List.mem_map.1 hpoint
    have hread := (hlegible.steps s hs).2
    rw [hname] at hread
    cases hread
  · refine ⟨k, names.reverse.map fun s => (stepName s).toList, ?_, ?_, ?_⟩
    · rw [hlegible.components_toString, hsteps, List.map_append, List.map_replicate]
      rfl
    · intro hpair
      obtain ⟨s, hs, hname⟩ := List.mem_map.1 hpair
      have hmem : s ∈ p.steps := by
        rw [hsteps]
        exact List.mem_append_right _ hs
      have hread := (hlegible.steps s hmem).2
      rw [hname] at hread
      cases hread
      exact hup (List.mem_reverse.1 hs)
    · intro hrooted
      apply hroot
      rw [← absolute_ofString, hlegible.ofString_toString] at hrooted
      exact hrooted

/-- The normal form of a written path is one. -/
theorem isNormalForm_normalForm (s : String) : IsNormalForm (normalForm s) :=
  (isNormal_normalize (ofString s)).isNormalForm (isLegible_ofString s).normalize

/-- What is read from a normal form is the normalized path. -/
theorem ofString_normalForm (s : String) : ofString (normalForm s) = (ofString s).normalize :=
  (isLegible_ofString s).normalize.ofString_toString

/-- **Normalizing before joining.** A path is followed from a normalized one as it is from any other. -/
theorem normalize_join_normalize (p q : Path) :
    (p.normalize.join q).normalize = (p.join q).normalize := by
  by_cases hq : q.absolute = true
  · rw [join, join, if_pos hq, if_pos hq]
  · have hrelative : q.absolute = false := Bool.eq_false_iff.2 hq
    have hfolded : Folded p.absolute (p.steps.foldl (fold p.absolute) []) :=
      Folded.foldl (show Folded p.absolute [] from trivial) p.steps
    -- The steps that were folded once are folded to themselves.
    have hagain : p.normalize.steps.foldl (fold p.absolute) []
        = p.steps.foldl (fold p.absolute) [] := foldl_reverse_eq_self hfolded
    rw [join_of_relative hrelative, join_of_relative hrelative]
    show Path.mk p.absolute
      ((p.normalize.steps ++ q.steps).foldl (fold p.absolute) []).reverse = _
    rw [List.foldl_append, hagain, ← List.foldl_append]
    rfl

/-! ## Spellings -/

/-- Whether a part of a written path is the name of an entry. -/
def IsName (part : List Char) : Prop := part ≠ [] ∧ part ≠ ['.'] ∧ part ≠ ['.', '.']

/-- A name is a step into its entry. -/
theorem IsName.stepOfPart_eq {part : List Char} (h : IsName part) :
    stepOfPart part = some (.into (String.ofList part)) := by
  obtain ⟨hempty, hpoint, hpair⟩ := h
  rw [stepOfPart, if_neg (by simp [hempty, hpoint]), if_neg hpair]

/-- `Shortens ps qs`: the parts `qs` are the parts `ps` without one that is empty or a point, or without a name and
the pair of points behind it. -/
inductive Shortens : List (List Char) → List (List Char) → Prop where
  | empty (as bs : List (List Char)) : Shortens (as ++ [] :: bs) (as ++ bs)
  | point (as bs : List (List Char)) : Shortens (as ++ ['.'] :: bs) (as ++ bs)
  | detour (as bs : List (List Char)) {part : List Char} (hpart : IsName part) :
      Shortens (as ++ part :: ['.', '.'] :: bs) (as ++ bs)

/-- Two written paths that only differ by empty parts, points and detours. -/
structure SpelledAlike (a b : String) : Prop where
  rooted : IsRooted a ↔ IsRooted b
  parts : Relation.EqvGen Shortens (partsOf a) (partsOf b)

/-- What is left out makes no difference to the steps that are folded, whatever was folded before. -/
theorem Shortens.foldl_eq {ps qs : List (List Char)} (h : Shortens ps qs) (absolute : Bool)
    (last : List PathStep) :
    (ps.filterMap stepOfPart).foldl (fold absolute) last
      = (qs.filterMap stepOfPart).foldl (fold absolute) last := by
  cases h with
  | empty as bs =>
      have hnone : stepOfPart [] = none := rfl
      rw [List.filterMap_append, List.filterMap_cons_none hnone, ← List.filterMap_append]
  | point as bs =>
      have hnone : stepOfPart ['.'] = none := rfl
      rw [List.filterMap_append, List.filterMap_cons_none hnone, ← List.filterMap_append]
  | detour as bs hpart =>
      have hup : stepOfPart ['.', '.'] = some .up := rfl
      rw [List.filterMap_append, List.filterMap_cons_some hpart.stepOfPart_eq,
        List.filterMap_cons_some hup, List.filterMap_append, List.foldl_append, List.foldl_append]
      -- The step up undoes the one into the name.
      rfl

/-- Parts that are left out and put in, however often, make no difference to the steps that are folded. -/
theorem foldl_eq_of_eqvGen {ps qs : List (List Char)} (h : Relation.EqvGen Shortens ps qs)
    (absolute : Bool) (last : List PathStep) :
    (ps.filterMap stepOfPart).foldl (fold absolute) last
      = (qs.filterMap stepOfPart).foldl (fold absolute) last := by
  induction h with
  | rel ps qs hshort => exact hshort.foldl_eq absolute last
  | refl ps => rfl
  | symm ps qs _ ih => exact ih.symm
  | trans ps qs rs _ _ hleft hright => exact hleft.trans hright

/-- The steps of two spellings are folded to the same. -/
theorem SpelledAlike.foldl_eq {a b : String} (h : SpelledAlike a b) (absolute : Bool)
    (last : List PathStep) :
    (ofString a).steps.foldl (fold absolute) last = (ofString b).steps.foldl (fold absolute) last :=
  foldl_eq_of_eqvGen h.parts absolute last

/-- Two spellings are as absolute as each other. -/
theorem SpelledAlike.absolute_eq {a b : String} (h : SpelledAlike a b) :
    (ofString a).absolute = (ofString b).absolute := by
  rw [Bool.eq_iff_iff, absolute_ofString, absolute_ofString]
  exact h.rooted

/-- Two spellings are followed from a path to the same place. -/
theorem SpelledAlike.normalize_join_eq {a b : String} (h : SpelledAlike a b) (p : Path) :
    (p.join (ofString a)).normalize = (p.join (ofString b)).normalize := by
  have habsolute := h.absolute_eq
  by_cases ha : (ofString a).absolute = true
  · have hb : (ofString b).absolute = true := habsolute ▸ ha
    rw [join, join, if_pos ha, if_pos hb, normalize, normalize, ha, hb, h.foldl_eq]
  · have ha' : (ofString a).absolute = false := Bool.eq_false_iff.2 ha
    have hb' : (ofString b).absolute = false := habsolute ▸ ha'
    rw [join_of_relative ha', join_of_relative hb', normalize, normalize]
    show Path.mk p.absolute _ = Path.mk p.absolute _
    rw [List.foldl_append, List.foldl_append, h.foldl_eq]

/-- Two spellings have the same normal path. -/
theorem SpelledAlike.normalize_eq {a b : String} (h : SpelledAlike a b) :
    (ofString a).normalize = (ofString b).normalize := by
  rw [normalize, normalize, h.absolute_eq, h.foldl_eq]

/-- Two written paths that are taken for the same file: as what is resolved, as what an import names, and
as what is looked up among given files or kept as one of them. -/
structure SameFile (a b : String) : Prop where
  normalForm_eq : normalForm a = normalForm b
  resolve_eq : ∀ (lib : Library) (c : Cancellation), lib.resolve c a = lib.resolve c b
  importTarget_eq : ∀ (importing : Path) (raw raw' : String),
    String.ofList (percentDecode raw.toList) = a → String.ofList (percentDecode raw'.toList) = b →
      importTarget importing raw = importTarget importing raw'
  read_eq : ∀ files, (Library.ofFiles files).read (ofString a) = (Library.ofFiles files).read (ofString b)
  ofFiles_eq : ∀ files files' contents,
    Library.ofFiles (files ++ (a, contents) :: files')
      = Library.ofFiles (files ++ (b, contents) :: files')

/-- The spelling of a path makes no difference. -/
theorem sameFile_of_spelledAlike {a b : String} (h : SpelledAlike a b) : SameFile a b := by
  have hnormal := h.normalize_eq
  constructor
  · rw [normalForm, normalForm, hnormal]
  · intro lib c
    rw [Library.resolve, Library.resolve, hnormal]
  · rintro importing raw raw' rfl rfl
    exact h.normalize_join_eq importing.parent
  · intro files
    show Library.findFile _ (ofString a).normalize = Library.findFile _ (ofString b).normalize
    rw [hnormal]
  · intro files files' contents
    have hentries : (files ++ (a, contents) :: files').map (fun f => ((ofString f.1).normalize, f.2))
        = (files ++ (b, contents) :: files').map fun f => ((ofString f.1).normalize, f.2) := by
      rw [List.map_append, List.map_append, List.map_cons, List.map_cons]
      dsimp only
      rw [hnormal]
    unfold Library.ofFiles
    rw [hentries]

/-- **Normal forms of written paths.** The normal form has no points, and pairs of points in front only;
it is its own normal form; and it can stand for the path before another one is followed from it. So the
target of an import is normal, and two spellings lead to the same file. -/
theorem normalForm_laws :
    (∀ a, IsNormalForm (normalForm a)) ∧
    (∀ a, normalForm (normalForm a) = normalForm a) ∧
    (∀ a b, normalForm (joinText a b) = normalForm (joinText (normalForm a) b)) ∧
    (∀ importing raw, (importTarget importing raw).normalize = importTarget importing raw) ∧
    ∀ a b, SpelledAlike a b → SameFile a b := by
  refine ⟨isNormalForm_normalForm, ?_, ?_, ?_, fun a b => sameFile_of_spelledAlike⟩
  · intro a
    rw [normalForm, ofString_normalForm, normalize_normalize]
    rfl
  · intro a b
    rw [normalForm, normalForm, ofString_joinText, ofString_joinText, ofString_normalForm,
      normalize_join_normalize]
  · intro importing raw
    exact normalize_normalize _

example : normalForm (joinText "/a//b/./" "../../../c/d/..") = "/c" := by decide +kernel

/-- A path with a point, an empty part and a detour is spelled like the one without them, which is its normal form.
Both lead to the same file, and an import followed from there leads out of the directory. -/
theorem normalForm_laws_tour :
    SpelledAlike "docs/./tour//../intro.md" "docs/intro.md" ∧
      SameFile "docs/./tour//../intro.md" "docs/intro.md" ∧
      normalForm "docs/./tour//../intro.md" = "docs/intro.md" ∧
      importTarget (ofString "docs/./tour//../intro.md") "./../b%20c.md" = ofString "b c.md" := by
  have hparts : partsOf "docs/./tour//../intro.md"
      = ["docs".toList, ['.'], "tour".toList, [], ['.', '.'], "intro.md".toList] := by
    decide +kernel
  have hparts' : partsOf "docs/intro.md" = ["docs".toList, "intro.md".toList] := by decide +kernel
  have halike : SpelledAlike "docs/./tour//../intro.md" "docs/intro.md" := by
    constructor
    · exact iff_of_false (by decide +kernel) (by decide +kernel)
    · rw [hparts, hparts']
      have hempty := Shortens.empty ["docs".toList, ['.'], "tour".toList] [['.', '.'], "intro.md".toList]
      have hpoint := Shortens.point ["docs".toList] ["tour".toList, ['.', '.'], "intro.md".toList]
      have htour : IsName "tour".toList := ⟨by decide, by decide, by decide⟩
      have hdetour := Shortens.detour ["docs".toList] ["intro.md".toList] htour
      exact ((Relation.EqvGen.rel _ _ hempty).trans _ _ _ (.rel _ _ hpoint)).trans _ _ _
        (.rel _ _ hdetour)
  exact ⟨halike, normalForm_laws.2.2.2.2 _ _ halike, by decide +kernel, by decide +kernel⟩

end Path

end SpecDoc
