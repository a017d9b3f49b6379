import Mathlib.Data.List.Nodup
import Mathlib.Logic.Relation
import SpecDoc.Proofs.Import.Expansion
import SpecDoc.Proofs.Path

/-!
# Resolution

A resolution opens one file after the other and keeps the files on the way to it as a chain.
`Opened` says once what can happen to a file that is opened, and the facts about whole resolutions
follow by induction on the bound of the chain.

* `resolveFile_succ_eq_some_iff`: what can happen to a file;
* `exists_resolveFile_eq_some`: the bound on the chain is never met;
* `expands_of_resolveFile`: a document that comes out is what the file expands to;
* `resolveFile_eq_error`: what an error can be.
-/

namespace SpecDoc

open Resolution

namespace Library

/-! ## Opening a file -/

/-- Whether the file at a path can be read and, with the given start, is the document `d`. -/
def Loads (lib : Library) (start : Start) (path : Path) (d : Document) : Prop :=
  ∃ source, lib.read path = .ok source ∧
    Document.parse start (some path.toString) source = .ok d

/-- A file is one document. -/
theorem Loads.unique {lib : Library} {start : Start} {path : Path} {d d' : Document}
    (h : lib.Loads start path d) (h' : lib.Loads start path d') : d = d' := by
  obtain ⟨source, hread, hparse⟩ := h
  obtain ⟨source', hread', hparse'⟩ := h'
  rw [hread, Except.ok.injEq] at hread'
  subst hread'
  rw [hparse, Except.ok.injEq] at hparse'
  exact hparse'

/-- The nodes of a file are as they are read. -/
theorem Loads.asRead {lib : Library} {start : Start} {path : Path} {d : Document}
    (h : lib.Loads start path d) : Node.Everywhere Node.AsRead d.contents := by
  obtain ⟨source, -, hparse⟩ := h
  exact Document.everywhere_asRead_of_parse hparse

/-- Resolves the file of a call. -/
def resolveCall (lib : Library) (c : Cancellation) (fuel : ℕ) (call : Call) : Option Resolution :=
  lib.resolveFile c fuel call.path call.start call.chain call.reads

/-- The result for an import of a file, where `resolve` resolves files. -/
def importWith (resolve : Call → Option Resolution) (path : Path) (chain : List Path)
    (i : String × Option Span) (reads : ℕ) : Option Resolution :=
  (resolve ⟨importTarget path i.1, .imported, chain ++ [path], reads⟩).map fun r =>
    (r.1.mapError (locate (importTarget path i.1) i.2), r.2)

/-- The result for an import of a file. -/
def resolveImport (lib : Library) (c : Cancellation) (fuel : ℕ) (path : Path) (chain : List Path)
    (i : String × Option Span) (reads : ℕ) : Option Resolution :=
  (lib.resolveFile c fuel (importTarget path i.1) .imported (chain ++ [path]) reads).map fun r =>
    (r.1.mapError (locate (importTarget path i.1) i.2), r.2)

/-- A document for an import is that of its file. -/
theorem resolveFile_of_resolveImport_eq_ok {lib : Library} {c : Cancellation} {fuel : ℕ}
    {path : Path} {chain : List Path} {i : String × Option Span} {reads reads' : ℕ} {d : Document}
    (h : lib.resolveImport c fuel path chain i reads = some (.ok d, reads')) :
    lib.resolveFile c fuel (importTarget path i.1) .imported (chain ++ [path]) reads
      = some (.ok d, reads') := by
  obtain ⟨⟨r, after⟩, hfile, heq⟩ := Option.map_eq_some_iff.1 h
  cases r with
  | error e => cases heq
  | ok d' =>
      cases heq
      exact hfile

/-- An error for an import is that of its file, and the place of the import. -/
theorem exists_of_resolveImport_eq_error {lib : Library} {c : Cancellation} {fuel : ℕ}
    {path : Path} {chain : List Path} {i : String × Option Span} {reads reads' : ℕ}
    {e : CompileError}
    (h : lib.resolveImport c fuel path chain i reads = some (.error e, reads')) :
    ∃ e', lib.resolveFile c fuel (importTarget path i.1) .imported (chain ++ [path]) reads
      = some (.error e', reads') ∧ e = locate (importTarget path i.1) i.2 e' := by
  obtain ⟨⟨r, after⟩, hfile, heq⟩ := Option.map_eq_some_iff.1 h
  cases r with
  | ok d => cases heq
  | error e' =>
      cases heq
      exact ⟨e', hfile, rfl⟩

/-- What can happen to a file that is opened behind a chain of files: the run was cancelled, the
file is on the chain, it cannot be read, it is malformed, or its imports are resolved in turn. -/
inductive Opened (lib : Library) (c : Cancellation) (fuel : ℕ) (path : Path) (start : Start)
    (chain : List Path) (reads : ℕ) : Resolution → Prop where
  | cancelled (hcancelled : c.isCancelled reads = true) :
      Opened lib c fuel path start chain reads (refuse .cancelled path chain reads)
  | cycle (hgoing : c.isCancelled reads = false) (hchain : path ∈ chain) :
      Opened lib c fuel path start chain reads (refuse .cycle path chain reads)
  | unreadable {f : ReadFailure} (hgoing : c.isCancelled reads = false) (hchain : path ∉ chain)
      (hread : lib.read path = .error f) :
      Opened lib c fuel path start chain reads (refuse (problemOf f) path chain (reads + 1))
  | malformed {source : String} {e : ParseError} (hgoing : c.isCancelled reads = false)
      (hchain : path ∉ chain) (hread : lib.read path = .ok source)
      (hparse : Document.parse start (some path.toString) source = .error e) :
      Opened lib c fuel path start chain reads
        (.error (.parse { e.withSource source with chain := chain.map Path.toString }), reads + 1)
  | resolved {d : Document} {results : List (Except CompileError Document)} {reads' : ℕ}
      (hgoing : c.isCancelled reads = false) (hchain : path ∉ chain) (hload : lib.Loads start path d)
      (heach : forEach (lib.resolveImport c fuel path chain) d.imports (reads + 1)
        = some (results, reads')) :
      Opened lib c fuel path start chain reads ((results.mapM id).map d.splice, reads')

/-- A file that is a document is as good as its imports are, however these are resolved. -/
theorem openFile_of_loads {lib : Library} {c : Cancellation} {resolve : Call → Option Resolution}
    {call : Call} {d : Document} (hgoing : c.isCancelled call.reads = false)
    (hchain : call.path ∉ call.chain) (hload : lib.Loads call.start call.path d) :
    lib.openFile c resolve call
      = (forEach (importWith resolve call.path call.chain) d.imports (call.reads + 1)).map fun p =>
        ((p.1.mapM id).map d.splice, p.2) := by
  obtain ⟨source, hread, hparse⟩ := hload
  rw [openFile, if_neg (by simp [hgoing]), if_neg hchain, hread]
  simp only [parseFile, hparse]
  unfold importWith
  generalize forEach _ d.imports (call.reads + 1) = each
  cases each with
  | none => rfl
  | some p =>
      dsimp only [Option.map_some]
      cases p.1.mapM id <;> rfl

/-- A file that is a document is as good as its imports are. -/
theorem resolveFile_of_loads {lib : Library} {c : Cancellation} {fuel : ℕ} {path : Path}
    {start : Start} {chain : List Path} {reads : ℕ} {d : Document}
    (hgoing : c.isCancelled reads = false) (hchain : path ∉ chain) (hload : lib.Loads start path d) :
    lib.resolveFile c (fuel + 1) path start chain reads
      = (forEach (lib.resolveImport c fuel path chain) d.imports (reads + 1)).map fun p =>
        ((p.1.mapM id).map d.splice, p.2) :=
  @openFile_of_loads lib c (lib.resolveCall c fuel) ⟨path, start, chain, reads⟩ d hgoing hchain hload

/-- What happens to a file is one of the cases of `Opened`. -/
theorem resolveFile_succ_eq_some_iff {lib : Library} {c : Cancellation} {fuel : ℕ} {path : Path}
    {start : Start} {chain : List Path} {reads : ℕ} {r : Resolution} :
    lib.resolveFile c (fuel + 1) path start chain reads = some r ↔
      Opened lib c fuel path start chain reads r := by
  constructor
  · intro h
    cases hgoing : c.isCancelled reads with
    | true =>
        rw [resolveFile, openFile, if_pos hgoing] at h
        cases h
        exact .cancelled hgoing
    | false =>
        by_cases hchain : path ∈ chain
        · rw [resolveFile, openFile, if_neg (by simp [hgoing]), if_pos hchain] at h
          cases h
          exact .cycle hgoing hchain
        · cases hread : lib.read path with
          | error f =>
              rw [resolveFile, openFile, if_neg (by simp [hgoing]), if_neg hchain, hread] at h
              cases h
              exact .unreadable hgoing hchain hread
          | ok source =>
              cases hparse : Document.parse start (some path.toString) source with
              | error e =>
                  rw [resolveFile, openFile, if_neg (by simp [hgoing]), if_neg hchain, hread] at h
                  simp only [parseFile, hparse] at h
                  cases h
                  exact .malformed hgoing hchain hread hparse
              | ok d =>
                  have hload : lib.Loads start path d := ⟨source, hread, hparse⟩
                  rw [resolveFile_of_loads hgoing hchain hload] at h
                  obtain ⟨⟨results, reads'⟩, heach, rfl⟩ := Option.map_eq_some_iff.1 h
                  exact .resolved hgoing hchain hload heach
  · intro h
    cases h with
    | cancelled hcancelled => rw [resolveFile, openFile, if_pos hcancelled]
    | cycle hgoing hchain => rw [resolveFile, openFile, if_neg (by simp [hgoing]), if_pos hchain]
    | unreadable hgoing hchain hread =>
        rw [resolveFile, openFile, if_neg (by simp [hgoing]), if_neg hchain, hread]
    | malformed hgoing hchain hread hparse =>
        rw [resolveFile, openFile, if_neg (by simp [hgoing]), if_neg hchain, hread]
        simp only [parseFile, hparse]
    | resolved hgoing hchain hload heach =>
        rw [resolveFile_of_loads hgoing hchain hload, heach]
        rfl

end Library

/-! ## Several imports -/

namespace Resolution

variable {f : String × Option Span → ℕ → Option Resolution}

/-- Imports have results if the first has one and then those behind it have theirs. -/
theorem forEach_cons_eq_some_iff {i : String × Option Span} {is : List (String × Option Span)}
    {reads reads' : ℕ} {results : List (Except CompileError Document)} :
    forEach f (i :: is) reads = some (results, reads') ↔
      ∃ r between rest, f i reads = some (r, between) ∧ forEach f is between = some (rest, reads') ∧
        results = r :: rest := by
  rw [forEach]
  constructor
  · intro h
    split at h
    · cases h
    · next r between hi =>
      obtain ⟨⟨rest, after⟩, hrest, heq⟩ := Option.map_eq_some_iff.1 h
      cases heq
      exact ⟨r, between, rest, hi, hrest, rfl⟩
  · rintro ⟨r, between, rest, hi, hrest, rfl⟩
    rw [hi]
    exact Option.map_eq_some_iff.2 ⟨(rest, reads'), hrest, rfl⟩

/-- Each of several results is one for its import. -/
theorem forall₂_of_forEach {is : List (String × Option Span)} {reads reads' : ℕ}
    {results : List (Except CompileError Document)}
    (h : forEach f is reads = some (results, reads')) :
    List.Forall₂ (fun i r => ∃ before after, f i before = some (r, after)) is results := by
  induction is generalizing reads results with
  | nil =>
      cases h
      exact .nil
  | cons i is ih =>
      obtain ⟨r, between, rest, hi, hrest, rfl⟩ := forEach_cons_eq_some_iff.1 h
      exact .cons ⟨reads, between, hi⟩ (ih hrest)

/-- There are results for several imports if there is one for each. -/
theorem exists_forEach_eq_some {is : List (String × Option Span)} (reads : ℕ)
    (h : ∀ i ∈ is, ∀ reads, ∃ r, f i reads = some r) :
    ∃ results reads', forEach f is reads = some (results, reads') := by
  induction is generalizing reads with
  | nil => exact ⟨[], reads, rfl⟩
  | cons i is ih =>
      obtain ⟨⟨r, after⟩, hi⟩ := h i List.mem_cons_self reads
      obtain ⟨rest, reads', hrest⟩ := ih after fun j hj => h j (List.mem_cons_of_mem _ hj)
      exact ⟨r :: rest, reads', forEach_cons_eq_some_iff.2 ⟨r, after, rest, hi, hrest, rfl⟩⟩

/-- The first error among results is told. -/
theorem mapM_id_error_cons (e : CompileError) (results : List (Except CompileError Document)) :
    (Except.error e :: results).mapM id = .error e := by
  rw [List.mapM_cons]
  rfl

/-- A document goes in front of those behind it. -/
theorem mapM_id_ok_cons (d : Document) (results : List (Except CompileError Document)) :
    (Except.ok d :: results).mapM id = (results.mapM id).map (d :: ·) := by
  rw [List.mapM_cons]
  cases results.mapM id <;> rfl

/-- If there is no error among results, they are documents. -/
theorem eq_map_ok_of_mapM_id {results : List (Except CompileError Document)} {ds : List Document}
    (h : results.mapM id = .ok ds) : results = ds.map .ok := by
  induction results generalizing ds with
  | nil =>
      cases h
      rfl
  | cons r results ih =>
      cases r with
      | error e =>
          rw [mapM_id_error_cons] at h
          cases h
      | ok d =>
          rw [mapM_id_ok_cons] at h
          cases hrest : results.mapM id with
          | error e =>
              rw [hrest] at h
              cases h
          | ok rest =>
              rw [hrest] at h
              cases h
              rw [ih hrest]
              rfl

/-- An error that is told stands behind documents only. -/
theorem exists_append_of_mapM_id_eq_error {results : List (Except CompileError Document)}
    {e : CompileError} (h : results.mapM id = .error e) :
    ∃ (ds : List Document) (rest : List (Except CompileError Document)),
      results = ds.map .ok ++ .error e :: rest := by
  induction results with
  | nil => cases h
  | cons r results ih =>
      cases r with
      | error e' =>
          rw [mapM_id_error_cons] at h
          cases h
          exact ⟨[], results, rfl⟩
      | ok d =>
          rw [mapM_id_ok_cons] at h
          cases hrest : results.mapM id with
          | error e' =>
              rw [hrest] at h
              cases h
              obtain ⟨ds, rest, rfl⟩ := ih hrest
              exact ⟨d :: ds, rest, rfl⟩
          | ok ds =>
              rw [hrest] at h
              cases h

/-- An error that is told is among the results. -/
theorem mem_of_mapM_id_eq_error {results : List (Except CompileError Document)} {e : CompileError}
    (h : results.mapM id = .error e) : Except.error e ∈ results := by
  obtain ⟨ds, rest, rfl⟩ := exists_append_of_mapM_id_eq_error h
  simp

/-- Where an import stands does not change what kind of error it is. -/
theorem locate_cases (target : Path) (span : Option Span) (e : CompileError) :
    locate target span e = e ∨ ∃ i j, e = .importing i ∧ locate target span e = .importing j := by
  cases e with
  | importing i =>
      rw [locate]
      split
      · exact .inr ⟨i, _, rfl, rfl⟩
      · exact .inl rfl
  | parse e => exact .inl rfl
  | numbering e => exact .inl rfl
  | structural e => exact .inl rfl

end Resolution

/-! ## Whole resolutions -/

namespace Library

variable {lib : Library} {c : Cancellation} {fuel reads reads' : ℕ} {path entry : Path} {start : Start}
  {chain : List Path}

/-- Where a document comes out, its file is not on the chain, the file is a document, and a document
came out for each of its imports. -/
theorem exists_of_resolveFile_eq_ok {d : Document}
    (h : lib.resolveFile c fuel path start chain reads = some (.ok d, reads')) :
    ∃ fuel' d₀ ds, fuel = fuel' + 1 ∧ path ∉ chain ∧ lib.Loads start path d₀ ∧
      d = d₀.splice ds ∧
      List.Forall₂ (fun i d => ∃ before after, lib.resolveFile c fuel' (importTarget path i.1)
        .imported (chain ++ [path]) before = some (.ok d, after)) d₀.imports ds := by
  cases fuel with
  | zero => cases h
  | succ fuel =>
      rw [resolveFile_succ_eq_some_iff] at h
      generalize hr : ((.ok d, reads') : Resolution) = r at h
      cases h with
      | cancelled _ => cases hr
      | cycle _ _ => cases hr
      | unreadable _ _ _ => cases hr
      | malformed _ _ _ _ => cases hr
      | @resolved d₀ results _ _ hchain hload heach =>
          cases hall : results.mapM id with
          | error e =>
              rw [hall] at hr
              cases hr
          | ok ds =>
              rw [hall] at hr
              cases hr
              obtain rfl := eq_map_ok_of_mapM_id hall
              refine ⟨fuel, d₀, ds, rfl, hchain, hload, rfl, ?_⟩
              refine (List.forall₂_map_right_iff.1 (forall₂_of_forEach heach)).imp ?_
              rintro i d ⟨before, after, hi⟩
              exact ⟨before, after, resolveFile_of_resolveImport_eq_ok hi⟩

/-- The documents that may be read below the file at `entry`: that file itself is none of them. -/
def LoadsBelow (lib : Library) (entry path : Path) (d : Document) : Prop :=
  path ≠ entry ∧ lib.Loads .imported path d

/-- A document that comes out is what its file expands to, and no file on the chain is read for it.
-/
theorem expands_of_resolveFile {d : Document}
    (h : lib.resolveFile c fuel path start chain reads = some (.ok d, reads'))
    (hentry : entry ∈ chain ++ [path]) :
    Expands.File (lib.Loads start) (lib.LoadsBelow entry) path d := by
  induction fuel generalizing path start chain reads reads' d with
  | zero => cases h
  | succ fuel ih =>
      obtain ⟨fuel', d₀, ds, hfuel, -, hload, rfl, hds⟩ := exists_of_resolveFile_eq_ok h
      cases hfuel
      refine ⟨d₀, hload, expands_splice hload.asRead (hds.imp ?_), rfl, rfl⟩
      rintro i d ⟨before, after, hi⟩
      obtain ⟨-, -, -, -, hchain, -⟩ := exists_of_resolveFile_eq_ok hi
      have hne : importTarget path i.1 ≠ entry := by
        rintro rfl
        exact hchain hentry
      obtain ⟨d₁, hload₁, hexpands⟩ := ih hi (List.mem_append_left _ hentry)
      exact ⟨d₁, ⟨hne, hload₁⟩, hexpands⟩

/-- An error that comes out is that of a source or of a file that could not be had. -/
theorem resolveFile_eq_error {e : CompileError}
    (h : lib.resolveFile c fuel path start chain reads = some (.error e, reads')) :
    (∃ p, e = .parse p) ∨ ∃ i, e = .importing i := by
  induction fuel generalizing path start chain reads reads' e with
  | zero => cases h
  | succ fuel ih =>
      rw [resolveFile_succ_eq_some_iff] at h
      generalize hr : ((.error e, reads') : Resolution) = r at h
      cases h with
      | cancelled _ =>
          cases hr
          exact .inr ⟨_, rfl⟩
      | cycle _ _ =>
          cases hr
          exact .inr ⟨_, rfl⟩
      | unreadable _ _ _ =>
          cases hr
          exact .inr ⟨_, rfl⟩
      | malformed _ _ _ _ =>
          cases hr
          exact .inl ⟨_, rfl⟩
      | @resolved d₀ results _ _ _ _ heach =>
          cases hall : results.mapM id with
          | ok ds =>
              rw [hall] at hr
              cases hr
          | error e' =>
              rw [hall] at hr
              cases hr
              -- The error is that of one of the imports, told with the place of the import.
              obtain ⟨i, -, before, after, hi⟩ := exists_of_forall₂_right (forall₂_of_forEach heach)
                (mem_of_mapM_id_eq_error hall)
              obtain ⟨e₁, hfile, rfl⟩ := exists_of_resolveImport_eq_error hi
              rcases locate_cases (importTarget path i.1) i.2 e₁ with heq | ⟨_, j, -, heq⟩
              · rw [heq]
                exact ih hfile
              · exact .inr ⟨j, heq⟩

/-! ## The bound on the chain -/

/-- A library that holds no more readable files than it says. -/
def Bounded (lib : Library) : Prop :=
  ∀ paths : List Path, paths.Nodup →
    (∀ p ∈ paths, p.IsNormal ∧ ∃ source, lib.read p = .ok source) → paths.length ≤ lib.size

/-- A file that can be read from a library of given files is one of them. -/
theorem exists_of_read_ofFiles {files : List (String × Except ReadFailure String)}
    (hpath : path.IsNormal) {source : String} (h : (ofFiles files).read path = .ok source) :
    ∃ f ∈ files, (Path.ofString f.1).normalize = path ∧ f.2 = .ok source := by
  rw [ofFiles] at h
  simp only [Path.normalize_eq_self_iff.2 hpath, findFile] at h
  cases hlookup : (files.map fun f => ((Path.ofString f.1).normalize, f.2)).reverse.lookup path with
  | none =>
      rw [hlookup] at h
      cases h
  | some text =>
      rw [hlookup] at h
      obtain ⟨before, behind, heq, -⟩ := List.lookup_eq_some_iff.1 hlookup
      have hmem : (path, text) ∈ (files.map fun f => ((Path.ofString f.1).normalize, f.2)) := by
        rw [← List.mem_reverse, heq]
        simp
      obtain ⟨f, hf, hentry⟩ := List.mem_map.1 hmem
      exact ⟨f, hf, congrArg Prod.fst hentry, (congrArg Prod.snd hentry).trans h⟩

/-- A library of given files is bounded by their number. -/
theorem bounded_ofFiles (files : List (String × Except ReadFailure String)) :
    (ofFiles files).Bounded := by
  intro paths hnodup hreadable
  have hsubset : paths ⊆ files.map fun f => (Path.ofString f.1).normalize := by
    intro p hp
    obtain ⟨hnormal, source, hsource⟩ := hreadable p hp
    obtain ⟨f, hf, hpath, -⟩ := exists_of_read_ofFiles hnormal hsource
    exact List.mem_map.2 ⟨f, hf, hpath⟩
  have hlength := List.Nodup.length_le_of_subset hnodup hsubset
  rw [List.length_map] at hlength
  rwa [ofFiles, List.length_map]

/-- The path of an import is normal. -/
theorem isNormal_importTarget (path : Path) (raw : String) : (importTarget path raw).IsNormal :=
  Path.isNormal_normalize _

/-- The path of an import can be read back if the path of the importing file can. -/
theorem isLegible_importTarget {path : Path} (h : path.IsLegible) (raw : String) :
    (importTarget path raw).IsLegible :=
  (h.parent.join (Path.isLegible_ofString _)).normalize

/-- A file can be opened if, in case it is a document, its imports have results. -/
theorem exists_opened (h : ∀ d, path ∉ chain → lib.Loads start path d →
    ∃ results reads', forEach (lib.resolveImport c fuel path chain) d.imports (reads + 1)
      = some (results, reads')) :
    ∃ r, Opened lib c fuel path start chain reads r := by
  cases hgoing : c.isCancelled reads with
  | true => exact ⟨_, .cancelled hgoing⟩
  | false =>
      by_cases hchain : path ∈ chain
      · exact ⟨_, .cycle hgoing hchain⟩
      · cases hread : lib.read path with
        | error f => exact ⟨_, .unreadable hgoing hchain hread⟩
        | ok source =>
            cases hparse : Document.parse start (some path.toString) source with
            | error e => exact ⟨_, .malformed hgoing hchain hread hparse⟩
            | ok d =>
                obtain ⟨results, reads', heach⟩ := h d hchain ⟨source, hread, hparse⟩
                exact ⟨_, .resolved hgoing hchain ⟨source, hread, hparse⟩ heach⟩

/-- In a bounded library every file has a result, as long as the bound and the chain together are
long enough. The chain only holds different files that can be read, so it stays within the size of
the library. -/
theorem exists_resolveFile_eq_some (hlib : lib.Bounded) (hnodup : chain.Nodup)
    (hreadable : ∀ p ∈ chain, p.IsNormal ∧ ∃ source, lib.read p = .ok source)
    (hnormal : path.IsNormal) (hfuel : lib.size + 2 ≤ fuel + chain.length) :
    ∃ r, lib.resolveFile c fuel path start chain reads = some r := by
  induction fuel generalizing path start chain reads with
  | zero =>
      -- A chain of this length would hold more files than the library.
      have hlength := hlib chain hnodup hreadable
      omega
  | succ fuel ih =>
      have hopened : ∃ r, Opened lib c fuel path start chain reads r := by
        refine exists_opened ?_
        rintro d hchain ⟨source, hread, hparse⟩
        refine exists_forEach_eq_some (reads + 1) ?_
        intro i _ reads
        have hnodup' : (chain ++ [path]).Nodup :=
          List.nodup_append_comm.1 (List.nodup_cons.2 ⟨hchain, hnodup⟩)
        have hreadable' : ∀ p ∈ chain ++ [path],
            p.IsNormal ∧ ∃ source, lib.read p = .ok source := by
          intro p hp
          rcases List.mem_append.1 hp with hp | hp
          · exact hreadable p hp
          · obtain rfl := List.mem_singleton.1 hp
            exact ⟨hnormal, source, hread⟩
        have hfuel' : lib.size + 2 ≤ fuel + (chain ++ [path]).length := by
          rw [List.length_append, List.length_singleton]
          omega
        have hresult : ∃ r, lib.resolveFile c fuel (importTarget path i.1) .imported
            (chain ++ [path]) reads = some r :=
          ih hnodup' hreadable' (isNormal_importTarget path i.1) hfuel'
        obtain ⟨r, hr⟩ := hresult
        exact ⟨_, Option.map_eq_some_iff.2 ⟨r, hr, rfl⟩⟩
      obtain ⟨r, hr⟩ := hopened
      exact ⟨r, resolveFile_succ_eq_some_iff.2 hr⟩

/-- Every entry of given files has a result, whether the run is cancelled or not. -/
theorem exists_resolve_ofFiles_eq_some (files : List (String × Except ReadFailure String))
    (c : Cancellation) (entry : String) :
    ∃ r reads, (ofFiles files).resolve c entry = some (r, reads) := by
  have hresult : ∃ r, (ofFiles files).resolveFile c ((ofFiles files).size + 2)
      (Path.ofString entry).normalize .initial [] 0 = some r :=
    exists_resolveFile_eq_some (bounded_ofFiles files) List.nodup_nil (by simp)
      (Path.isNormal_normalize _) (Nat.le_refl _)
  obtain ⟨⟨r, reads⟩, h⟩ := hresult
  exact ⟨r, reads, h⟩

end Library

end SpecDoc
