import Mathlib.Data.List.Dedup
import SpecDoc.Proofs.Import.Resolution

/-!
# The files that are opened

In a run files are opened one after the other, each behind the chain of those whose imports led to it.
`Library.Calls` says which files these are, at what time and behind which chain. A file that is behind
itself is not opened again, and one that cannot be read imports nothing; so chains are short, and every
run comes to its end.

* `resolveFile_of_le`: a bound that is long enough may be longer;
* `Opens` are the calls that are made where a file is opened: `openFile_congr` says that only their results
  matter, and `openFile_eq_none_iff` that each of them has to have one;
* `calls_iff`: the files that are opened are the entry and those that are opened for others;
* `Calls.path_mem`: the files that are opened are among those that only import each other;
* `Calls.sound`: what holds of the chain of every file that is opened;
* `resolve_ofFiles_ends`: every run on given files ends, and its chains are not longer than the number of
  their paths.
-/

namespace SpecDoc

open Resolution

/-! ## Longer bounds -/

/-- Results for several imports do not depend on how they are had. -/
theorem Resolution.forEach_of_forall {f f' : String × Option Span → ℕ → Option Resolution}
    (hf : ∀ i reads p, f i reads = some p → f' i reads = some p) {is : List (String × Option Span)}
    {reads : ℕ} {p : List (Except CompileError Document) × ℕ} (h : forEach f is reads = some p) :
    forEach f' is reads = some p := by
  induction is generalizing reads p with
  | nil => exact h
  | cons i is ih =>
      obtain ⟨results, reads'⟩ := p
      obtain ⟨r, between, rest, hi, hrest, rfl⟩ := forEach_cons_eq_some_iff.1 h
      exact forEach_cons_eq_some_iff.2 ⟨r, between, rest, hf i reads _ hi, ih hrest, rfl⟩

/-- Results for several imports depend only on the results that are had on the way. -/
theorem Resolution.forEach_congr {f f' : String × Option Span → ℕ → Option Resolution}
    {is : List (String × Option Span)} {reads : ℕ}
    (h : ∀ before i after results reads', is = before ++ i :: after →
      forEach f before reads = some (results, reads') → f' i reads' = f i reads') :
    forEach f' is reads = forEach f is reads := by
  induction is generalizing reads with
  | nil => rfl
  | cons i is ih =>
      rw [forEach, forEach, h [] i is [] reads rfl rfl]
      split
      · rfl
      · next result reads₁ hi =>
        rw [ih fun before j after results reads' his hbefore => ?_]
        exact h (i :: before) j after (result :: results) reads' (congrArg (i :: ·) his)
          (forEach_cons_eq_some_iff.2 ⟨result, reads₁, results, hi, hbefore, rfl⟩)

/-- There are no results for several imports iff there is none for one of them that is reached. -/
theorem Resolution.forEach_eq_none_iff {f : String × Option Span → ℕ → Option Resolution}
    {is : List (String × Option Span)} {reads : ℕ} :
    forEach f is reads = none ↔ ∃ before i after results reads', is = before ++ i :: after ∧
      forEach f before reads = some (results, reads') ∧ f i reads' = none := by
  induction is generalizing reads with
  | nil =>
      constructor
      · intro h
        cases h
      · rintro ⟨before, i, after, -, -, his, -⟩
        exact absurd his.symm (by simp)
  | cons i is ih =>
      constructor
      · intro h
        rw [forEach] at h
        split at h
        · next hi => exact ⟨[], i, is, [], reads, rfl, rfl, hi⟩
        · next result reads₁ hi =>
          obtain ⟨before, j, after, results, reads', rfl, hbefore, hj⟩ :=
            ih.1 (Option.map_eq_none_iff.1 h)
          exact ⟨i :: before, j, after, result :: results, reads', rfl,
            forEach_cons_eq_some_iff.2 ⟨result, reads₁, results, hi, hbefore, rfl⟩, hj⟩
      · rintro ⟨before, j, after, results, reads', his, hbefore, hj⟩
        cases before with
        | nil =>
            cases his
            cases hbefore
            rw [forEach, hj]
        | cons i' before =>
            cases his
            obtain ⟨r, between, rest, hi, hrest, -⟩ := forEach_cons_eq_some_iff.1 hbefore
            have hnone := ih.2 ⟨before, j, after, rest, reads', rfl, hrest, hj⟩
            rw [forEach, hi]
            exact Option.map_eq_none_iff.2 hnone

namespace Library

/-- A file that has a result has the same one with any greater bound on the chain. -/
theorem resolveFile_of_le {lib : Library} {c : Cancellation} {fuel fuel' reads : ℕ} {path : Path}
    {start : Start} {chain : List Path} {r : Resolution} (hle : fuel ≤ fuel')
    (h : lib.resolveFile c fuel path start chain reads = some r) :
    lib.resolveFile c fuel' path start chain reads = some r := by
  induction fuel generalizing fuel' path start chain reads r with
  | zero => cases h
  | succ fuel ih =>
      obtain ⟨fuel', rfl⟩ : ∃ k, fuel' = k + 1 := ⟨fuel' - 1, by omega⟩
      rw [resolveFile_succ_eq_some_iff] at h ⊢
      -- Only the imports of a file see the bound.
      cases h with
      | cancelled hcancelled => exact .cancelled hcancelled
      | cycle hgoing hchain => exact .cycle hgoing hchain
      | unreadable hgoing hchain hread => exact .unreadable hgoing hchain hread
      | malformed hgoing hchain hread hparse => exact .malformed hgoing hchain hread hparse
      | resolved hgoing hchain hload heach =>
          refine .resolved hgoing hchain hload (forEach_of_forall (fun i reads p hi => ?_) heach)
          obtain ⟨q, hq, rfl⟩ := Option.map_eq_some_iff.1 hi
          exact Option.map_eq_some_iff.2 ⟨q, ih (by omega) hq, rfl⟩

/-! ## Calls -/

/-- The files that are opened in a run on the entry. A file that is opened and is a document has each of
its imports opened, after those in front of it; it does not if the run is cancelled before, or if the file
is on its own chain. -/
inductive Calls (lib : Library) (c : Cancellation) (entry : Path) : Call → Prop where
  | entry : Calls lib c entry ⟨entry, .initial, [], 0⟩
  | follow {call : Call} {d : Document} {before after : List (String × Option Span)}
      {i : String × Option Span} {fuel reads : ℕ} {results : List (Except CompileError Document)}
      (h : Calls lib c entry call) (hgoing : c.isCancelled call.reads = false)
      (hchain : call.path ∉ call.chain) (hload : lib.Loads call.start call.path d)
      (himports : d.imports = before ++ i :: after)
      (hbefore : forEach (lib.resolveImport c fuel call.path call.chain) before (call.reads + 1)
        = some (results, reads)) :
      Calls lib c entry ⟨importTarget call.path i.1, .imported, call.chain ++ [call.path], reads⟩

/-- `Opens lib c resolve call next`: where the file of `call` is opened, and `resolve` resolves files, the
file of `next` is resolved. -/
inductive Opens (lib : Library) (c : Cancellation) (resolve : Call → Option Resolution) (call : Call) :
    Call → Prop where
  | follow {d : Document} {before after : List (String × Option Span)} {i : String × Option Span}
      {reads : ℕ} {results : List (Except CompileError Document)}
      (hgoing : c.isCancelled call.reads = false) (hchain : call.path ∉ call.chain)
      (hload : lib.Loads call.start call.path d) (himports : d.imports = before ++ i :: after)
      (hbefore : forEach (importWith resolve call.path call.chain) before (call.reads + 1)
        = some (results, reads)) :
      Opens lib c resolve call ⟨importTarget call.path i.1, .imported, call.chain ++ [call.path], reads⟩

section Opens

variable {lib : Library} {c : Cancellation} {resolve resolve' : Call → Option Resolution} {call : Call}

/-- A file is refused whatever other files are resolved to, or it is a document, and only then others are resolved for
it. -/
theorem openFile_cases (lib : Library) (c : Cancellation) (call : Call) :
    (∃ r, ∀ resolve, lib.openFile c resolve call = some r ∧ ∀ next, ¬lib.Opens c resolve call next) ∨
      c.isCancelled call.reads = false ∧ call.path ∉ call.chain ∧
        ∃ d, lib.Loads call.start call.path d := by
  by_cases hgoing : c.isCancelled call.reads = true
  · refine .inl ⟨_, fun resolve => ⟨if_pos hgoing, fun next hnext => ?_⟩⟩
    obtain ⟨hgoing', -⟩ := hnext
    exact Bool.false_ne_true (hgoing'.symm.trans hgoing)
  by_cases hchain : call.path ∈ call.chain
  · refine .inl ⟨_, fun resolve => ⟨by rw [openFile, if_neg hgoing, if_pos hchain], fun next hnext => ?_⟩⟩
    obtain ⟨-, hchain', -⟩ := hnext
    exact hchain' hchain
  cases hread : lib.read call.path with
  | error f =>
      refine .inl ⟨_, fun resolve =>
        ⟨by rw [openFile, if_neg hgoing, if_neg hchain, hread], fun next hnext => ?_⟩⟩
      obtain ⟨-, -, ⟨source, hread', -⟩, -⟩ := hnext
      rw [hread] at hread'
      cases hread'
  | ok source =>
      cases hparse : Document.parse call.start (some call.path.toString) source with
      | error e =>
          let chain := call.chain.map Path.toString
          refine .inl ⟨(.error (.parse { e.withSource source with chain }), call.reads + 1),
            fun resolve => ⟨?_, fun next hnext => ?_⟩⟩
          · rw [openFile, if_neg hgoing, if_neg hchain, hread]
            simp only [parseFile, hparse, chain]
          · obtain ⟨-, -, ⟨source', hread', hparse'⟩, -⟩ := hnext
            rw [hread, Except.ok.injEq] at hread'
            rw [← hread', hparse] at hparse'
            cases hparse'
      | ok d => exact .inr ⟨Bool.not_eq_true _ ▸ hgoing, hchain, d, source, hread, hparse⟩

/-- Only the results of the files that are resolved for it matter to a file that is opened. -/
theorem openFile_congr (h : ∀ next, lib.Opens c resolve call next → resolve' next = resolve next) :
    lib.openFile c resolve' call = lib.openFile c resolve call := by
  rcases openFile_cases lib c call with ⟨r, hr⟩ | ⟨hgoing, hchain, d, hload⟩
  · rw [(hr resolve').1, (hr resolve).1]
  · rw [openFile_of_loads hgoing hchain hload, openFile_of_loads hgoing hchain hload]
    congr 1
    refine forEach_congr fun before i after results reads himports hbefore => ?_
    have hopens : lib.Opens c resolve call _ := .follow hgoing hchain hload himports hbefore
    rw [importWith, importWith, h _ hopens]

/-- There is no result for a file that is opened iff one of the files that are resolved for it has none. -/
theorem openFile_eq_none_iff :
    lib.openFile c resolve call = none ↔ ∃ next, lib.Opens c resolve call next ∧ resolve next = none := by
  rcases openFile_cases lib c call with ⟨r, hr⟩ | ⟨hgoing, hchain, d, hload⟩
  · constructor
    · intro h
      rw [(hr resolve).1] at h
      cases h
    · rintro ⟨next, hopens, -⟩
      exact absurd hopens ((hr resolve).2 next)
  · rw [openFile_of_loads hgoing hchain hload, Option.map_eq_none_iff, forEach_eq_none_iff]
    constructor
    · rintro ⟨before, i, after, results, reads, himports, hbefore, hi⟩
      exact ⟨_, .follow hgoing hchain hload himports hbefore, Option.map_eq_none_iff.1 hi⟩
    · rintro ⟨next, ⟨-, -, hload', himports, hbefore⟩, hnext⟩
      rw [hload'.unique hload] at himports
      exact ⟨_, _, _, _, _, himports, hbefore, Option.map_eq_none_iff.2 hnext⟩

/-- The files that are opened in a run are the entry, and those that are resolved where another one is
opened. -/
theorem calls_iff {entry : Path} {next : Call} :
    lib.Calls c entry next ↔ next = ⟨entry, .initial, [], 0⟩ ∨
      ∃ call fuel, lib.Calls c entry call ∧ lib.Opens c (lib.resolveCall c fuel) call next := by
  constructor
  · intro h
    cases h with
    | entry => exact .inl rfl
    | follow h hgoing hchain hload himports hbefore =>
        exact .inr ⟨_, _, h, .follow hgoing hchain hload himports hbefore⟩
  · rintro (rfl | ⟨call, fuel, h, hgoing, hchain, hload, himports, hbefore⟩)
    · exact .entry
    · exact .follow h hgoing hchain hload himports hbefore

end Opens

/-- Whether the chain of a call is one of different files that can be read, and all paths are normal. -/
structure Call.Sound (lib : Library) (call : Call) : Prop where
  normal : call.path.IsNormal
  nodup : call.chain.Nodup
  readable : ∀ p ∈ call.chain, p.IsNormal ∧ ∃ source, lib.read p = .ok source

variable {lib : Library} {c : Cancellation} {entry : Path} {call : Call}

/-- A call for an import of a sound call, whose file is opened for the first time, is sound. -/
theorem Call.Sound.follow {d : Document} (h : call.Sound lib) (hchain : call.path ∉ call.chain)
    (hload : lib.Loads call.start call.path d) (i : String × Option Span) (reads : ℕ) :
    Call.Sound lib ⟨importTarget call.path i.1, .imported, call.chain ++ [call.path], reads⟩ where
  normal := isNormal_importTarget call.path i.1
  nodup := List.nodup_append_comm.1 (List.nodup_cons.2 ⟨hchain, h.nodup⟩)
  readable := by
    obtain ⟨source, hread, -⟩ := hload
    refine List.forall_mem_append.2 ⟨h.readable, List.forall_mem_singleton.2 ?_⟩
    exact ⟨h.normal, source, hread⟩

/-- The chain of every file that is opened is one of different files that can be read. -/
theorem Calls.sound (hentry : entry.IsNormal) (h : lib.Calls c entry call) : call.Sound lib := by
  induction h with
  | entry => exact ⟨hentry, List.nodup_nil, by simp⟩
  | @follow _ _ _ _ i _ reads _ _ _ hchain hload _ _ ih => exact ih.follow hchain hload i reads

/-- The first import of a document is opened right behind it. -/
theorem Calls.first {d : Document} {i : String × Option Span} {after : List (String × Option Span)}
    (h : lib.Calls c entry call) (hgoing : c.isCancelled call.reads = false)
    (hchain : call.path ∉ call.chain) (hload : lib.Loads call.start call.path d)
    (himports : d.imports = i :: after) :
    lib.Calls c entry
      ⟨importTarget call.path i.1, .imported, call.chain ++ [call.path], call.reads + 1⟩ := by
  have hbefore : forEach (lib.resolveImport c 0 call.path call.chain) [] (call.reads + 1)
      = some ([], call.reads + 1) := rfl
  have hsplit : d.imports = [] ++ i :: after := himports
  exact h.follow hgoing hchain hload hsplit hbefore

/-- The files that are opened have paths that can be read back, if the entry has. -/
theorem Calls.isLegible (hentry : entry.IsLegible) (h : lib.Calls c entry call) :
    call.path.IsLegible := by
  induction h with
  | entry => exact hentry
  | @follow _ _ _ _ i _ _ _ _ _ _ _ _ _ ih => exact isLegible_importTarget ih i.1

/-- The files on a chain were opened. -/
theorem Calls.exists_of_mem_chain (h : lib.Calls c entry call) {p : Path} (hp : p ∈ call.chain) :
    ∃ call', lib.Calls c entry call' ∧ call'.path = p := by
  induction h with
  | entry => cases hp
  | @follow call _ _ _ _ _ _ _ h _ _ _ _ _ ih =>
      rcases List.mem_append.1 hp with hp | hp
      · exact ih hp
      · exact ⟨call, h, (List.mem_singleton.1 hp).symm⟩

/-- The imports of the document at a path, if there is one. -/
def importsAt (lib : Library) (start : Start) (path : Path) : Option (List (String × Option Span)) :=
  match lib.read path with
  | .error _ => none
  | .ok source =>
    match Document.parse start (some path.toString) source with
    | .error _ => none
    | .ok d => some d.imports

/-- The imports at a path are those of the document that is read there. -/
theorem importsAt_eq_some_iff {start : Start} {path : Path} {is : List (String × Option Span)} :
    lib.importsAt start path = some is ↔ ∃ d, lib.Loads start path d ∧ d.imports = is := by
  unfold importsAt
  constructor
  · intro h
    split at h
    · cases h
    · next source hread =>
      split at h
      · cases h
      · next d hparse => exact ⟨d, ⟨source, hread, hparse⟩, Option.some.inj h⟩
  · rintro ⟨d, ⟨source, hread, hparse⟩, rfl⟩
    rw [hread]
    dsimp only
    rw [hparse]

/-- Whether the documents at some paths only import files at these paths. -/
def isClosed (lib : Library) (paths : List Path) : Bool :=
  paths.all fun p => [Start.initial, .imported].all fun start =>
    ((lib.importsAt start p).getD []).all fun i => paths.contains (importTarget p i.1)

/-- From paths that are closed under imports no other file is opened. -/
theorem Calls.path_mem {paths : List Path} (hclosed : lib.isClosed paths = true)
    (hentry : entry ∈ paths) (h : lib.Calls c entry call) : call.path ∈ paths := by
  induction h with
  | entry => exact hentry
  | @follow call d before after i _ _ _ _ _ _ hload himports _ ih =>
      have hstart : call.start ∈ [Start.initial, .imported] := by cases call.start <;> simp
      have hcall := List.all_eq_true.1 (List.all_eq_true.1 hclosed call.path ih) call.start hstart
      rw [importsAt_eq_some_iff.2 ⟨d, hload, rfl⟩, Option.getD_some] at hcall
      have hi : i ∈ d.imports := by simp [himports]
      exact List.contains_iff_mem.1 (List.all_eq_true.1 hcall i hi)

/-- A call has a result in a bounded library. -/
theorem Call.Sound.exists_resolveFile (hlib : lib.Bounded) (h : call.Sound lib) (c : Cancellation) :
    ∃ r, ∀ fuel, lib.size + 2 ≤ fuel + call.chain.length →
      lib.resolveFile c fuel call.path call.start call.chain call.reads = some r := by
  have hlength := hlib call.chain h.nodup h.readable
  have hfuel : lib.size + 2 ≤ (lib.size + 2 - call.chain.length) + call.chain.length := by omega
  obtain ⟨r, hr⟩ := exists_resolveFile_eq_some hlib h.nodup h.readable h.normal hfuel
  exact ⟨r, fun fuel hle => resolveFile_of_le (by omega) hr⟩

/-! ## Libraries of given files -/

/-- The paths at which a library of given files holds one. -/
def heldPaths (files : List (String × Except ReadFailure String)) : List Path :=
  (files.map fun f => (Path.ofString f.1).normalize).dedup

/-- A file that can be read is held. -/
theorem mem_heldPaths {files : List (String × Except ReadFailure String)} {path : Path}
    {source : String} (hpath : path.IsNormal) (h : (ofFiles files).read path = .ok source) :
    path ∈ heldPaths files := by
  obtain ⟨f, hf, heq, -⟩ := exists_of_read_ofFiles hpath h
  exact List.mem_dedup.2 (List.mem_map.2 ⟨f, hf, heq⟩)

/-- **Runs end.** Whatever given files hold and import, a run on an entry has a result, and it is the same
for every bound on the chain that is as great as the one that is set. At every call the chain has no path
twice and only paths of files that can be read, so it is never longer than there are paths; and every call
has a result. -/
theorem resolve_ofFiles_ends (files : List (String × Except ReadFailure String)) (c : Cancellation)
    (entry : String) :
    (∃ r, (ofFiles files).resolve c entry = some r ∧ ∀ fuel, files.length + 2 ≤ fuel →
      (ofFiles files).resolveFile c fuel (Path.ofString entry).normalize .initial [] 0 = some r) ∧
    ∀ call, (ofFiles files).Calls c (Path.ofString entry).normalize call →
      call.chain.Nodup ∧
      (∀ p ∈ call.chain, p ∈ heldPaths files ∧ ∃ source, (ofFiles files).read p = .ok source) ∧
      call.chain.length ≤ (heldPaths files).length ∧
      ∃ r, ∀ fuel, files.length + 2 ≤ fuel + call.chain.length → (ofFiles files).resolveFile c fuel
        call.path call.start call.chain call.reads = some r := by
  have hsize : (ofFiles files).size = files.length := by rw [ofFiles, List.length_map]
  have hnormal : (Path.ofString entry).normalize.IsNormal := Path.isNormal_normalize _
  have hresult : ∀ {call : Call}, (ofFiles files).Calls c (Path.ofString entry).normalize call →
      ∃ r, ∀ fuel, files.length + 2 ≤ fuel + call.chain.length → (ofFiles files).resolveFile c fuel
        call.path call.start call.chain call.reads = some r := by
    intro call hcall
    have hends := (hcall.sound hnormal).exists_resolveFile (bounded_ofFiles files) c
    rwa [hsize] at hends
  refine ⟨?_, fun call hcall => ?_⟩
  · obtain ⟨r, hr⟩ := hresult .entry
    refine ⟨r, hr _ (by simp [hsize]), hr⟩
  · have hsound := hcall.sound hnormal
    have hheld : call.chain ⊆ heldPaths files := by
      intro p hp
      obtain ⟨hpnormal, source, hread⟩ := hsound.readable p hp
      exact mem_heldPaths hpnormal hread
    exact ⟨hsound.nodup, fun p hp => ⟨hheld hp, (hsound.readable p hp).2⟩,
      List.Nodup.length_le_of_subset hsound.nodup hheld, hresult hcall⟩

/-- Files that import each other. -/
def loopFiles : List (String × Except ReadFailure String) :=
  [("a.md", .ok "# A\n\n# [B](parts/b.md)\n"), ("./parts/b.md", .ok "# [A](.././/a.md)\n")]

/-- The first file is opened a second time behind both of them, and the run ends. -/
theorem resolve_ofFiles_ends_loopFiles :
    (∃ r, (ofFiles loopFiles).resolve .never "a.md" = some r) ∧
    ∃ call, (ofFiles loopFiles).Calls .never (Path.ofString "a.md").normalize call ∧
      call.path = Path.ofString "a.md" ∧
      call.chain = [Path.ofString "a.md", Path.ofString "parts/b.md"] ∧
      call.chain.length ≤ (heldPaths loopFiles).length := by
  have hfirst : ∃ i, (ofFiles loopFiles).importsAt .initial (Path.ofString "a.md").normalize
      = some [i] ∧ importTarget (Path.ofString "a.md").normalize i.1 = Path.ofString "parts/b.md" :=
    ⟨("parts/b.md", some ⟨some "a.md", ⟨3, 1⟩, ⟨3, 18⟩⟩), by decide +kernel, by decide +kernel⟩
  have hsecond : ∃ i, (ofFiles loopFiles).importsAt .imported (Path.ofString "parts/b.md") = some [i] ∧
      importTarget (Path.ofString "parts/b.md") i.1 = Path.ofString "a.md" :=
    ⟨(".././/a.md", some ⟨some "parts/b.md", ⟨1, 1⟩, ⟨1, 18⟩⟩), by decide +kernel, by decide +kernel⟩
  obtain ⟨i, hi, htarget⟩ := hfirst
  obtain ⟨j, hj, htarget'⟩ := hsecond
  obtain ⟨d, hload, himports⟩ := importsAt_eq_some_iff.1 hi
  obtain ⟨d', hload', himports'⟩ := importsAt_eq_some_iff.1 hj
  obtain ⟨⟨r, hresolve, -⟩, hends⟩ := resolve_ofFiles_ends loopFiles .never "a.md"
  have hcall : (ofFiles loopFiles).Calls .never (Path.ofString "a.md").normalize
      ⟨(Path.ofString "a.md").normalize, .initial, [], 0⟩ := .entry
  have hcall₁ := hcall.first rfl List.not_mem_nil hload himports
  dsimp only at hcall₁
  rw [htarget] at hcall₁
  have hcall₂ := hcall₁.first rfl (by decide +kernel) hload' himports'
  dsimp only at hcall₂
  rw [htarget'] at hcall₂
  exact ⟨⟨r, hresolve⟩, _, hcall₂, rfl, by decide +kernel, (hends _ hcall₂).2.2.1⟩

end Library

end SpecDoc
