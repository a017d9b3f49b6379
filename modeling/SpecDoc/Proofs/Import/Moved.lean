import SpecDoc.Proofs.Import.Calls
import SpecDoc.Proofs.Markup.Moved
import SpecDoc.Proofs.Path.Under

/-!
# Files that are moved together

Files that import each other by relative paths can be moved to another directory. Every run does the same
there, and what it tells are the same places in the moved files, as long as no import leaves the directory
that the files were in.

* `Resolution.mapFiles` tells a result with other names of files;
* `Library.IsMoved` says what a library of moved files holds;
* `resolveFile_moved`: what becomes of a file that is opened;
* `resolve_ofFiles_moved`: what becomes of a run.
-/

namespace SpecDoc

open Markup Resolution SpecDoc.Path

/-! ## Other names of files -/

section Names

variable (g : String → String)

/-- The span in a file of another name. -/
def Span.mapFile (s : Span) : Span := { s with file := s.file.map g }

/-- The error with other names of files. -/
def ParseError.mapFiles (e : ParseError) : ParseError :=
  { e with file := e.file.map g, chain := e.chain.map g }

/-- The error with other names of files. -/
def ImportError.mapFiles (e : ImportError) : ImportError :=
  { e with path := g e.path, chain := e.chain.map g, span := e.span.map (Span.mapFile g) }

/-- The error with other names of files. A resolution only tells of sources and imports. -/
def CompileError.mapFiles : CompileError → CompileError
  | .parse e => .parse (e.mapFiles g)
  | .importing e => .importing (e.mapFiles g)
  | e => e

/-- The document with other names of files in its spans. -/
def Document.mapFiles (d : Document) : Document := d.mapSpans (Span.mapFile g)

/-- A document or an error with other names of files. -/
def Resolution.outcome (r : Except CompileError Document) : Except CompileError Document :=
  (r.map (Document.mapFiles g)).mapError (CompileError.mapFiles g)

/-- The result with other names of files; as many files were read. -/
def Resolution.mapFiles (r : Resolution) : Resolution := (outcome g r.1, r.2)

/-- A source is read for a file of another name as it is for the first one. -/
theorem Document.parse_mapFiles (start : Start) (file : Option String) (source : String) :
    Document.parse start (file.map g) source
      = ((Document.parse start file source).map (Document.mapFiles g)).mapError
          (ParseError.mapFiles g) :=
  Document.parse_of_moves (fun _ _ _ => rfl) (fun _ _ => rfl) start source

/-- The imports of a document stand in the other file. -/
theorem Document.imports_mapFiles (d : Document) :
    (d.mapFiles g).imports = d.imports.map fun i => (i.1, i.2.map (Span.mapFile g)) := by
  have himport : ∀ n : Node, (n.mapSpans (Span.mapFile g)).import?
      = n.import?.map fun i => (i.1, i.2.map (Span.mapFile g)) := by
    rintro (⟨l, span⟩ | ⟨g, span, contents⟩ | ⟨r, span, head, body⟩)
    · cases l <;> rw [Node.mapSpans_leaf] <;> rfl
    · rw [Node.mapSpans_group]
      rfl
    · rw [Node.mapSpans_rule]
      rfl
  rw [Document.imports_eq, Document.imports_eq]
  show Node.importsIn (d.contents.map _) = (Node.importsIn d.contents).map _
  rw [Node.importsIn, (Node.relabels_mapSpans _).preorder_map, List.filterMap_map, Node.importsIn,
    List.map_filterMap]
  exact List.filterMap_congr fun n _ => himport n

/-- Splicing does not depend on the names of files. -/
theorem Document.splice_mapFiles (d : Document) (ds : List Document) :
    (d.mapFiles g).splice (ds.map (Document.mapFiles g)) = (d.splice ds).mapFiles g := by
  have hfun : Document.mapFiles g = Document.mapSpans (Span.mapFile g) := rfl
  rw [hfun, Document.splice_mapSpans]

/-- Several results: the first error is told, or all documents. -/
theorem Resolution.mapM_id_map_outcome (results : List (Except CompileError Document)) :
    (results.map (outcome g)).mapM id
      = ((results.mapM id).map (List.map (Document.mapFiles g))).mapError
          (CompileError.mapFiles g) := by
  induction results with
  | nil => rfl
  | cons r results ih =>
      cases r with
      | error e =>
          rw [List.map_cons, mapM_id_error_cons]
          exact mapM_id_error_cons _ _
      | ok d =>
          rw [List.map_cons, mapM_id_ok_cons]
          refine (mapM_id_ok_cons _ _).trans ?_
          rw [ih]
          cases results.mapM id <;> rfl

end Names

/-! ## Several imports -/

/-- Several imports have results that correspond if each import does, when those in front of it had
theirs. -/
theorem Resolution.forEach_map {f f' : String × Option Span → ℕ → Option Resolution}
    {h : String × Option Span → String × Option Span}
    {m : Except CompileError Document → Except CompileError Document}
    {is : List (String × Option Span)} {reads : ℕ}
    (hf : ∀ before i after results between, is = before ++ i :: after →
      forEach f before reads = some (results, between) →
        f' (h i) between = (f i between).map fun r => (m r.1, r.2)) :
    forEach f' (is.map h) reads = (forEach f is reads).map fun p => (p.1.map m, p.2) := by
  induction is generalizing reads with
  | nil => rfl
  | cons i is ih =>
      have hi := hf [] i is [] reads rfl rfl
      rw [List.map_cons, forEach, forEach, hi]
      cases hfi : f i reads with
      | none => rfl
      | some r =>
          obtain ⟨r, between⟩ := r
          dsimp only [Option.map_some]
          rw [ih, Option.map_map, Option.map_map]
          · rfl
          · intro before j after results between' his hbefore
            exact hf (i :: before) j after (r :: results) between' (by rw [his]; rfl)
              (forEach_cons_eq_some_iff.2 ⟨r, between, results, hfi, hbefore, rfl⟩)

namespace Library

/-! ## Names in errors -/

/-- A file that could not be had is told by a path that can be read back. -/
theorem exists_isLegible_of_resolveFile {lib : Library} {c : Cancellation} {fuel reads reads' : ℕ}
    {path : Path} {start : Start} {chain : List Path} {e : ImportError} (hpath : path.IsLegible)
    (h : lib.resolveFile c fuel path start chain reads = some (.error (.importing e), reads')) :
    ∃ p : Path, p.IsLegible ∧ e.path = p.toString := by
  induction fuel generalizing path start chain reads reads' e with
  | zero => cases h
  | succ fuel ih =>
      rw [resolveFile_succ_eq_some_iff] at h
      generalize hr : ((.error (.importing e), reads') : Resolution) = r at h
      cases h with
      | cancelled _ =>
          cases hr
          exact ⟨path, hpath, rfl⟩
      | cycle _ _ =>
          cases hr
          exact ⟨path, hpath, rfl⟩
      | unreadable _ _ _ =>
          cases hr
          exact ⟨path, hpath, rfl⟩
      | malformed _ _ _ _ => cases hr
      | @resolved d results _ _ _ _ heach =>
          cases hall : results.mapM id with
          | ok ds =>
              rw [hall] at hr
              cases hr
          | error e' =>
              rw [hall] at hr
              cases hr
              -- The error is that of one of the imports, and telling its place keeps the path.
              obtain ⟨i, -, before, after, hi⟩ := exists_of_forall₂_right (forall₂_of_forEach heach)
                (mem_of_mapM_id_eq_error hall)
              obtain ⟨e₁, hfile, he₁⟩ := exists_of_resolveImport_eq_error hi
              cases e₁ with
              | importing e₁ =>
                  obtain ⟨p, hp, hpath₁⟩ := ih (isLegible_importTarget hpath i.1) hfile
                  refine ⟨p, hp, ?_⟩
                  rw [locate] at he₁
                  split at he₁ <;> cases he₁ <;> exact hpath₁
              | parse e₁ => cases he₁
              | numbering e₁ => cases he₁
              | structural e₁ => cases he₁

/-! ## Moved files -/

/-- Whether a library holds the files of another one under a directory. -/
structure IsMoved (dir : Path) (lib lib' : Library) : Prop where
  size_eq : lib'.size = lib.size
  read_eq : ∀ p : Path, p.IsNormal → p.IsInside → lib'.read (dir.join p) = lib.read p
  steps_ne : ∀ (p : Path) (source : String), p.IsNormal → lib.read p = .ok source → p.steps ≠ []

/-- A pair is found by its key if no other pair has a key that is changed to the same. -/
theorem lookup_map_of_injective {α β : Type} [BEq α] [LawfulBEq α] {k : α → α} {l : List (α × β)} {a : α}
    (hk : ∀ b, k b = k a → b = a) : (l.map fun e => (k e.1, e.2)).lookup (k a) = l.lookup a := by
  induction l with
  | nil => rfl
  | cons e l ih =>
      have hkey : (k a == k e.1) = (a == e.1) := by
        rw [Bool.eq_iff_iff, beq_iff_eq, beq_iff_eq]
        exact ⟨fun h => (hk _ h.symm).symm, fun h => by rw [h]⟩
      rw [List.map_cons, List.lookup_cons, List.lookup_cons, hkey, ih]

/-- Files with paths inside the current directory can be moved. -/
theorem isMoved_ofFiles {dir : String} (hdir : (Path.ofString dir).IsDirectory)
    {files : List (String × Except ReadFailure String)}
    (hinside : ∀ f ∈ files, (Path.ofString f.1).normalize.IsInside)
    (hne : ∀ f ∈ files, (Path.ofString f.1).normalize.steps ≠ []) :
    IsMoved (Path.ofString dir) (ofFiles files)
      (ofFiles (files.map fun f => (underDir dir f.1, f.2))) where
  size_eq := by simp [ofFiles]
  read_eq p hnormal hp := by
    -- Files are found by their normal paths, and each of these is moved.
    have hpaths : (files.map fun f => (underDir dir f.1, f.2)).map
        (fun f => ((Path.ofString f.1).normalize, f.2))
        = (files.map fun f => ((Path.ofString f.1).normalize, f.2)).map
            fun e => ((Path.ofString dir).join e.1, e.2) := by
      rw [List.map_map, List.map_map]
      refine List.map_congr_left fun f hf => ?_
      dsimp only [Function.comp_apply]
      rw [ofString_underDir, normalize_join_of_isInside hdir (hinside f hf)]
    have hself := Path.normalize_eq_self_iff.2 hnormal
    have hjoin : ((Path.ofString dir).join p).normalize = (Path.ofString dir).join p := by
      rw [normalize_join_of_isInside hdir (by rwa [hself]), hself]
    simp only [ofFiles, findFile, hpaths, hjoin, hself]
    rw [← List.map_reverse, lookup_map_of_injective fun q h => hdir.join_injective h]
  steps_ne p source hnormal hread := by
    obtain ⟨f, hf, rfl, -⟩ := exists_of_read_ofFiles hnormal hread
    exact hne f hf

/-! ## Runs on moved files -/

section Runs

variable {dir : String} {lib lib' : Library} {c : Cancellation} {entry : Path}

/-- Moved files are written as they were, with the directory before them. -/
theorem map_toString_map_join {chain : List Path} (hchain : ∀ p ∈ chain, p.IsLegible) :
    (chain.map (Path.ofString dir).join).map Path.toString
      = (chain.map Path.toString).map (underDir dir) := by
  rw [List.map_map, List.map_map]
  exact List.map_congr_left fun p hp => (underDir_toString (hchain p hp)).symm

variable (dir) in
/-- A file that is refused is refused in the same way when it is moved. -/
theorem refuse_moved {path : Path} (hpath : path.IsLegible) {chain : List Path}
    (hchain : ∀ p ∈ chain, p.IsLegible) (problem : ImportProblem) (reads : ℕ) :
    refuse problem ((Path.ofString dir).join path) (chain.map (Path.ofString dir).join) reads
      = Resolution.mapFiles (underDir dir) (refuse problem path chain reads) := by
  rw [refuse, map_toString_map_join hchain, ← underDir_toString hpath]
  rfl

/-- The place where a moved file is imported is told in the same way. -/
theorem locate_moved (hdir : (Path.ofString dir).IsDirectory) {target : Path} (htarget : target.IsLegible)
    (span : Option Span) {e : CompileError}
    (he : ∀ i, e = .importing i → ∃ p : Path, p.IsLegible ∧ i.path = p.toString) :
    locate ((Path.ofString dir).join target) (span.map (Span.mapFile (underDir dir)))
        (e.mapFiles (underDir dir))
      = (locate target span e).mapFiles (underDir dir) := by
  cases e with
  | importing i =>
      obtain ⟨p, hp, hpath⟩ := he i rfl
      have hspan : (i.mapFiles (underDir dir)).span = none ↔ i.span = none := Option.map_eq_none_iff
      -- A place is only added to an error of the imported file itself, which is known by its path.
      have htext : (i.mapFiles (underDir dir)).path = ((Path.ofString dir).join target).toString ↔
          i.path = target.toString := by
        rw [ImportError.mapFiles, hpath, underDir_toString hp]
        constructor
        · intro h
          have hjoin := congrArg Path.ofString h
          rw [((isLegible_ofString dir).join hp).ofString_toString,
            ((isLegible_ofString dir).join htarget).ofString_toString] at hjoin
          rw [hdir.join_injective hjoin]
        · intro h
          rw [← hp.ofString_toString, h, htarget.ofString_toString]
      rw [CompileError.mapFiles, locate, locate]
      simp only [hspan, htext]
      split <;> rfl
  | parse e => rfl
  | numbering e => rfl
  | structural e => rfl

/-- An import of a moved file has the same result if its file has. -/
theorem resolveImport_moved (hdir : (Path.ofString dir).IsDirectory) {path : Path}
    {chain : List Path} {i : String × Option Span} {fuel reads : ℕ} (hlegible : path.IsLegible)
    (hinside : path.IsInside) (hne : path.steps ≠ []) (htarget : (importTarget path i.1).IsInside)
    (hfile : lib'.resolveFile c fuel ((Path.ofString dir).join (importTarget path i.1)) .imported
        ((chain ++ [path]).map (Path.ofString dir).join) reads
      = (lib.resolveFile c fuel (importTarget path i.1) .imported (chain ++ [path]) reads).map
          (Resolution.mapFiles (underDir dir))) :
    lib'.resolveImport c fuel ((Path.ofString dir).join path) (chain.map (Path.ofString dir).join)
        (i.1, i.2.map (Span.mapFile (underDir dir))) reads
      = (lib.resolveImport c fuel path chain i reads).map fun r => (outcome (underDir dir) r.1, r.2) := by
  rw [List.map_append, List.map_singleton] at hfile
  rw [resolveImport, resolveImport, importTarget_join hdir hinside.relative hne htarget, hfile]
  cases hr : lib.resolveFile c fuel (importTarget path i.1) .imported (chain ++ [path]) reads with
  | none => rfl
  | some r =>
      rcases r with ⟨e | d, reads'⟩
      · have hlocate := locate_moved hdir (isLegible_importTarget hlegible i.1) i.2 (e := e) (by
          rintro e rfl
          exact exists_isLegible_of_resolveFile (isLegible_importTarget hlegible i.1) hr)
        exact congrArg (fun e => some (Except.error e, reads')) hlocate
      · rfl

/-- A file that is opened, in a run whose files are moved. The induction is on the bound of the chain, and
every import of the file is opened in the run that is not moved. -/
theorem resolveFile_moved (hdir : (Path.ofString dir).IsDirectory)
    (hmoved : IsMoved (Path.ofString dir) lib lib') (hnormal : entry.IsNormal)
    (hlegible : entry.IsLegible)
    (hinside : ∀ call, lib.Calls c entry call → call.path.IsInside) (fuel : ℕ) {call : Call}
    (hcall : lib.Calls c entry call) :
    lib'.resolveFile c fuel ((Path.ofString dir).join call.path) call.start
        (call.chain.map (Path.ofString dir).join) call.reads
      = (lib.resolveFile c fuel call.path call.start call.chain call.reads).map
          (Resolution.mapFiles (underDir dir)) := by
  induction fuel generalizing call with
  | zero => rfl
  | succ fuel ih =>
  have hpath := hcall.isLegible hlegible
  have hlegibles : ∀ p ∈ call.chain, p.IsLegible := by
    intro p hp
    obtain ⟨call', hcall', rfl⟩ := hcall.exists_of_mem_chain hp
    exact hcall'.isLegible hlegible
  have hrefuse := refuse_moved dir hpath hlegibles
  have hsame := hmoved.read_eq call.path (hcall.sound hnormal).normal (hinside call hcall)
  have hmem : (Path.ofString dir).join call.path ∈ call.chain.map (Path.ofString dir).join ↔
      call.path ∈ call.chain := List.mem_map_of_injective fun _ _ => hdir.join_injective
  cases hgoing : c.isCancelled call.reads with
  | true =>
      rw [resolveFile_succ_eq_some_iff.2 (.cancelled hgoing),
        resolveFile_succ_eq_some_iff.2 (.cancelled hgoing), Option.map_some, hrefuse]
  | false =>
  by_cases hchain : call.path ∈ call.chain
  · rw [resolveFile_succ_eq_some_iff.2 (.cycle hgoing (hmem.2 hchain)),
      resolveFile_succ_eq_some_iff.2 (.cycle hgoing hchain), Option.map_some, hrefuse]
  have hchain' := mt hmem.1 hchain
  cases hread : lib.read call.path with
  | error f =>
      rw [resolveFile_succ_eq_some_iff.2 (.unreadable hgoing hchain' (hsame.trans hread)),
        resolveFile_succ_eq_some_iff.2 (.unreadable hgoing hchain hread), Option.map_some, hrefuse]
  | ok source =>
  have hparse' := Document.parse_mapFiles (underDir dir) call.start (some call.path.toString) source
  rw [Option.map_some, underDir_toString hpath] at hparse'
  cases hparse : Document.parse call.start (some call.path.toString) source with
  | error e =>
      rw [hparse] at hparse'
      rw [resolveFile_succ_eq_some_iff.2 (.malformed hgoing hchain' (hsame.trans hread) hparse'),
        resolveFile_succ_eq_some_iff.2 (.malformed hgoing hchain hread hparse), Option.map_some,
        map_toString_map_join hlegibles]
      rfl
  | ok d =>
      rw [hparse] at hparse'
      have hload : lib.Loads call.start call.path d := ⟨source, hread, hparse⟩
      have hload' : lib'.Loads call.start ((Path.ofString dir).join call.path)
          (d.mapFiles (underDir dir)) := ⟨source, hsame.trans hread, hparse'⟩
      have hne := hmoved.steps_ne call.path source (hcall.sound hnormal).normal hread
      -- Each import is opened in the run, so the induction applies to its file.
      have heach : forEach (lib'.resolveImport c fuel ((Path.ofString dir).join call.path)
            (call.chain.map (Path.ofString dir).join))
          (d.imports.map fun i => (i.1, i.2.map (Span.mapFile (underDir dir)))) (call.reads + 1)
          = (forEach (lib.resolveImport c fuel call.path call.chain) d.imports (call.reads + 1)).map
              fun p => (p.1.map (outcome (underDir dir)), p.2) := by
        refine forEach_map fun before i after results between his hbefore => ?_
        have hnext := hcall.follow hgoing hchain hload his hbefore
        have htarget := hinside _ hnext
        have hfile := ih hnext
        exact resolveImport_moved hdir hpath (hinside call hcall) hne htarget hfile
      rw [resolveFile_of_loads hgoing hchain' hload', resolveFile_of_loads hgoing hchain hload,
        Document.imports_mapFiles, heach, Option.map_map, Option.map_map]
      congr 1
      funext p
      dsimp only [Function.comp_apply]
      rw [mapM_id_map_outcome, Resolution.mapFiles, outcome]
      cases p.1.mapM id with
      | error e => simp only [Except.map, Except.mapError]
      | ok ds => simp only [Except.map, Except.mapError, Document.splice_mapFiles]

end Runs

/-! ## Libraries of given files -/

/-- **Files can be moved together.** If given files have paths inside the current directory and no file
that is opened in a run lies outside of it, the files can be moved to another directory: a run there has
the result that it had, with the directory before all files that it tells. -/
theorem resolve_ofFiles_moved {dir : String} (hdir : (Path.ofString dir).IsDirectory)
    {files : List (String × Except ReadFailure String)}
    (hinside : ∀ f ∈ files, (Path.ofString f.1).normalize.IsInside)
    (hne : ∀ f ∈ files, (Path.ofString f.1).normalize.steps ≠ []) {c : Cancellation} {entry : String}
    (hcalls : ∀ call, (ofFiles files).Calls c (Path.ofString entry).normalize call →
      call.path.IsInside) :
    ∃ r, (ofFiles files).resolve c entry = some r ∧
      (ofFiles (files.map fun f => (underDir dir f.1, f.2))).resolve c (underDir dir entry)
        = some (r.mapFiles (underDir dir)) := by
  have hmoved := isMoved_ofFiles hdir hinside hne
  have hentry := hcalls _ .entry
  obtain ⟨r, reads, hresolve⟩ := exists_resolve_ofFiles_eq_some files c entry
  refine ⟨(r, reads), hresolve, ?_⟩
  have hrun := resolveFile_moved hdir hmoved (Path.isNormal_normalize _)
    (Path.isLegible_ofString entry).normalize hcalls ((ofFiles files).size + 2) .entry
  rw [resolve, ofString_underDir, normalize_join_of_isInside hdir hentry, hmoved.size_eq]
  refine hrun.trans ?_
  rw [resolve] at hresolve
  rw [hresolve, Option.map_some]

/-- Files that import each other in several spellings, and one that is not there. -/
def handbookFiles : List (String × Except ReadFailure String) :=
  [("guide/index.md", .ok "# Guide\n\n# [Terms](./terms.md)\n\n# [Rules](..//rules/all%20rules.md)\n"),
    ("./guide//terms.md", .ok "# Terms\n"),
    ("rules/all rules.md", .ok "# Rules\n\n## [Lost](../guide/parts/../lost.md)\n")]

/-- The files that are opened for the handbook. -/
def handbookPaths : List Path :=
  ["guide/index.md", "guide/terms.md", "rules/all rules.md", "guide/lost.md"].map Path.ofString

/-- What is told of the handbook. -/
def handbookError : ImportError :=
  ⟨.missing, "guide/lost.md", ["guide/index.md", "rules/all rules.md"],
    some ⟨some "rules/all rules.md", ⟨3, 1⟩, ⟨3, 37⟩⟩⟩

/-- When the handbook is moved, the same file is missed, and it is told with the directory before it. -/
theorem resolve_ofFiles_moved_handbookFiles :
    (∀ call, (ofFiles handbookFiles).Calls .never (Path.ofString "guide/index.md").normalize call →
      call.path.IsInside) ∧
    ∃ reads, (ofFiles handbookFiles).resolve .never "guide/index.md"
        = some (.error (.importing handbookError), reads) ∧
      (ofFiles (handbookFiles.map fun f => (underDir "docs/v2" f.1, f.2))).resolve .never
          (underDir "docs/v2" "guide/index.md")
        = some (.error (.importing (handbookError.mapFiles (underDir "docs/v2"))), reads) := by
  have hcalls : ∀ call, (ofFiles handbookFiles).Calls .never
      (Path.ofString "guide/index.md").normalize call → call.path.IsInside := by
    intro call hcall
    have hinside : ∀ p ∈ handbookPaths, p.IsInside := by decide +kernel
    exact hinside _ (hcall.path_mem (by decide +kernel) (by decide +kernel))
  have hmoves : ∃ r, (ofFiles handbookFiles).resolve .never "guide/index.md" = some r ∧
      (ofFiles (handbookFiles.map fun f => (underDir "docs/v2" f.1, f.2))).resolve .never
          (underDir "docs/v2" "guide/index.md")
        = some (r.mapFiles (underDir "docs/v2")) :=
    resolve_ofFiles_moved (by decide +kernel) (by decide +kernel) (by decide +kernel) hcalls
  obtain ⟨⟨r, reads⟩, hresolve, hmoved⟩ := hmoves
  have hfails : ((ofFiles handbookFiles).resolve .never "guide/index.md").map (fun r =>
      match r.1 with
      | .ok _ => none
      | .error e => some e) = some (some (.importing handbookError)) := by
    decide +kernel
  rw [hresolve] at hfails
  cases r with
  | ok d => cases hfails
  | error e =>
      cases hfails
      exact ⟨hcalls, reads, hresolve, hmoved⟩

end Library

end SpecDoc
