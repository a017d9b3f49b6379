import SpecDoc.Proofs.Import.Resolution
import SpecDoc.Proofs.Markup.Levels

/-!
# Trails of imports

An error tells the chain of files whose imports led to the one that failed. On the way down a resolution
makes the chain longer, on the way up it tells where the import stands that failed. `Trail` says which
imports can be followed, one after the other, and `Tells` what an error has to say behind them.

* `fails_of_resolveFile`: a file fails by itself or by the first of its imports that fails;
* `exists_trail_of_resolveFile`: the trail that an error tells of;
* `resolve_ofFiles_traced`: every error of a resolution has one, and it starts at the entry.
-/

namespace SpecDoc

open Markup Resolution

/-- An import that is followed: the file that holds it, what it names and where it stands. -/
structure Hop where
  file : Path
  raw : String
  span : Option Span

/-! ## Imports of a document -/

/-- The imports of a document stand in its file. -/
theorem Document.exists_span_of_mem_imports {start : Start} {file : Option String} {source : String}
    {d : Document} (h : Document.parse start file source = .ok d) {i : String × Option Span}
    (hi : i ∈ d.imports) : ∃ span, i.2 = some span ∧ span.file = file := by
  obtain ⟨n, hn, himport⟩ := List.mem_filterMap.1 hi
  obtain ⟨p, hp, rfl⟩ := Document.mem_descendants_iff.1 hn
  split at himport
  · next path span hnode =>
    cases himport
    have hkind : p.node.kind = .importLink := by rw [hnode]; rfl
    obtain ⟨level, ⟨span', hspan, k, line, rfl, -⟩, -⟩ :=
      (Document.followsHeadings_of_parse h).headed p hp (.inr hkind)
    rw [hnode] at hspan
    exact ⟨_, hspan, rfl⟩
  · cases himport

namespace Library

/-! ## Trails -/

/-- How a file is read behind the imports that were followed. -/
def startBehind : List Hop → Start
  | [] => .initial
  | _ :: _ => .imported

/-- Whether a file that is imported behind a chain of files can be resolved by itself. -/
def Resolves (lib : Library) (chain : List Path) (path : Path) : Prop :=
  ∃ fuel d reads reads', lib.resolveFile .never fuel path .imported chain reads
    = some (.ok d, reads')

/-- Imports that can be followed one after the other, from the entry to a file. No file is opened twice
on the way, and in each of them the imports before the one that is followed can be resolved. -/
inductive Trail (lib : Library) (entry : Path) : List Hop → Path → Prop where
  | entry : Trail lib entry [] entry
  | follow {hops : List Hop} {path : Path} {d : Document} {before after : List (String × Option Span)}
      {raw : String} {span : Option Span} (h : Trail lib entry hops path)
      (hpath : path ∉ hops.map Hop.file) (hload : lib.Loads (startBehind hops) path d)
      (himports : d.imports = before ++ (raw, span) :: after)
      (hbefore : ∀ i ∈ before, lib.Resolves (hops.map Hop.file ++ [path]) (importTarget path i.1)) :
      Trail lib entry (hops ++ [⟨path, raw, span⟩]) (importTarget path raw)

namespace Trail

variable {lib : Library} {entry path : Path} {hops : List Hop}

/-- The files on the way are different. -/
theorem nodup (h : lib.Trail entry hops path) : (hops.map Hop.file).Nodup := by
  induction h with
  | entry => exact List.nodup_nil
  | follow _ hpath _ _ _ ih =>
      rw [List.map_append]
      exact List.nodup_append_comm.1 (List.nodup_cons.2 ⟨hpath, ih⟩)

/-- The first file on the way is the entry. -/
theorem head?_eq (h : lib.Trail entry hops path) :
    (hops.map Hop.file ++ [path]).head? = some entry := by
  induction h with
  | entry => rfl
  | @follow hops path _ _ _ raw span _ _ _ _ _ ih =>
      rw [List.map_append]
      exact (List.head?_append_of_ne_nil _ (by simp)).trans ih

/-- The imports on the way stand in their files. -/
theorem exists_span (h : lib.Trail entry hops path) :
    ∀ hop ∈ hops, ∃ span, hop.span = some span ∧ span.file = some hop.file.toString := by
  induction h with
  | entry => simp
  | @follow hops path d _ _ raw span _ _ hload himports _ ih =>
      refine List.forall_mem_append.2 ⟨ih, List.forall_mem_singleton.2 ?_⟩
      have hmem : (raw, span) ∈ d.imports := by
        rw [himports]
        exact List.mem_append_right _ List.mem_cons_self
      obtain ⟨source, -, hparse⟩ := hload
      exact Document.exists_span_of_mem_imports hparse hmem

/-- If the entry is legible, so are the files on the way. -/
theorem isLegible (h : lib.Trail entry hops path) (hentry : entry.IsLegible) :
    ∀ p ∈ hops.map Hop.file ++ [path], p.IsLegible := by
  induction h with
  | entry => exact List.forall_mem_singleton.2 hentry
  | follow _ _ _ _ _ ih =>
      rw [List.map_append]
      refine List.forall_mem_append.2 ⟨ih, List.forall_mem_singleton.2 ?_⟩
      have hpath := ih _ (List.mem_append_right _ (List.mem_singleton.2 rfl))
      exact isLegible_importTarget hpath _

end Trail

/-! ## What errors tell -/

/-- Whether a file can be read and is no document. -/
def Malformed (lib : Library) (start : Start) (path : Path) : Prop :=
  ∃ source e, lib.read path = .ok source ∧
    Document.parse start (some path.toString) source = .error e

/-- Whether a file cannot be read for the given reason. -/
def Unreadable (lib : Library) (path : Path) (problem : ImportProblem) : Prop :=
  ∃ f, lib.read path = .error f ∧ problem = problemOf f

/-- Whether a problem is that of a file behind a chain of files: the file is one of the chain, or it cannot be read.
-/
structure Explains (lib : Library) (chain : List Path) (path : Path) (problem : ImportProblem) :
    Prop where
  cycle_iff : problem = .cycle ↔ path ∈ chain
  unreadable : problem ≠ .cycle → lib.Unreadable path problem

/-- What the error of a file says that was reached by following imports. It names the file and the
files on the way. If the file could not be had, it says why, and where the last import stands. -/
def Tells (lib : Library) (hops : List Hop) (path : Path) : CompileError → Prop
  | .parse e =>
    e.file = some path.toString ∧ e.chain = hops.map (·.file.toString) ∧
      lib.Malformed (startBehind hops) path
  | .importing e =>
    e.path = path.toString ∧ e.chain = hops.map (·.file.toString) ∧
      e.span = hops.getLast?.bind Hop.span ∧ lib.Explains (hops.map Hop.file) path e.problem
  | _ => False

/-- The error of a file as it is told where the last import is resolved that led to it. -/
def located (hops : List Hop) (path : Path) (e : CompileError) : CompileError :=
  match hops.getLast? with
  | none => e
  | some hop => locate path hop.span e

/-- Behind an import the error is told where this import is resolved. -/
theorem located_concat (hops : List Hop) (hop : Hop) (path : Path) (e : CompileError) :
    located (hops ++ [hop]) path e = locate path hop.span e := by
  rw [located, List.getLast?_concat]

/-- The error of a file that is refused tells the way to it. -/
theorem tells_refused {lib : Library} {hops : List Hop} {path : Path} {problem : ImportProblem}
    (h : lib.Explains (hops.map Hop.file) path problem) :
    lib.Tells hops path (located hops path (.importing
      ⟨problem, path.toString, (hops.map Hop.file).map Path.toString, none⟩)) := by
  have hchain : (hops.map Hop.file).map Path.toString = hops.map (·.file.toString) := List.map_map
  rw [located]
  cases hlast : hops.getLast? with
  | none => exact ⟨rfl, hchain, by rw [hlast]; rfl, h⟩
  | some hop =>
      dsimp only [locate]
      rw [if_pos ⟨rfl, rfl⟩]
      exact ⟨rfl, hchain, by rw [hlast]; rfl, h⟩

/-- The error of a source that is malformed tells the way to it. -/
theorem tells_malformed {lib : Library} {hops : List Hop} {path : Path} {e : ParseError}
    (hfile : e.file = some path.toString)
    (hchain : e.chain = (hops.map Hop.file).map Path.toString)
    (hmalformed : lib.Malformed (startBehind hops) path) :
    lib.Tells hops path (located hops path (.parse e)) := by
  have hparse : located hops path (.parse e) = .parse e := by
    unfold located
    split <;> rfl
  rw [hparse]
  exact ⟨hfile, hchain.trans List.map_map, hmalformed⟩

/-- An error that tells of an import keeps the place of that import. -/
theorem Tells.locate_eq {lib : Library} {entry path : Path} {hops : List Hop} {e : CompileError}
    (h : lib.Tells hops path e) (htrail : lib.Trail entry hops path) (hne : hops ≠ []) (target : Path)
    (span : Option Span) : locate target span e = e := by
  cases e with
  | importing e =>
      obtain ⟨-, -, hspan, -⟩ := h
      obtain ⟨s, hs, -⟩ := htrail.exists_span _ (List.getLast_mem hne)
      rw [List.getLast?_eq_getLast_of_ne_nil hne, Option.bind_some, hs] at hspan
      rw [locate, if_neg (by simp [hspan])]
  | parse e => rfl
  | numbering e => rfl
  | structural e => rfl

/-! ## Down and up again -/

variable {lib : Library} {fuel reads reads' : ℕ} {path entry : Path} {start : Start}
  {chain : List Path} {e : CompileError}

/-- How a file can fail that is opened behind a chain of files, in a run that is not cancelled: it is
refused, it is malformed, or one of its imports is the first that fails. -/
inductive Fails (lib : Library) (fuel : ℕ) (path : Path) (start : Start) (chain : List Path) :
    CompileError → Prop where
  | refused {problem : ImportProblem} (h : lib.Explains chain path problem) :
      Fails lib fuel path start chain
        (.importing ⟨problem, path.toString, chain.map Path.toString, none⟩)
  | malformed {e : ParseError} (hfile : e.file = some path.toString)
      (hchain : e.chain = chain.map Path.toString) (hmalformed : lib.Malformed start path) :
      Fails lib fuel path start chain (.parse e)
  | importing {d : Document} {before after : List (String × Option Span)} {raw : String}
      {span : Option Span} {e : CompileError} {reads reads' : ℕ} (hpath : path ∉ chain)
      (hload : lib.Loads start path d) (himports : d.imports = before ++ (raw, span) :: after)
      (hbefore : ∀ i ∈ before, lib.Resolves (chain ++ [path]) (importTarget path i.1))
      (hfile : lib.resolveFile .never fuel (importTarget path raw) .imported (chain ++ [path]) reads
        = some (.error e, reads')) :
      Fails lib fuel path start chain (locate (importTarget path raw) span e)

/-- A file that fails does it in one of the ways of `Fails`. -/
theorem fails_of_resolveFile
    (h : lib.resolveFile .never (fuel + 1) path start chain reads = some (.error e, reads')) :
    lib.Fails fuel path start chain e := by
  rw [resolveFile_succ_eq_some_iff] at h
  generalize hr : ((.error e, reads') : Resolution) = r at h
  cases h with
  | cancelled hcancelled => cases hcancelled
  | cycle _ hchain =>
      cases hr
      exact .refused ⟨iff_of_true rfl hchain, fun hne => absurd rfl hne⟩
  | @unreadable f _ hchain hread =>
      cases hr
      have hne : problemOf f ≠ .cycle := by cases f <;> simp [problemOf]
      exact .refused ⟨iff_of_false hne hchain, fun _ => ⟨f, hread, rfl⟩⟩
  | malformed _ _ hread hparse =>
      cases hr
      exact .malformed (Document.file_of_parse_eq_error hparse :) rfl ⟨_, _, hread, hparse⟩
  | @resolved d results _ _ hchain hload heach =>
      cases hall : results.mapM id with
      | ok ds =>
          rw [hall] at hr
          cases hr
      | error e' =>
          rw [hall] at hr
          cases hr
          -- Documents came out for the imports before the one that failed.
          obtain ⟨ds, rest, rfl⟩ := exists_append_of_mapM_id_eq_error hall
          obtain ⟨before, behind, himports, hbefore, hbehind⟩ :=
            exists_append_of_forall₂ (forall₂_of_forEach heach).flip
          obtain ⟨⟨raw, span⟩, after, ⟨r, r', hi⟩, -, rfl⟩ := List.forall₂_cons_left_iff.1 hbehind
          obtain ⟨e₁, hfile, rfl⟩ := exists_of_resolveImport_eq_error hi
          refine .importing hchain hload himports (fun i hi => ?_) hfile
          obtain ⟨_, hmem, reads₁, reads₂, hok⟩ := exists_of_forall₂_right hbefore hi
          obtain ⟨d', -, rfl⟩ := List.mem_map.1 hmem
          exact ⟨fuel, d', reads₁, reads₂, resolveFile_of_resolveImport_eq_ok hok⟩

/-- Behind imports that were followed, an error tells of a trail that goes on from there. The induction
is on the bound of the chain: the file fails by itself, or the trail goes on with the import that
failed, and what is told there is not changed any more. -/
theorem exists_trail_of_resolveFile {hops : List Hop} (htrail : lib.Trail entry hops path)
    (h : lib.resolveFile .never fuel path (startBehind hops) (hops.map Hop.file) reads
      = some (.error e, reads')) :
    ∃ more failing, lib.Trail entry (hops ++ more) failing ∧
      lib.Tells (hops ++ more) failing (located hops path e) := by
  induction fuel generalizing hops path e reads reads' with
  | zero => cases h
  | succ fuel ih =>
      cases fails_of_resolveFile h with
      | refused hproblem =>
          refine ⟨[], path, ?_⟩
          rw [List.append_nil]
          exact ⟨htrail, tells_refused hproblem⟩
      | malformed hfile hchain hmalformed =>
          refine ⟨[], path, ?_⟩
          rw [List.append_nil]
          exact ⟨htrail, tells_malformed hfile hchain hmalformed⟩
      | @importing d before after raw span e' r r' hpath hload himports hbefore hfile =>
          have hnext := htrail.follow hpath hload himports hbefore
          have hstart : startBehind (hops ++ [Hop.mk path raw span]) = .imported := by
            cases hops <;> rfl
          have hfiles : (hops ++ [Hop.mk path raw span]).map Hop.file
              = hops.map Hop.file ++ [path] := by
            rw [List.map_append]
            rfl
          rw [← hstart, ← hfiles] at hfile
          obtain ⟨more, failing, hmore, htells⟩ := ih hnext hfile
          rw [located_concat] at htells
          rw [List.append_assoc] at hmore htells
          refine ⟨_, failing, hmore, ?_⟩
          unfold located
          split
          · exact htells
          · rwa [htells.locate_eq hmore (by simp)]

/-! ## Errors of resolutions -/

/-- What an error of a resolution tells. The files on its chain are different and start with the entry;
without any the entry itself failed. Each of them is a document and holds an import of the next one, or
of the file that failed, and the imports before that one can be resolved. All the files can be read
off the error, and so can the place of the last import. -/
structure Traced (lib : Library) (entry : Path) (hops : List Hop) (failing : Path)
    (e : CompileError) : Prop where
  trail : lib.Trail entry hops failing
  head?_eq : (hops.map Hop.file ++ [failing]).head? = some entry
  nodup : (hops.map Hop.file).Nodup
  exists_span : ∀ hop ∈ hops, ∃ span, hop.span = some span ∧ span.file = some hop.file.toString
  ofString_toString : ∀ p ∈ hops.map Hop.file ++ [failing], Path.ofString p.toString = p
  tells : lib.Tells hops failing e

/-- **Errors carry a true chain of imports.** An entry of given files has a result, and if this is an
error, it tells of the imports that were followed up to the first file that failed. -/
theorem resolve_ofFiles_traced (files : List (String × Except ReadFailure String))
    (entry : String) :
    ∃ r reads, (ofFiles files).resolve .never entry = some (r, reads) ∧
      ∀ e, r = .error e → ∃ hops failing,
        (ofFiles files).Traced (Path.ofString entry).normalize hops failing e := by
  obtain ⟨r, reads, hresolve⟩ := exists_resolve_ofFiles_eq_some files .never entry
  refine ⟨r, reads, hresolve, ?_⟩
  rintro e rfl
  obtain ⟨hops, failing, htrail, htells⟩ := exists_trail_of_resolveFile .entry hresolve
  rw [List.nil_append] at htrail htells
  have hlegible := htrail.isLegible (Path.isLegible_ofString entry).normalize
  exact ⟨hops, failing, htrail, htrail.head?_eq, htrail.nodup, htrail.exists_span,
    fun p hp => (hlegible p hp).ofString_toString, htells⟩

/-- Files with an import that leads nowhere, below one that can be resolved. -/
def lostFiles : List (String × Except ReadFailure String) :=
  [("spec/index.md",
      .ok "# Guide\n\n# [Terms](terms.md)\n\n# [Rules](parts/rules.md)\n\n# [Rest](rest.md)\n"),
    ("spec/terms.md", .ok "# Terms\n\nAll of them.\n"),
    ("spec/parts/rules.md",
      .ok "# Rules\n\n## [Terms](../terms.md)\n\n## [Forms](forms.md)\n\n## [Guide](../index.md)\n")]

/-- What is told of the files of which one is lost. -/
def lostError : ImportError :=
  ⟨.missing, "spec/parts/forms.md", ["spec/index.md", "spec/parts/rules.md"],
    some ⟨some "spec/parts/rules.md", ⟨5, 1⟩, ⟨5, 21⟩⟩⟩

/-- The error of these files tells the way to the first of their imports that fails. -/
theorem resolve_ofFiles_traced_lostFiles :
    (∃ reads, (ofFiles lostFiles).resolve .never "./spec/index.md"
        = some (.error (.importing lostError), reads)) ∧
      ∃ hops failing, (ofFiles lostFiles).Traced (Path.ofString "./spec/index.md").normalize hops
        failing (.importing lostError) := by
  have hfails : ((ofFiles lostFiles).resolve .never "./spec/index.md").map (fun r =>
      match r.1 with
      | .ok _ => none
      | .error e => some e) = some (some (.importing lostError)) := by
    decide +kernel
  obtain ⟨r, reads, hresolve, htraced⟩ := resolve_ofFiles_traced lostFiles "./spec/index.md"
  rw [hresolve] at hfails
  cases r with
  | ok d => cases hfails
  | error e =>
      cases hfails
      exact ⟨⟨reads, hresolve⟩, htraced _ rfl⟩

end Library

end SpecDoc
