import SpecDoc.Proofs.Reindent.Reading
import SpecDoc.Proofs.Reindent.Stages

/-!
# The layout of examples does not matter

Spaces and tabs at the ends of the lines of an example can be added and taken away. The source compiles as
before, and its sections, examples and anchors keep their numbers and names: no anchor of an example moves
to another one, and none behind it changes.

* `resolve_ofFiles_singleton_eq_ok_iff`: a single source is resolved if it is a document without imports;
* `ReindentsExamples` says how the sources differ;
* `compileSource_of_reindentsExamples`: what is compiled.
-/

namespace SpecDoc

open Markup Text

/-! ## Single sources -/

namespace Library

/-- A library of one file resolves it if the run is not cancelled and the file is a document without
imports: an import could only be one of the file itself. -/
theorem resolve_ofFiles_singleton_eq_ok_iff {c : Cancellation} {name source : String} {d : Document} :
    (∃ reads, (ofFiles [(name, .ok source)]).resolve c name = some (.ok d, reads)) ↔
      c.isCancelled 0 = false ∧ d.imports = [] ∧
        Document.parse .initial (some (Path.ofString name).normalize.toString) source = .ok d := by
  have hnormal := Path.isNormal_normalize (Path.ofString name)
  have hread : (ofFiles [(name, .ok source)]).read (Path.ofString name).normalize = .ok source := by
    simp [ofFiles, findFile, Path.normalize_eq_self_iff.2 hnormal]
  constructor
  · rintro ⟨reads, h⟩
    obtain ⟨fuel, d₀, ds, hfuel, -, ⟨source₀, hread₀, hparse⟩, rfl, hds⟩ := exists_of_resolveFile_eq_ok h
    obtain rfl : source₀ = source := by rw [hread, Except.ok.injEq] at hread₀; exact hread₀.symm
    have hgoing : c.isCancelled 0 = false := by
      rw [← Bool.not_eq_true]
      intro hcancelled
      rw [resolve, resolveFile_succ_eq_some_iff.2 (.cancelled hcancelled)] at h
      cases h
    cases himports : d₀.imports with
    | nil =>
        rw [himports] at hds
        cases hds
        rw [Document.splice, Node.spliceAll_nil]
        exact ⟨hgoing, himports, hparse⟩
    | cons i is =>
        -- A file that is read for an import is the one file there is, which is on the chain.
        rw [himports] at hds
        cases hds with
        | cons hi _ =>
            obtain ⟨before, after, hi⟩ := hi
            obtain ⟨-, -, -, -, hchain, ⟨source₁, hread₁, -⟩, -⟩ := exists_of_resolveFile_eq_ok hi
            obtain ⟨f, hf, hpath, -⟩ := exists_of_read_ofFiles (isNormal_importTarget _ i.1) hread₁
            obtain rfl := List.mem_singleton.1 hf
            exact absurd (List.mem_singleton.2 hpath.symm) hchain
  · rintro ⟨hgoing, himports, hparse⟩
    refine ⟨1, ?_⟩
    rw [resolve, resolveFile_of_loads hgoing List.not_mem_nil ⟨source, hread, hparse⟩, himports]
    change some (Except.ok (d.splice []), 1) = _
    rw [Document.splice, Node.spliceAll_nil]

end Library

/-! ## How the sources differ -/

/-- Whether a source is the given one with other spaces and tabs at the two ends of lines that lie strictly
between the fences of examples. The lines are what is between line feeds, so that nothing else may differ. -/
def ReindentsExamples (source source' : String) : Prop :=
  RespacedAt (fun k => InExample none 1 (lines source.toList) (1 + k)) (cut (· == '\n') source.toList)
    (cut (· == '\n') source'.toList)

namespace ReindentsExamples

variable {source source' : String}

/-- No other characters come in. -/
theorem return_not_mem (h : ReindentsExamples source source') (hreturn : '\r' ∉ source.toList) :
    '\r' ∉ source'.toList := by
  rw [← join_cut '\n' source'.toList]
  refine not_mem_join (by decide) fun l' hl' => ?_
  obtain ⟨l, hl, hcore⟩ := exists_of_forall₂_right (RespacedAt.forall₂ h) hl'
  rw [hcore.mem_iff (by decide) (by decide)]
  exact fun hc => hreturn (mem_of_mem_cut hl hc)

/-- The last part is never in an example: there are no more lines than parts. -/
theorem getLast?_eq (h : ReindentsExamples source source') (hreturn : '\r' ∉ source.toList) :
    (cut (· == '\n') source'.toList).getLast? = (cut (· == '\n') source.toList).getLast? := by
  refine RespacedAt.getLast?_eq h fun k hk hin => ?_
  have hlines := congrArg List.length (lines_eq_take hreturn)
  rw [List.length_take] at hlines
  have := (lt_of_inExample hin).2
  omega

/-- The lines that are read differ in the same way. -/
theorem reindented (h : ReindentsExamples source source') (hreturn : '\r' ∉ source.toList)
    (file : Option String) : Reindented file 1 (lines source.toList) (lines source'.toList) := by
  have hlines' := lines_eq_take (h.return_not_mem hreturn)
  rw [h.getLast?_eq hreturn, RespacedAt.length_eq h] at hlines'
  have htake := RespacedAt.take h (if (cut (· == '\n') source.toList).getLast? = some []
    then (cut (· == '\n') source.toList).length - 1 else (cut (· == '\n') source.toList).length)
  rw [← lines_eq_take hreturn, ← hlines'] at htake
  exact htake.mono fun k => (inExample_congr none file 1 _ (1 + k)).1

end ReindentsExamples

/-! ## What is compiled -/

variable {o : CompileOptions} {name source source' : String}

/-- A source with other spaces in its examples compiles if the given one does, with the same biblio. -/
theorem exists_alike_of_compileSource {a : Annotated}
    (hlines : ∀ file, Reindented file 1 (lines source.toList) (lines source'.toList))
    (hone : ∀ l ∈ lines source.toList, IsOneLine l)
    (h : (compileSource o name source).run = some (.ok a)) :
    ∃ a', (compileSource o name source').run = some (.ok a') ∧ a.document.Alike a'.document ∧
      a'.biblio = a.biblio := by
  obtain ⟨d, d₁, reads, hresolve, hnumber, hanchors⟩ := exists_of_run_eq_ok h
  obtain ⟨hgoing, himports, hparse⟩ := Library.resolve_ofFiles_singleton_eq_ok_iff.1 ⟨reads, hresolve⟩
  obtain ⟨d', hparse', hd⟩ := Document.exists_alike_of_parse hparse (hlines _) hone
  obtain ⟨reads', hresolve'⟩ := Library.resolve_ofFiles_singleton_eq_ok_iff.2
    ⟨hgoing, hd.imports_eq.trans himports, hparse'⟩
  obtain ⟨d₁', d₂', hnumber', hanchors', hd₂⟩ := hd.exists_of_stages hnumber hanchors
  exact ⟨⟨d₂', a.biblio⟩, run_compile_eq_ok hresolve' hnumber' hanchors', hd₂, rfl⟩

/-- **The layout of examples does not matter.** A source without carriage returns, and one with other spaces
and tabs at the ends of the lines strictly between the fences of its examples: one compiles if the other does.
Then their nodes have the same kinds, numbers, section ids and anchors, and their biblios are the same. -/
theorem compileSource_of_reindentsExamples (hreturn : '\r' ∉ source.toList)
    (h : ReindentsExamples source source') :
    ((∃ a, (compileSource o name source).run = some (.ok a)) ↔
      ∃ a', (compileSource o name source').run = some (.ok a')) ∧
    ∀ a a', (compileSource o name source).run = some (.ok a) →
      (compileSource o name source').run = some (.ok a') →
        a'.document.marks = a.document.marks ∧ a'.biblio = a.biblio := by
  have hone : ∀ s : String, '\r' ∉ s.toList → ∀ l ∈ lines s.toList, IsOneLine l := by
    intro s hs l hl
    refine ⟨fun hc => ne_newline_of_mem_lines hl hc rfl, fun hc => hs ?_⟩
    rw [lines_eq_take hs] at hl
    exact mem_of_mem_cut (List.take_subset _ _ hl) hc
  have hlines := h.reindented hreturn
  have hforth := hone source hreturn
  refine ⟨⟨?_, ?_⟩, ?_⟩
  · rintro ⟨a, ha⟩
    obtain ⟨a', ha', -⟩ := exists_alike_of_compileSource hlines hforth ha
    exact ⟨a', ha'⟩
  · -- The other way round the sources differ in the same way.
    rintro ⟨a', ha'⟩
    have hback := hone source' (h.return_not_mem hreturn)
    obtain ⟨a, ha, -⟩ :=
      exists_alike_of_compileSource (fun file => (hlines file).symm hforth) hback ha'
    exact ⟨a, ha⟩
  · intro a a' ha ha'
    obtain ⟨b, hb, halike, hbiblio⟩ := exists_alike_of_compileSource hlines hforth ha
    rw [hb] at ha'
    cases ha'
    exact ⟨halike.marks_eq, hbiblio⟩

/-- A document with an example. -/
def indentedSource : String :=
  "# Guide\n\n# Sum\n\n\x60\x60\x60 js example\nlet x = 1\n  x + 1\n\x60\x60\x60\n\n" ++
    "# Rest\n\nNote: Read on.\n"

/-- The document with tabs in the example. -/
def tabbedSource : String :=
  "# Guide\n\n# Sum\n\n\x60\x60\x60 js example\n let x = 1\t\n\tx + 1\n\x60\x60\x60\n\n" ++
    "# Rest\n\nNote: Read on.\n"

/-- The parts of the guide between its line feeds, with given lines in the example. -/
def guideParts (first second : String) : List (List Char) :=
  ["# Guide", "", "# Sum", "", "\x60\x60\x60 js example", first, second, "\x60\x60\x60", "", "# Rest", "",
    "Note: Read on.", ""].map String.toList

/-- Only the sixth and the seventh line of the guides differ, and they are in the example. -/
theorem reindentsExamples_tabbedSource : ReindentsExamples indentedSource tabbedSource := by
  have hparts : cut (· == '\n') indentedSource.toList = guideParts "let x = 1" "  x + 1" := by
    decide +kernel
  have hparts' : cut (· == '\n') tabbedSource.toList = guideParts " let x = 1\t" "\tx + 1" := by
    decide +kernel
  have hin : ∀ m ∈ [6, 7], InExample none 1 (lines indentedSource.toList) m := by
    unfold InExample
    decide +kernel
  constructor
  · simp [hparts, hparts', guideParts]
  · rw [hparts, hparts']
    intro k l l' hl hl'
    have hcases : ∀ k < 13, k = 5 ∨ k = 6 ∨
        (guideParts " let x = 1\t" "\tx + 1")[k]? = (guideParts "let x = 1" "  x + 1")[k]? := by
      decide +kernel
    rcases hcases k (List.getElem?_eq_some_iff.1 hl).1 with rfl | rfl | hsame
    · cases hl
      cases hl'
      exact .inr ⟨hin 6 (by simp), "let x = 1".toList, [], [], [' '], ['\t'], rfl, rfl, by simp⟩
    · cases hl
      cases hl'
      exact .inr ⟨hin 7 (by simp), "x + 1".toList, [' ', ' '], [], ['\t'], [], rfl, rfl, by simp⟩
    · rw [hl, hl', Option.some.injEq] at hsame
      exact .inl hsame

/-- The example that is indented with tabs and the note behind it keep their anchors. -/
theorem compileSource_tabbedSource :
    '\r' ∉ indentedSource.toList ∧ ReindentsExamples indentedSource tabbedSource ∧
      ∃ a a', (compileSource .standard "guide.md" indentedSource).run = some (.ok a) ∧
        (compileSource .standard "guide.md" tabbedSource).run = some (.ok a') ∧
        a.document.marks.filterMap (·.2.id) = ["sec-Sum", "example-c859b", "sec-Rest", "note-1657f"] ∧
        a'.document.marks = a.document.marks ∧ a'.biblio = a.biblio := by
  have hreturn : '\r' ∉ indentedSource.toList := by decide +kernel
  have hids : (compileSource .standard "guide.md" indentedSource).run.map
      (fun r => r.toOption.map fun a => a.document.marks.filterMap (·.2.id))
        = some (some ["sec-Sum", "example-c859b", "sec-Rest", "note-1657f"]) := by
    decide +kernel
  obtain ⟨r, hrun, hr⟩ := Option.map_eq_some_iff.1 hids
  cases r with
  | error e => cases hr
  | ok a =>
      obtain ⟨hiff, hsame⟩ := @compileSource_of_reindentsExamples .standard "guide.md" _ _ hreturn
        reindentsExamples_tabbedSource
      obtain ⟨a', ha'⟩ := hiff.1 ⟨a, hrun⟩
      exact ⟨hreturn, reindentsExamples_tabbedSource, a, a', hrun, ha', Option.some.inj hr,
        hsame a a' hrun ha'⟩

end SpecDoc
