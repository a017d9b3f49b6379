import SpecDoc.Compile
import SpecDoc.Proofs.Import.Graph

/-!
# Compilations

A compilation is a resolution and the stages behind it. `Compiled` says once what can come of it.

* `annotate_cases`: what can come of an annotation, and `annotate_eq_ok_iff`: when it succeeds;
* `compiled_of_run`: what comes of a compilation is one of these;
* `exists_of_run_eq_ok`: the stages that a document went through;
* `checkStructure_of_resolve`: the structure of what was resolved is sound;
* `compile_error_cases`: so no compilation fails because of it.
-/

namespace SpecDoc

open Markup Text

/-! ## Stages -/

namespace Stage

variable {a : Annotated} {requireTitle : Bool}

/-- A sound document passes the check. -/
theorem run_check_of_ok (h : checkStructure requireTitle a.document = .ok ()) :
    run a (.check requireTitle) = pure a := by
  simp only [run, h]

/-- Any other document is refused. -/
theorem run_check_of_error {e : StructuralError}
    (h : checkStructure requireTitle a.document = .error e) :
    run a (.check requireTitle) = throw (.structural e) := by
  simp only [run, h]

/-- The numbered document goes on. -/
theorem run_numberSections_of_ok {d : Document} (h : SpecDoc.numberSections a.document = .ok d) :
    run a .numberSections = pure { a with document := d } := by
  simp only [run, h]

/-- A document that cannot be numbered is refused. -/
theorem run_numberSections_of_error {e : NumberingError}
    (h : SpecDoc.numberSections a.document = .error e) :
    run a .numberSections = throw (.numbering e) := by
  simp only [run, h]

end Stage

/-- An annotation runs its stages in order. -/
theorem annotate_eq (o : AnnotateOptions) (a : Annotated) :
    annotate o a = (Stage.run a (.check o.requireTitle) >>= fun a =>
      Stage.run a .numberSections >>= fun a => Stage.run a .numberExamples >>= fun a =>
      Stage.run a (.assignAnchors o.anchors)) := by
  simp [annotate, Stage.runAll, Stage.all, Stage.numbering]

/-- What comes of an annotation: the document is not sound, or it cannot be numbered, or it is numbered and
anchored. -/
theorem annotate_cases {o : AnnotateOptions} {d : Document} {b : Biblio}
    {r : Except CompileError Annotated} (h : (annotate o ⟨d, b⟩).run = some r) :
    (∃ e, checkStructure o.requireTitle d = .error e ∧ r = .error (.structural e)) ∨
    (∃ e, numberSections d = .error e ∧ r = .error (.numbering e)) ∨
    ∃ d₁ d₂ b₂, checkStructure o.requireTitle d = .ok () ∧ numberSections d = .ok d₁ ∧
      assignAnchors? o.anchors b (numberExamples d₁) = some (d₂, b₂) ∧ r = .ok ⟨d₂, b₂⟩ := by
  rw [annotate_eq] at h
  cases hcheck : checkStructure o.requireTitle d with
  | error e =>
      rw [Stage.run_check_of_error hcheck] at h
      cases h
      exact .inl ⟨e, rfl, rfl⟩
  | ok u =>
      rw [Stage.run_check_of_ok hcheck, pure_bind] at h
      cases hnumber : numberSections d with
      | error e =>
          rw [Stage.run_numberSections_of_error hnumber] at h
          cases h
          exact .inr (.inl ⟨e, rfl, rfl⟩)
      | ok d₁ =>
          rw [Stage.run_numberSections_of_ok hnumber, pure_bind] at h
          cases hanchors : assignAnchors? o.anchors b (numberExamples d₁) with
          | none =>
              simp only [Stage.run, pure_bind, hanchors] at h
              cases h
          | some p =>
              simp only [Stage.run, pure_bind, hanchors] at h
              cases h
              exact .inr (.inr ⟨d₁, p.1, p.2, rfl, rfl, hanchors, rfl⟩)

/-- An annotation that succeeds is a check, two numberings and an assignment of anchors. -/
theorem annotate_eq_ok_iff {o : AnnotateOptions} {d : Document} {b : Biblio} {a : Annotated} :
    (annotate o ⟨d, b⟩).run = some (.ok a) ↔
      checkStructure o.requireTitle d = .ok () ∧ ∃ d₁, numberSections d = .ok d₁ ∧
        assignAnchors? o.anchors b (numberExamples d₁) = some (a.document, a.biblio) := by
  constructor
  · intro h
    rcases annotate_cases h with ⟨e, -, heq⟩ | ⟨e, -, heq⟩ | ⟨d₁, d₂, b₂, hcheck, hnumber, hanchors, heq⟩
    · cases heq
    · cases heq
    · cases heq
      exact ⟨hcheck, d₁, hnumber, hanchors⟩
  · rintro ⟨hcheck, d₁, hnumber, hanchors⟩
    rw [annotate_eq, Stage.run_check_of_ok hcheck, pure_bind,
      Stage.run_numberSections_of_ok hnumber, pure_bind]
    simp only [Stage.run, pure_bind, hanchors]
    rfl

/-! ## What comes of a compilation -/

/-- What can come of a compilation: the document cannot be resolved, it is refused by one of the
stages, or it is numbered and anchored. -/
inductive Compiled (lib : Library) (o : CompileOptions) (entry : String) :
    Except CompileError Annotated → Prop where
  | unresolved {e : CompileError} {reads : ℕ}
      (hresolve : lib.resolve o.cancellation entry = some (.error e, reads)) :
      Compiled lib o entry (.error e)
  | unsound {d : Document} {reads : ℕ} {e : StructuralError}
      (hresolve : lib.resolve o.cancellation entry = some (.ok d, reads))
      (hcheck : checkStructure o.annotate.requireTitle d = .error e) :
      Compiled lib o entry (.error (.structural e))
  | unnumbered {d : Document} {reads : ℕ} {e : NumberingError}
      (hresolve : lib.resolve o.cancellation entry = some (.ok d, reads))
      (hnumber : numberSections d = .error e) :
      Compiled lib o entry (.error (.numbering e))
  | annotated {d d₁ d₂ : Document} {reads : ℕ} {b : Biblio}
      (hresolve : lib.resolve o.cancellation entry = some (.ok d, reads))
      (hnumber : numberSections d = .ok d₁)
      (hanchors : assignAnchors? o.annotate.anchors (Biblio.seeded o.external) (numberExamples d₁)
        = some (d₂, b)) :
      Compiled lib o entry (.ok ⟨d₂, b⟩)

/-- What comes of a compilation is one of the cases of `Compiled`. -/
theorem compiled_of_run {lib : Library} {o : CompileOptions} {entry : String}
    {r : Except CompileError Annotated} (h : (compile lib o entry).run = some r) :
    Compiled lib o entry r := by
  unfold compile at h
  cases hresolve : lib.resolve o.cancellation entry with
  | none =>
      rw [hresolve] at h
      cases h
  | some p =>
      obtain ⟨resolved, reads⟩ := p
      rw [hresolve] at h
      cases resolved with
      | error e =>
          cases h
          exact .unresolved hresolve
      | ok d =>
          change (annotate o.annotate ⟨d, Biblio.seeded o.external⟩).run = some r at h
          rcases annotate_cases h with
            ⟨e, hcheck, rfl⟩ | ⟨e, hnumber, rfl⟩ | ⟨d₁, d₂, b₂, -, hnumber, hanchors, rfl⟩
          · exact .unsound hresolve hcheck
          · exact .unnumbered hresolve hnumber
          · exact .annotated hresolve hnumber hanchors

/-- A document that comes out was resolved, numbered and anchored. -/
theorem exists_of_run_eq_ok {lib : Library} {o : CompileOptions} {entry : String} {a : Annotated}
    (h : (compile lib o entry).run = some (.ok a)) :
    ∃ d d₁ reads, lib.resolve o.cancellation entry = some (.ok d, reads) ∧
      numberSections d = .ok d₁ ∧
      assignAnchors? o.annotate.anchors (Biblio.seeded o.external) (numberExamples d₁)
        = some (a.document, a.biblio) := by
  generalize hr : Except.ok a = r at h
  cases compiled_of_run h with
  | unresolved _ => cases hr
  | unsound _ _ => cases hr
  | unnumbered _ _ => cases hr
  | annotated hresolve hnumber hanchors =>
      cases hr
      exact ⟨_, _, _, hresolve, hnumber, hanchors⟩

/-! ## The structure of what was resolved -/

/-- What is left of a text without the blanks at its end is not blank. -/
theorem allBlank_trimEnd {s : List Char} (h : trimEnd s ≠ []) : allBlank (trimEnd s) = false := by
  cases hblank : allBlank (trimEnd s) with
  | false => rfl
  | true =>
      exfalso
      induction s with
      | nil => exact h rfl
      | cons c r ih =>
          rw [trimEnd] at h hblank
          split at h
          · next hr =>
            split at h
            · exact h rfl
            · next hc => simp_all [allBlank]
          · next d t hr =>
            rw [hr] at ih hblank
            rw [allBlank, List.all_cons, Bool.and_eq_true] at hblank
            exact ih (by simp) hblank.2

/-- The text of a heading is trimmed. -/
theorem allBlank_of_heading? {line text : List Char} {level : ℕ}
    (h : heading? line = some (level, text)) (hne : text ≠ []) : allBlank text = false := by
  unfold heading? at h
  dsimp only at h
  split at h
  · cases h
  · split at h
    · cases h
      exact allBlank_trimEnd hne
    · cases h

/-- A document that starts a run has a title. -/
theorem hasTitle_of_parse {file : Option String} {source : String} {d : Document}
    (h : Document.parse .initial file source = .ok d) : d.hasTitle = true := by
  obtain ⟨n, rest, htitled, -⟩ := Document.exists_of_parse h
  rw [Document.hasTitle]
  generalize d.title = title at htitled ⊢
  cases htitled with
  | initial htitle =>
      obtain ⟨before, line, -, -, -, hline, hne⟩ := exists_of_titleLine htitle
      simp [allBlank_of_heading? hline hne]

section Resolved

variable {lib : Library} {c : Cancellation} {entry : String} {d : Document} {reads : ℕ}

/-- A document that was resolved is what its entry expands to. -/
theorem Library.expands_of_resolve (h : lib.resolve c entry = some (.ok d, reads)) :
    Expands.File (lib.Loads .initial) (lib.LoadsBelow (Path.ofString entry).normalize)
      (Path.ofString entry).normalize d :=
  expands_of_resolveFile h (by simp)

/-- What is true everywhere in what is read is true everywhere in a document that was resolved, if it stays true
when the imports below a node give way. -/
theorem Library.everywhere_of_resolve {P : Node → Prop}
    (hparse : ∀ {start : Start} {file : Option String} {source : String} {d : Document},
      Document.parse start file source = .ok d → Node.Everywhere P d.contents)
    (hgroup : ∀ {load : Path → Document → Prop} {path : Path} {g : Group} {span : Option Span}
      {contents contents' : List Node}, Expands load path contents contents' →
        P (.group g span contents) → P (.group g span contents'))
    (hrule : ∀ {r : Rule} {span : Option Span} {head : Option Node} {body body' : List Node},
      P (.rule r span head body) → P (.rule r span head body'))
    (h : lib.resolve c entry = some (.ok d, reads)) : Node.Everywhere P d.contents := by
  have hloads : ∀ {start : Start} {path : Path} {d : Document}, lib.Loads start path d →
      Node.Everywhere (fun n => n.AsRead ∧ P n) d.contents := by
    rintro start path d hload n hn
    have hread := hload.asRead n hn
    obtain ⟨source, -, hsource⟩ := hload
    exact ⟨hread, hparse hsource n hn⟩
  obtain ⟨d₀, hload, hexpands, -, -⟩ := Library.expands_of_resolve h
  have hboth : Node.Everywhere (fun n => n.AsRead ∧ P n) d.contents := by
    refine hexpands.everywhere (fun n hn => hn.1) ?_ ?_ ?_ (hloads hload)
    · exact fun hcontents hg => ⟨hg.1, hgroup hcontents hg.2⟩
    · exact fun hr => ⟨hr.1, hrule hr.2⟩
    · exact fun q d hbelow => hloads hbelow.2
  exact hboth.mono fun _ hn => hn.2

/-- A document that was resolved has the title of its entry. -/
theorem hasTitle_of_resolve (h : lib.resolve c entry = some (.ok d, reads)) :
    d.hasTitle = true := by
  obtain ⟨d₀, ⟨source, -, hparse⟩, -, htitle, -⟩ := Library.expands_of_resolve h
  rw [Document.hasTitle, htitle, ← Document.hasTitle]
  exact hasTitle_of_parse hparse

/-- No import is left in a document that was resolved. -/
theorem not_isImport_of_resolve (h : lib.resolve c entry = some (.ok d, reads)) :
    Node.Everywhere (fun n => n.isImport = false) d.contents := by
  obtain ⟨d₀, -, hexpands, -, -⟩ := Library.expands_of_resolve h
  exact hexpands.not_isImport

/-- There is no first import where there is none. -/
theorem firstImport?_eq_none (h : Node.Everywhere (fun n => n.isImport = false) d.contents) :
    d.firstImport? = none := by
  rw [← Document.forall_descendants_iff] at h
  rw [Document.firstImport?, List.findSome?_eq_none_iff]
  intro n hn
  have himport := h n hn
  split
  · cases himport
  · rfl

/-- A document that was resolved passes the check of its structure. -/
theorem checkStructure_of_resolve (h : lib.resolve c entry = some (.ok d, reads))
    (requireTitle : Bool) : checkStructure requireTitle d = .ok () := by
  rw [checkStructure, hasTitle_of_resolve h, firstImport?_eq_none (not_isImport_of_resolve h)]
  simp

end Resolved

/-- A document that is resolved, numbered and anchored comes out. -/
theorem run_compile_eq_ok {lib : Library} {o : CompileOptions} {entry : String} {d d₁ : Document}
    {reads : ℕ} {a : Annotated} (hresolve : lib.resolve o.cancellation entry = some (.ok d, reads))
    (hnumber : numberSections d = .ok d₁)
    (hanchors : assignAnchors? o.annotate.anchors (Biblio.seeded o.external) (numberExamples d₁)
      = some (a.document, a.biblio)) : (compile lib o entry).run = some (.ok a) := by
  unfold compile
  rw [hresolve]
  change (annotate o.annotate ⟨d, Biblio.seeded o.external⟩).run = some (.ok a)
  exact annotate_eq_ok_iff.2 ⟨checkStructure_of_resolve hresolve _, d₁, hnumber, hanchors⟩

/-! ## Failures -/

/-- **No structural errors.** A compilation that fails has a source that is malformed, a file that
could not be had, or a section that cannot be numbered. -/
theorem compile_error_cases {lib : Library} {o : CompileOptions} {entry : String}
    {e : CompileError} (h : (compile lib o entry).run = some (.error e)) :
    (∃ p, e = .parse p) ∨ (∃ i, e = .importing i) ∨ ∃ n, e = .numbering n := by
  generalize hr : Except.error e = r at h
  cases compiled_of_run h with
  | unresolved hresolve =>
      cases hr
      rcases Library.resolveFile_eq_error hresolve with hparse | himport
      · exact .inl hparse
      · exact .inr (.inl himport)
  | unsound hresolve hcheck =>
      rw [checkStructure_of_resolve hresolve] at hcheck
      cases hcheck
  | unnumbered _ _ =>
      cases hr
      exact .inr (.inr ⟨_, rfl⟩)
  | annotated _ _ _ => cases hr

/-- A document whose imported file goes back from letters to numbers. -/
def backwardsFiles : List (String × Except ReadFailure String) :=
  [("spec/index.md", .ok "# Backwards\n\n# A. Annex\n\n# [Rest](./rest.md)\n"),
    ("spec/rest.md", .ok "# 1. Scope\n\nToo late.\n")]

/-- A run on these files fails, and not because of their structure. -/
theorem compile_error_cases_backwardsFiles :
    ∃ e, (compile (Library.ofFiles backwardsFiles) .standard "spec/index.md").run
        = some (.error e) ∧
      ((∃ p, e = .parse p) ∨ (∃ i, e = .importing i) ∨ ∃ n, e = .numbering n) := by
  have hfails : (compile (Library.ofFiles backwardsFiles) .standard "spec/index.md").run.map
      Except.toBool = some false := by
    decide +kernel
  obtain ⟨r, hrun, hr⟩ := Option.map_eq_some_iff.1 hfails
  cases r with
  | error e => exact ⟨e, hrun, compile_error_cases hrun⟩
  | ok a => cases hr

end SpecDoc
