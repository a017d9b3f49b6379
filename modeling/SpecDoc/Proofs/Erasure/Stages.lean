import Mathlib.Data.List.Perm.Basic
import SpecDoc.Proofs.Compile
import SpecDoc.Proofs.Erasure.Sweeps

/-!
# Stages and annotations

The stages of an annotation are sweeps for different annotations. So they change nothing else in a
document, they can be run in any order, and running them again does not change their result.

* `blank_eq_of_annotate`: an annotated document without annotations is the document that was annotated;
* `annotate_again`: annotating it again gives the same document and the same biblio;
* `Stage.runAll_eq_of_perm`: stages that do not depend on each other can be run in any order;
* `runAll_annotating_of_perm`: the two numberings and the assignment of anchors are such stages.
-/

namespace SpecDoc

variable {o : AnchorOptions} {b b' : Biblio} {d d' d₁ d₂ : Document}

/-! ## What a stage changes -/

/-- The slugs of sections remain when an annotation is changed. -/
theorem sectionSlugs_eq_of_erase_eq {a : Annotation} (h : d'.erase a = d.erase a) :
    sectionSlugs d' = sectionSlugs d := by
  rw [← sectionSlugs_erase a, h, sectionSlugs_erase]

/-- Numbered sections differ in what they are numbered with. -/
theorem erase_eq_of_numberSections (h : numberSections d = .ok d') :
    d'.erase .sectionNumber = d.erase .sectionNumber := by
  obtain ⟨s, hsweep⟩ := numberSections_eq_ok_iff.1 h
  exact Sweep.erase_eq_of_document NumberingState.writes hsweep

/-- Numbered examples differ in their numbers. -/
theorem erase_numberExamples (d : Document) :
    (numberExamples d).erase .exampleNumber = d.erase .exampleNumber := by
  obtain ⟨count, hsweep⟩ := numberExamples_eq_iff.1 (rfl : numberExamples d = numberExamples d)
  exact Sweep.erase_eq_of_document ExampleNumbering.writes hsweep

/-- Anchored nodes differ in their ids. -/
theorem erase_eq_of_assignAnchors? (h : assignAnchors? o b d = some (d', b')) :
    d'.erase .anchor = d.erase .anchor := by
  obtain ⟨s, hsweep, -⟩ := assignAnchors?_eq_some_iff.1 h
  exact Sweep.erase_eq_of_document (AnchorState.writes o _) hsweep

/-- A document that was numbered and anchored is the one before, but for its annotations. -/
theorem blank_eq_of_stages (hnumber : numberSections d = .ok d₁)
    (hanchors : assignAnchors? o b (numberExamples d₁) = some (d₂, b')) : d₂.blank = d.blank :=
  calc d₂.blank
      = (numberExamples d₁).blank :=
        Document.blank_eq_of_erase_eq (erase_eq_of_assignAnchors? hanchors)
    _ = d₁.blank := Document.blank_eq_of_erase_eq (erase_numberExamples d₁)
    _ = d.blank := Document.blank_eq_of_erase_eq (erase_eq_of_numberSections hnumber)

/-- **What annotation changes.** The traversals of an annotation take every node apart and put it together with its
children again. Where they succeed, the document is the one that was given, but for its annotations. -/
theorem blank_eq_of_annotate {o : AnnotateOptions} {b : Biblio} {d : Document} {a : Annotated}
    (h : (annotate o ⟨d, b⟩).run = some (.ok a)) : a.document.blank = d.blank := by
  obtain ⟨-, d₁, hnumber, hanchors⟩ := annotate_eq_ok_iff.1 h
  exact blank_eq_of_stages hnumber hanchors

/-- A document that was annotated before its sections were renamed and its example was changed. -/
def draftDocument : Document :=
  Build.document "Specification"
    [.group (.numberedSection ⟨"Terms", some "2", [.number 7], some "7", some "sec-Old"⟩) none
      [.group (.subsection ⟨"Remarks", [.number 7], some "sec-Old.Remarks"⟩) none [],
        .group (.definitionTerm "field" (some "def-old")) none [Build.text "field"],
        .leaf (.code ⟨none, "{ a }", true, false, some 9, some "example-00000"⟩) none],
      Build.numberedSection none "Execution"
        [.rule (.algorithm (some "Old()")) none (some (.leaf (.call "Execute" []) none)) []]]

/-- Nothing that the draft was annotated with remains. -/
theorem annotate_draftDocument :
    (annotate .standard ⟨draftDocument, Biblio.seeded Table.empty⟩).run.map
        (fun r => r.toOption.map fun a =>
          (a.document.sections.map Section.number, a.document.descendants.filterMap Node.id?))
      = some (some ([some "2", some "3"],
          ["sec-Terms", "sec-Terms.Remarks", "def-field", "example-1c7e1", "sec-Execution",
            "Execute()"])) := by
  decide +kernel

/-- But for its annotations the draft is what it was. -/
theorem blank_eq_draftDocument :
    ∃ a, (annotate .standard ⟨draftDocument, Biblio.seeded Table.empty⟩).run = some (.ok a) ∧
      a.document.descendants.filterMap Node.id?
        = ["sec-Terms", "sec-Terms.Remarks", "def-field", "example-1c7e1", "sec-Execution",
          "Execute()"] ∧
      a.document.blank = draftDocument.blank := by
  obtain ⟨r, hrun, hr⟩ := Option.map_eq_some_iff.1 annotate_draftDocument
  cases r with
  | error e => cases hr
  | ok a => exact ⟨a, hrun, congrArg Prod.snd (Option.some.inj hr), blank_eq_of_annotate hrun⟩

/-! ## Stages that are run again -/

/-- Numbered sections are numbered as they are. -/
theorem numberSections_again (h : numberSections d = .ok d') : numberSections d' = .ok d' := by
  obtain ⟨s, hsweep⟩ := numberSections_eq_ok_iff.1 h
  exact numberSections_eq_ok_iff.2 ⟨s, Sweep.document_again NumberingState.annotates hsweep⟩

/-- Numbered sections are numbered as they are, also when another annotation was changed. -/
theorem numberSections_fixed {a : Annotation} (ha : a ≠ .sectionNumber)
    (hd : d'.erase a = d.erase a) (h : numberSections d = .ok d) : numberSections d' = .ok d' := by
  obtain ⟨s, hsweep⟩ := numberSections_eq_ok_iff.1 h
  exact numberSections_eq_ok_iff.2 ⟨s, Sweep.document_fixed NumberingState.annotates ha hd hsweep⟩

/-- Numbered examples are numbered as they are. -/
theorem numberExamples_again (d : Document) :
    numberExamples (numberExamples d) = numberExamples d := by
  obtain ⟨count, hsweep⟩ := numberExamples_eq_iff.1 (rfl : numberExamples d = numberExamples d)
  exact numberExamples_eq_iff.2 ⟨count, Sweep.document_again ExampleNumbering.annotates hsweep⟩

/-- Numbered examples are numbered as they are, also when another annotation was changed. -/
theorem numberExamples_fixed {a : Annotation} (ha : a ≠ .exampleNumber)
    (hd : d'.erase a = d.erase a) (h : numberExamples d = d) : numberExamples d' = d' := by
  obtain ⟨count, hsweep⟩ := numberExamples_eq_iff.1 h
  exact numberExamples_eq_iff.2
    ⟨count, Sweep.document_fixed ExampleNumbering.annotates ha hd hsweep⟩

/-- Anchored nodes get the same anchors from the same biblio. -/
theorem assignAnchors?_again (h : assignAnchors? o b d = some (d', b')) :
    assignAnchors? o b d' = some (d', b') := by
  have hslugs := sectionSlugs_eq_of_erase_eq (erase_eq_of_assignAnchors? h)
  obtain ⟨s, hsweep, hs⟩ := assignAnchors?_eq_some_iff.1 h
  rw [assignAnchors?_eq_some_iff, hslugs]
  exact ⟨s, Sweep.document_again (AnchorState.annotates o _) hsweep, hs⟩

/-- The check of a document depends on none of what the stages write. -/
theorem checkStructure_eq_of_erase_eq {a : Annotation} (requireTitle : Bool)
    (h : d'.erase a = d.erase a) : checkStructure requireTitle d' = checkStructure requireTitle d := by
  rw [← checkStructure_erase requireTitle a, h, checkStructure_erase]

/-- **Annotation is stable.** An annotated document that is annotated again with the biblio that was given
at first comes out as it is, and the biblio as it came out. -/
theorem annotate_again {o : AnnotateOptions} {b : Biblio} {d : Document} {a : Annotated}
    (h : (annotate o ⟨d, b⟩).run = some (.ok a)) :
    (annotate o ⟨a.document, b⟩).run = some (.ok a) := by
  obtain ⟨hcheck, d₁, hnumber, hanchors⟩ := annotate_eq_ok_iff.1 h
  have hsections := erase_eq_of_numberSections hnumber
  have hexamples := erase_numberExamples d₁
  have hids := erase_eq_of_assignAnchors? hanchors
  -- The later stages leave what the earlier ones wrote.
  have hnumber₂ : numberSections (numberExamples d₁) = .ok (numberExamples d₁) :=
    numberSections_fixed (by decide) hexamples (numberSections_again hnumber)
  have hnumber₃ : numberSections a.document = .ok a.document :=
    numberSections_fixed (by decide) hids hnumber₂
  have hexamples₃ : numberExamples a.document = a.document :=
    numberExamples_fixed (by decide) hids (numberExamples_again d₁)
  refine annotate_eq_ok_iff.2 ⟨?_, a.document, hnumber₃, ?_⟩
  · rw [checkStructure_eq_of_erase_eq _ hids, checkStructure_eq_of_erase_eq _ hexamples,
      checkStructure_eq_of_erase_eq _ hsections]
    exact hcheck
  · rw [hexamples₃]
    exact assignAnchors?_again hanchors

/-- The numbers and ids of the annotated draft are those of its second annotation. -/
theorem annotate_again_draftDocument :
    ∃ a, (annotate .standard ⟨draftDocument, Biblio.seeded Table.empty⟩).run = some (.ok a) ∧
      a.document.sections.map Section.number = [some "2", some "3"] ∧
      (annotate .standard ⟨a.document, Biblio.seeded Table.empty⟩).run = some (.ok a) := by
  obtain ⟨r, hrun, hr⟩ := Option.map_eq_some_iff.1 annotate_draftDocument
  cases r with
  | error e => cases hr
  | ok a => exact ⟨a, hrun, congrArg Prod.fst (Option.some.inj hr), annotate_again hrun⟩

/-! ## Stages in any order -/

namespace Stage

variable {a a' a₁ a₂ : Annotated} {x y : Stage} {l l' : List Stage}

/-- Whether a stage succeeds with a given result. -/
def Leads (x : Stage) (a a' : Annotated) : Prop := (run a x).run = some (.ok a')

/-- Whether a stage succeeds. -/
def Succeeds (x : Stage) (a : Annotated) : Prop := ∃ a', x.Leads a a'

/-- Whether it does not matter which of two stages is run first: if both succeed, they end with the same
result in both orders, and if only one does, the other one fails after it as it did before. -/
structure Independent (x y : Stage) : Prop where
  meet : ∀ {a a₁ a₂ : Annotated}, x.Leads a a₁ → y.Leads a a₂ →
    ∃ a₃, y.Leads a₁ a₃ ∧ x.Leads a₂ a₃
  left : ∀ {a a₂ : Annotated}, y.Leads a a₂ → ¬ x.Succeeds a → run a₂ x = run a x
  right : ∀ {a a₁ : Annotated}, x.Leads a a₁ → ¬ y.Succeeds a → run a₁ y = run a y

theorem Independent.symm (h : Independent x y) : Independent y x where
  meet hy hx := by
    obtain ⟨a₃, hy', hx'⟩ := h.meet hx hy
    exact ⟨a₃, hx', hy'⟩
  left := h.right
  right := h.left

/-- A stage that succeeds still does after one that it is independent of. -/
theorem Independent.succeeds (h : Independent x y) (hx : x.Leads a a₁) (hy : y.Succeeds a) :
    y.Succeeds a₁ := by
  obtain ⟨a₂, hy⟩ := hy
  obtain ⟨a₃, hy', -⟩ := h.meet hx hy
  exact ⟨a₃, hy'⟩

/-- The stages behind one that succeeds start with its result. -/
theorem runAll_cons_of_leads (h : x.Leads a a₁) : runAll (x :: l) a = runAll l a₁ := by
  have hrun : run a x = pure a₁ := h
  rw [runAll, List.foldlM_cons, hrun, pure_bind]
  rfl

/-- The stages behind one that fails are not run. -/
theorem runAll_cons_of_not_succeeds (h : ¬ x.Succeeds a) : runAll (x :: l) a = run a x := by
  rw [runAll, List.foldlM_cons]
  cases hrun : run a x with
  | none => rfl
  | some r =>
      cases r with
      | error e => rfl
      | ok a' => exact absurd ⟨a', hrun⟩ h

/-- A stage that fails also fails behind one that it is independent of, and in the same way. -/
theorem Independent.runAll_cons_cons (h : Independent x y) (hx : x.Leads a a₁)
    (hy : ¬ y.Succeeds a) : runAll (x :: y :: l) a = run a y := by
  have hrun := h.right hx hy
  rw [runAll_cons_of_leads hx, runAll_cons_of_not_succeeds, hrun]
  rintro ⟨a', hy'⟩
  rw [Leads, hrun] at hy'
  exact hy ⟨a', hy'⟩

/-- Independent stages that succeed by themselves succeed one after the other. -/
theorem exists_runAll_eq_ok (hind : l.Pairwise Independent) (hl : ∀ x ∈ l, x.Succeeds a) :
    ∃ a', (runAll l a).run = some (.ok a') := by
  induction l generalizing a with
  | nil => exact ⟨a, rfl⟩
  | cons x l ih =>
      obtain ⟨hx, hind⟩ := List.pairwise_cons.1 hind
      obtain ⟨a₁, h₁⟩ := hl x List.mem_cons_self
      rw [runAll_cons_of_leads h₁]
      exact ih hind fun y hy => (hx y hy).succeeds h₁ (hl y (List.mem_cons_of_mem _ hy))

/-- **Stages in any order.** Stages that are independent of each other can be run in any order, if no two
of them fail. -/
theorem runAll_eq_of_perm (hperm : l.Perm l') (hind : l.Pairwise Independent)
    (hl : l.Pairwise fun x y => x.Succeeds a ∨ y.Succeeds a) : runAll l a = runAll l' a := by
  induction hperm generalizing a with
  | nil => rfl
  | @cons x l l' _ ih =>
      obtain ⟨hx, hind⟩ := List.pairwise_cons.1 hind
      by_cases hsucceeds : x.Succeeds a
      · obtain ⟨a₁, h₁⟩ := hsucceeds
        rw [runAll_cons_of_leads h₁, runAll_cons_of_leads h₁]
        refine ih hind ((List.pairwise_cons.1 hl).2.imp_of_mem ?_)
        intro y z hy hz hyz
        exact hyz.imp ((hx y hy).succeeds h₁) ((hx z hz).succeeds h₁)
      · rw [runAll_cons_of_not_succeeds hsucceeds, runAll_cons_of_not_succeeds hsucceeds]
  | swap x y l =>
      have hyx : Independent y x := (List.pairwise_cons.1 hind).1 x List.mem_cons_self
      have hone : y.Succeeds a ∨ x.Succeeds a := (List.pairwise_cons.1 hl).1 x List.mem_cons_self
      by_cases hx : x.Succeeds a
      · obtain ⟨a₁, h₁⟩ := hx
        by_cases hy : y.Succeeds a
        · obtain ⟨a₂, h₂⟩ := hy
          obtain ⟨a₃, hx', hy'⟩ := hyx.meet h₂ h₁
          rw [runAll_cons_of_leads h₂, runAll_cons_of_leads hx', runAll_cons_of_leads h₁,
            runAll_cons_of_leads hy']
        · rw [runAll_cons_of_not_succeeds hy, hyx.symm.runAll_cons_cons h₁ hy]
      · obtain ⟨a₂, h₂⟩ := hone.resolve_right hx
        rw [runAll_cons_of_not_succeeds hx, hyx.runAll_cons_cons h₂ hx]
  | trans hperm₁ _ ih₁ ih₂ =>
      rw [ih₁ hind hl]
      exact ih₂ (hperm₁.pairwise hind Independent.symm) (hperm₁.pairwise hl Or.symm)

/-! ### The stages of an annotation -/

theorem leads_numberSections_iff :
    numberSections.Leads a a' ↔
      SpecDoc.numberSections a.document = .ok a'.document ∧ a'.biblio = a.biblio := by
  rw [Leads]
  cases h : SpecDoc.numberSections a.document with
  | error e => simp [run, h]
  | ok d =>
      cases a'
      simp [run, h, eq_comm]

theorem leads_numberExamples_iff :
    numberExamples.Leads a a' ↔
      SpecDoc.numberExamples a.document = a'.document ∧ a'.biblio = a.biblio := by
  cases a'
  simp [Leads, run, eq_comm]

theorem leads_assignAnchors_iff :
    (assignAnchors o).Leads a a' ↔
      assignAnchors? o a.biblio a.document = some (a'.document, a'.biblio) := by
  rw [Leads]
  cases h : assignAnchors? o a.biblio a.document with
  | none => simp [run, h]
  | some p =>
      obtain ⟨d, b⟩ := p
      cases a'
      simp [run, h, Except.map]

/-- The numbering of examples succeeds with every document. -/
theorem succeeds_numberExamples (a : Annotated) : numberExamples.Succeeds a :=
  ⟨⟨SpecDoc.numberExamples a.document, a.biblio⟩, leads_numberExamples_iff.2 ⟨rfl, rfl⟩⟩

/-! ### Stages that number -/

section Numbers

variable {σ τ ε δ : Type} {w : Sweep σ ε} {v : Sweep τ δ} {s : σ} {t : τ} {c e : Annotation}

/-- Whether a stage makes a sweep and leaves the biblio as it is. How it fails depends on how the sweep
does. -/
structure Numbers (x : Stage) (w : Sweep σ ε) (s : σ) : Prop where
  leads_iff : ∀ {a a' : Annotated}, x.Leads a a' ↔
    (∃ s', w.document a.document s = .ok (a'.document, s')) ∧ a'.biblio = a.biblio
  fails : ∀ {a a' : Annotated} {error : ε}, w.document a.document s = .error error →
    w.document a'.document s = .error error → run a' x = run a x

theorem numbers_numberSections : numberSections.Numbers NumberingState.sweep .start where
  leads_iff := leads_numberSections_iff.trans (and_congr_left' numberSections_eq_ok_iff)
  fails h h' := by
    rw [run_numberSections_of_error (numberSections_eq_error_iff.2 h),
      run_numberSections_of_error (numberSections_eq_error_iff.2 h')]

theorem numbers_numberExamples : numberExamples.Numbers ExampleNumbering.sweep 0 where
  leads_iff := leads_numberExamples_iff.trans (and_congr_left' numberExamples_eq_iff)
  fails {_ _ e} := e.elim

/-- A stage that makes a sweep changes nothing but the annotation of this sweep. -/
theorem Numbers.erase_eq (hx : x.Numbers w s) (hw : w.Annotates c) (h : x.Leads a a') :
    a'.document.erase c = a.document.erase c := by
  obtain ⟨⟨s', hsweep⟩, -⟩ := hx.leads_iff.1 h
  exact Sweep.erase_eq_of_document hw.writes hsweep

/-- A stage that makes a sweep and fails does so as well when another annotation was changed. -/
theorem Numbers.run_eq (hx : x.Numbers w s) (hw : w.Annotates c) (hec : e ≠ c)
    (hd : a'.document.erase e = a.document.erase e) (h : ¬ x.Succeeds a) : run a' x = run a x := by
  cases hsweep : w.document a.document s with
  | error error =>
      exact hx.fails hsweep (Sweep.document_eq_error_of_erase_eq (hw.ignores e hec) hd hsweep)
  | ok p => exact absurd ⟨⟨p.1, a.biblio⟩, hx.leads_iff.2 ⟨⟨p.2, hsweep⟩, rfl⟩⟩ h

/-- Stages that number for different annotations are independent. -/
theorem Numbers.independent (hx : x.Numbers w s) (hy : y.Numbers v t) (hw : w.Annotates c)
    (hv : v.Annotates e) (hce : c ≠ e) : Independent x y where
  meet := by
    intro a a₁ a₂ h₁ h₂
    obtain ⟨⟨s', hs⟩, hb₁⟩ := hx.leads_iff.1 h₁
    obtain ⟨⟨t', ht⟩, hb₂⟩ := hy.leads_iff.1 h₂
    obtain ⟨d₃, ht₃, hs₃⟩ := Sweep.exists_document_of_document hw hv hce hs ht
    exact ⟨⟨d₃, a.biblio⟩, hy.leads_iff.2 ⟨⟨t', ht₃⟩, hb₁.symm⟩,
      hx.leads_iff.2 ⟨⟨s', hs₃⟩, hb₂.symm⟩⟩
  left h₂ h := hx.run_eq hw hce.symm (hy.erase_eq hv h₂) h
  right h₁ h := hy.run_eq hv hce (hx.erase_eq hw h₁) h

/-- An assignment of anchors that has no result still has none when another annotation is changed. -/
theorem run_assignAnchors_of_not_succeeds (hc : c ≠ .anchor)
    (hd : a'.document.erase c = a.document.erase c) (hb : a'.biblio = a.biblio)
    (h : ¬ (assignAnchors o).Succeeds a) :
    run a' (assignAnchors o) = run a (assignAnchors o) := by
  cases hanchors : assignAnchors? o a.biblio a.document with
  | none =>
      have hsweep := Sweep.document_eq_error_of_erase_eq (AnchorState.ignores o _ hc) hd
        (assignAnchors?_eq_none_iff.1 hanchors)
      rw [← sectionSlugs_eq_of_erase_eq hd, ← assignAnchors?_eq_none_iff] at hsweep
      simp only [run, hb, hanchors, hsweep]
  | some p => exact absurd ⟨⟨p.1, p.2⟩, leads_assignAnchors_iff.2 hanchors⟩ h

/-- A stage that numbers is independent of the assignment of anchors, which begins with the slugs of the
sections and the biblio that it leaves. -/
theorem Numbers.independent_assignAnchors (hx : x.Numbers w s) (hw : w.Annotates c)
    (hc : c ≠ .anchor) (o : AnchorOptions) : Independent x (assignAnchors o) where
  meet := by
    intro a a₁ a₂ h₁ h₂
    have hslugs := sectionSlugs_eq_of_erase_eq (hx.erase_eq hw h₁)
    obtain ⟨⟨s', hs⟩, hb₁⟩ := hx.leads_iff.1 h₁
    rw [leads_assignAnchors_iff] at h₂
    obtain ⟨t, ht, hbiblio⟩ := assignAnchors?_eq_some_iff.1 h₂
    obtain ⟨d₃, ht₃, hs₃⟩ := Sweep.exists_document_of_document hw (AnchorState.annotates o _)
      hc hs ht
    refine ⟨⟨d₃, a₂.biblio⟩, leads_assignAnchors_iff.2 ?_, hx.leads_iff.2 ⟨⟨s', hs₃⟩, rfl⟩⟩
    rw [assignAnchors?_eq_some_iff, hb₁, hslugs]
    exact ⟨t, ht₃, hbiblio⟩
  left h₂ h := hx.run_eq hw hc.symm (erase_eq_of_assignAnchors? (leads_assignAnchors_iff.1 h₂)) h
  right h₁ h :=
    run_assignAnchors_of_not_succeeds hc (hx.erase_eq hw h₁) (hx.leads_iff.1 h₁).2 h

end Numbers

/-- The stages that write annotations. -/
def annotating (o : AnchorOptions) : List Stage := [numberSections, numberExamples, assignAnchors o]

/-- The stages that write annotations are independent of each other. -/
theorem pairwise_independent_annotating (o : AnchorOptions) :
    (annotating o).Pairwise Independent := by
  have hsections := NumberingState.annotates
  have hexamples := ExampleNumbering.annotates
  refine .cons ?_ (.cons ?_ (.cons (by simp) .nil))
  · rintro y hy
    rcases List.mem_pair.1 hy with rfl | rfl
    · exact numbers_numberSections.independent numbers_numberExamples hsections hexamples (by decide)
    · exact numbers_numberSections.independent_assignAnchors hsections (by decide) o
  · rintro y hy
    rw [List.mem_singleton.1 hy]
    exact numbers_numberExamples.independent_assignAnchors hexamples (by decide) o

end Stage

/-- **Numbering and anchoring commute.** If anchors can be assigned in a document, its sections and
examples can be numbered and its anchors be assigned in any order: all of them fail with the error of
the numbering, or all of them end with the same document and the same biblio. -/
theorem runAll_annotating_of_perm (h : (assignAnchors? o b d).isSome) :
    (∀ e, numberSections d = .error e → ∀ stages, stages.Perm (Stage.annotating o) →
      (Stage.runAll stages ⟨d, b⟩).run = some (.error (.numbering e))) ∧
    (∀ d₁, numberSections d = .ok d₁ → ∃ a, ∀ stages, stages.Perm (Stage.annotating o) →
      (Stage.runAll stages ⟨d, b⟩).run = some (.ok a)) := by
  obtain ⟨p, hanchors⟩ := Option.isSome_iff_exists.1 h
  have hexamples := Stage.succeeds_numberExamples ⟨d, b⟩
  have hassign : (Stage.assignAnchors o).Succeeds ⟨d, b⟩ :=
    ⟨⟨p.1, p.2⟩, Stage.leads_assignAnchors_iff.2 hanchors⟩
  have hany : ∀ stages, stages.Perm (Stage.annotating o) →
      Stage.runAll stages ⟨d, b⟩ = Stage.runAll (Stage.annotating o) ⟨d, b⟩ := by
    intro stages hperm
    refine (Stage.runAll_eq_of_perm hperm.symm (Stage.pairwise_independent_annotating o) ?_).symm
    simp [Stage.annotating, hexamples, hassign]
  constructor
  · intro e hnumber stages hperm
    rw [hany stages hperm, Stage.annotating, Stage.runAll, List.foldlM_cons,
      Stage.run_numberSections_of_error hnumber]
    rfl
  · intro d₁ hnumber
    have hsections : Stage.numberSections.Succeeds ⟨d, b⟩ :=
      ⟨⟨d₁, b⟩, Stage.leads_numberSections_iff.2 ⟨hnumber, rfl⟩⟩
    obtain ⟨a, ha⟩ := Stage.exists_runAll_eq_ok (a := ⟨d, b⟩)
      (Stage.pairwise_independent_annotating o)
      (by simp [Stage.annotating, hsections, hexamples, hassign])
    exact ⟨a, fun stages hperm => by rw [hany stages hperm, ha]⟩

/-- A document whose second section does not come after its first one. -/
def disorderedDocument : Document :=
  Build.document "Specification"
    [Build.numberedSection (some "3") "Scope" [Build.definition "field" "is a part."],
      Build.numberedSection (some "2") "Terms" []]

/-- One document is annotated in any order of the stages, the other one is refused in any order. -/
theorem runAll_annotating_draftDocument :
    (assignAnchors? .standard (Biblio.seeded Table.empty) draftDocument).isSome = true ∧
      (∃ a, ∀ stages, stages.Perm (Stage.annotating .standard) →
        (Stage.runAll stages ⟨draftDocument, Biblio.seeded Table.empty⟩).run = some (.ok a)) ∧
      (assignAnchors? .standard (Biblio.seeded Table.empty) disorderedDocument).isSome = true ∧
      ∀ stages, stages.Perm (Stage.annotating .standard) →
        (Stage.runAll stages ⟨disorderedDocument, Biblio.seeded Table.empty⟩).run
          = some (.error (.numbering
              ⟨.notIncreasing, "2", some "3", some "4", "Terms", none⟩)) := by
  have hdraft : (assignAnchors? .standard (Biblio.seeded Table.empty) draftDocument).isSome := by
    decide +kernel
  have hdisordered :
      (assignAnchors? .standard (Biblio.seeded Table.empty) disorderedDocument).isSome := by
    decide +kernel
  have hnumbered : numberSections draftDocument = .ok _ := numberSections_eq_ok_iff.2 ⟨_, rfl⟩
  have hrefused : numberSections disorderedDocument = .error _ := numberSections_eq_error_iff.2 rfl
  exact ⟨hdraft, (runAll_annotating_of_perm hdraft).2 _ hnumbered, hdisordered,
    (runAll_annotating_of_perm hdisordered).1 _ hrefused⟩

end SpecDoc
