import SpecDoc.Proofs.Import.Calls

/-!
# Imports that are resolved side by side

The imports of a document may be resolved at the same time. Their results are still put together in the order of the
imports, so all that they see of each other is how many files were read up to now, which matters only to a run that
is cancelled.

* `Library.resolveBeside` resolves a file under a schedule, which says how many files were read when one is opened;
* `Library.resolve_ofFiles_beside`: whatever the schedule, the result is that of the run in which one file is resolved
  after the other, or that the run was cancelled.
-/

namespace SpecDoc

open Resolution

namespace Library

/-- Resolves the file of a call while other files are read. By the schedule, so many files were read when a file is
opened. -/
def resolveBeside (lib : Library) (c : Cancellation) (schedule : Call → ℕ) : ℕ → Call → Option Resolution
  | 0, _ => none
  | fuel + 1, call =>
    lib.openFile c (resolveBeside lib c schedule fuel) { call with reads := schedule call }

/-- One file after the other is one of the schedules. -/
theorem resolveBeside_reads (lib : Library) (c : Cancellation) (fuel : ℕ) (call : Call) :
    lib.resolveBeside c Call.reads fuel call = lib.resolveCall c fuel call := by
  induction fuel generalizing call with
  | zero => rfl
  | succ fuel ih =>
      have hcalls : lib.resolveBeside c Call.reads fuel = lib.resolveCall c fuel := funext ih
      rw [resolveBeside, hcalls]
      rfl

end Library

/-! ## Results with and without a cancellation -/

/-- Whether a result is another one, or tells of a cancellation that can happen. -/
def StaysOrCancelled (c : Cancellation) {α : Type} (r r' : Except CompileError α) : Prop :=
  r' = r ∨ (∃ n, c.isCancelled n = true) ∧ ∃ e, r' = .error (.importing e) ∧ e.problem = .cancelled

namespace StaysOrCancelled

variable {c : Cancellation} {α β : Type}

/-- What is made of a result stays where the result does. -/
theorem map {r r' : Except CompileError α} (h : StaysOrCancelled c r r') (g : α → β) :
    StaysOrCancelled c (r.map g) (r'.map g) := by
  rcases h with rfl | ⟨hcan, e, rfl, hproblem⟩
  · exact .inl rfl
  · exact .inr ⟨hcan, e, rfl, hproblem⟩

/-- An import that was cancelled stays so where its place is told. -/
theorem locate {r r' : Except CompileError Document} (h : StaysOrCancelled c r r') (target : Path)
    (span : Option Span) :
    StaysOrCancelled c (r.mapError (Resolution.locate target span))
      (r'.mapError (Resolution.locate target span)) := by
  rcases h with rfl | ⟨hcan, e, rfl, hproblem⟩
  · exact .inl rfl
  · refine .inr ⟨hcan, ?_⟩
    show ∃ e', Except.error (Resolution.locate target span (.importing e)) = _ ∧ _
    rw [Resolution.locate]
    split
    · exact ⟨_, rfl, hproblem⟩
    · exact ⟨e, rfl, hproblem⟩

/-- Several results that stay or are cancelled make one that does. -/
theorem mapM {rs rs' : List (Except CompileError Document)} (h : List.Forall₂ (StaysOrCancelled c) rs rs') :
    StaysOrCancelled c (rs.mapM id) (rs'.mapM id) := by
  induction h with
  | nil => exact .inl rfl
  | @cons r r' rs rs' hr _ ih =>
      rcases hr with rfl | ⟨hcan, e, rfl, hproblem⟩
      · cases r' with
        | error e =>
            rw [mapM_id_error_cons, mapM_id_error_cons]
            exact .inl rfl
        | ok a =>
            rw [mapM_id_ok_cons, mapM_id_ok_cons]
            exact ih.map (a :: ·)
      · rw [mapM_id_error_cons]
        exact .inr ⟨hcan, e, rfl, hproblem⟩

end StaysOrCancelled

/-- Imports that each have a result that stays or is cancelled have such results in their order. -/
theorem Resolution.exists_forEach_of_stays {c : Cancellation}
    {f f' : String × Option Span → ℕ → Option Resolution}
    (hf : ∀ i reads reads' p, f i reads = some p → ∃ p', f' i reads' = some p' ∧ StaysOrCancelled c p.1 p'.1)
    {is : List (String × Option Span)} {reads after : ℕ} {results : List (Except CompileError Document)}
    (h : forEach f is reads = some (results, after)) (reads' : ℕ) :
    ∃ results' after', forEach f' is reads' = some (results', after') ∧
      List.Forall₂ (StaysOrCancelled c) results results' := by
  induction is generalizing reads reads' results with
  | nil =>
      cases h
      exact ⟨[], reads', rfl, .nil⟩
  | cons i is ih =>
      obtain ⟨r, between, rest, hi, hrest, rfl⟩ := forEach_cons_eq_some_iff.1 h
      obtain ⟨⟨r', between'⟩, hi', hr⟩ := hf i reads reads' _ hi
      obtain ⟨rest', last, hrest', hresults⟩ := ih hrest between'
      exact ⟨r' :: rest', last, forEach_cons_eq_some_iff.2 ⟨r', between', rest', hi', hrest', rfl⟩,
        .cons hr hresults⟩

namespace Library

variable {lib : Library}

/-- A file that has a result has one under every schedule, and it stays or is cancelled. -/
theorem exists_resolveBeside (c : Cancellation) (schedule : Call → ℕ) {fuel : ℕ} {path : Path} {start : Start}
    {chain : List Path} {reads : ℕ} {p : Resolution}
    (h : lib.resolveFile .never fuel path start chain reads = some p) (reads' : ℕ) :
    ∃ p', lib.resolveBeside c schedule fuel ⟨path, start, chain, reads'⟩ = some p' ∧
      StaysOrCancelled c p.1 p'.1 := by
  induction fuel generalizing path start chain reads p reads' with
  | zero => cases h
  | succ fuel ih =>
      rw [resolveFile_succ_eq_some_iff] at h
      rw [resolveBeside]
      dsimp only
      generalize schedule ⟨path, start, chain, reads'⟩ = now
      cases hgoing : c.isCancelled now with
      | true => exact ⟨_, if_pos hgoing, .inr ⟨⟨now, hgoing⟩, _, rfl, rfl⟩⟩
      | false =>
          have hgoing' : ¬c.isCancelled now = true := by simp [hgoing]
          cases h with
          | cancelled hcancelled => cases hcancelled
          | cycle _ hchain =>
              refine ⟨refuse .cycle path chain now, ?_, .inl rfl⟩
              rw [openFile, if_neg hgoing', if_pos hchain]
          | @unreadable f _ hchain hread =>
              refine ⟨refuse (problemOf f) path chain (now + 1), ?_, .inl rfl⟩
              rw [openFile, if_neg hgoing', if_neg hchain, hread]
          | @malformed source e _ hchain hread hparse =>
              refine ⟨(.error (.parse { e.withSource source with chain := chain.map Path.toString }), now + 1),
                ?_, .inl rfl⟩
              rw [openFile, if_neg hgoing', if_neg hchain, hread]
              simp only [parseFile, hparse]
          | @resolved d _ _ _ hchain hload heach =>
              -- An import is resolved beside the others, wherever these have come to.
              have himport : ∀ i before before' q, lib.resolveImport .never fuel path chain i before = some q →
                  ∃ q', importWith (lib.resolveBeside c schedule fuel) path chain i before' = some q' ∧
                    StaysOrCancelled c q.1 q'.1 := by
                intro i before before' q hq
                obtain ⟨r, hr, rfl⟩ := Option.map_eq_some_iff.1 hq
                obtain ⟨r', hr', hstays⟩ := ih hr before'
                exact ⟨_, by rw [importWith, hr', Option.map_some], hstays.locate _ _⟩
              obtain ⟨results', after', heach', hresults⟩ := exists_forEach_of_stays himport heach (now + 1)
              refine ⟨((results'.mapM id).map d.splice, after'), ?_, (StaysOrCancelled.mapM hresults).map d.splice⟩
              rw [openFile_of_loads hgoing hchain hload, heach', Option.map_some]

/-- **Schedules.** Whatever given files hold and import, and however their imports are resolved side by side, a run on
an entry has a result. It is the one of the run in which one file is resolved after the other, unless the run is
cancelled and says so. -/
theorem resolve_ofFiles_beside (files : List (String × Except ReadFailure String)) (c : Cancellation)
    (schedule : Call → ℕ) (entry : String) :
    ∃ r reads r' reads', (ofFiles files).resolve .never entry = some (r, reads) ∧
      (ofFiles files).resolveBeside c schedule ((ofFiles files).size + 2)
        ⟨(Path.ofString entry).normalize, .initial, [], 0⟩ = some (r', reads') ∧
      (r' = r ∨ ∃ e, r' = .error (.importing e) ∧ e.problem = .cancelled) ∧ (c = .never → r' = r) := by
  obtain ⟨r, reads, hr⟩ := exists_resolve_ofFiles_eq_some files .never entry
  obtain ⟨⟨r', reads'⟩, hr', hstays⟩ := exists_resolveBeside c schedule hr 0
  refine ⟨r, reads, r', reads', hr, hr', ?_, ?_⟩
  · rcases hstays with heq | ⟨-, hcancelled⟩
    · exact .inl heq
    · exact .inr hcancelled
  · rintro rfl
    rcases hstays with heq | ⟨⟨n, hn⟩, -⟩
    · exact heq
    · cases hn

end Library

end SpecDoc
