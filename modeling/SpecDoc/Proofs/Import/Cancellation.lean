import SpecDoc.Proofs.Import.Resolution

/-!
# Cancelled resolutions

A run may be cancelled while it reads its `n`-th file. It does not stop there: the imports that are
left are still gone through, and each of them is told to be cancelled. `Curtailed` says once what
becomes of a result by that, for one file as well as for several.

* `le_of_resolveFile` and `lt_of_resolveFile_ok`: a run never takes reads back, and a document takes
  at least one;
* `curtailed_resolveFile`: what becomes of a file;
* `resolve_ofFiles_cancelled`: a cancelled run gives the result of the run that goes on to its end, or
  says that it was cancelled; it gives a document exactly when there is nothing left to read.
-/

namespace SpecDoc

open Resolution

/-! ## Reads -/

namespace Resolution

variable {f : String × Option Span → ℕ → Option Resolution}

/-- Imports take no reads back if none of them does. -/
theorem le_of_forEach (hf : ∀ i before r after, f i before = some (r, after) → before ≤ after)
    {is : List (String × Option Span)} {reads reads' : ℕ}
    {results : List (Except CompileError Document)}
    (h : forEach f is reads = some (results, reads')) : reads ≤ reads' := by
  induction is generalizing reads results with
  | nil =>
      cases h
      exact Nat.le_refl _
  | cons i is ih =>
      obtain ⟨r, between, rest, hi, hrest, rfl⟩ := forEach_cons_eq_some_iff.1 h
      exact Nat.le_trans (hf i reads r between hi) (ih hrest)

end Resolution

namespace Library

variable {lib : Library} {c : Cancellation} {fuel reads reads' : ℕ} {path : Path} {start : Start}
  {chain : List Path}

/-- What an import takes back its file takes back. -/
theorem le_of_resolveImport {i : String × Option Span} {r : Except CompileError Document}
    (hfile : ∀ target r reads', lib.resolveFile c fuel target .imported (chain ++ [path]) reads
      = some (r, reads') → reads ≤ reads')
    (h : lib.resolveImport c fuel path chain i reads = some (r, reads')) : reads ≤ reads' := by
  obtain ⟨⟨r₀, after⟩, hr₀, heq⟩ := Option.map_eq_some_iff.1 h
  cases heq
  exact hfile _ _ _ hr₀

/-- A file takes no reads back. -/
theorem le_of_resolveFile {r : Except CompileError Document}
    (h : lib.resolveFile c fuel path start chain reads = some (r, reads')) : reads ≤ reads' := by
  induction fuel generalizing path start chain reads r reads' with
  | zero => cases h
  | succ fuel ih =>
      rw [resolveFile_succ_eq_some_iff] at h
      generalize hp : (r, reads') = p at h
      cases h with
      | cancelled _ =>
          cases hp
          exact Nat.le_refl _
      | cycle _ _ =>
          cases hp
          exact Nat.le_refl _
      | unreadable _ _ _ =>
          cases hp
          exact Nat.le_succ reads
      | malformed _ _ _ _ =>
          cases hp
          exact Nat.le_succ reads
      | resolved _ _ _ heach =>
          cases hp
          refine Nat.le_trans (Nat.le_succ reads) (le_of_forEach ?_ heach)
          intro i before r after hi
          exact le_of_resolveImport (fun _ _ _ => ih) hi

/-- A document takes at least one read, that of its own file. -/
theorem lt_of_resolveFile_ok {d : Document}
    (h : lib.resolveFile c fuel path start chain reads = some (.ok d, reads')) : reads < reads' := by
  cases fuel with
  | zero => cases h
  | succ fuel =>
      rw [resolveFile_succ_eq_some_iff] at h
      generalize hp : ((.ok d, reads') : Resolution) = p at h
      cases h with
      | cancelled _ => cases hp
      | cycle _ _ => cases hp
      | unreadable _ _ _ => cases hp
      | malformed _ _ _ _ => cases hp
      | resolved _ _ _ heach =>
          obtain ⟨-, rfl⟩ := Prod.mk.inj hp
          refine Nat.lt_of_succ_le (le_of_forEach ?_ heach)
          intro i before r after hi
          exact le_of_resolveImport (fun _ _ _ => le_of_resolveFile) hi

end Library

/-! ## What is cut short -/

/-- What becomes of a result and the number of reads up to it if the run is cancelled while it reads
its `n`-th file: no more reads are made than `n`, and either the result stays or it is that the run was
cancelled. Where there would be a value, it stays exactly if its reads were made. -/
inductive Curtailed (n : ℕ) {α : Type} :
    Except CompileError α × ℕ → Except CompileError α × ℕ → Prop where
  | kept {r : Except CompileError α} {reads reads' : ℕ} (hmin : reads' = min reads n)
      (hreads : ∀ a, r = .ok a → reads ≤ n) : Curtailed n (r, reads) (r, reads')
  | cancelled {r : Except CompileError α} {reads reads' : ℕ} {e : ImportError}
      (hmin : reads' = min reads n) (hproblem : e.problem = .cancelled)
      (hreads : ∀ a, r = .ok a → n < reads) :
      Curtailed n (r, reads) (.error (.importing e), reads')

namespace Curtailed

variable {n : ℕ} {α β : Type}

/-- The reads stop at `n`. -/
theorem reads_eq {p p' : Except CompileError α × ℕ} (h : Curtailed n p p') :
    p'.2 = min p.2 n := by
  cases h with
  | kept hmin _ => exact hmin
  | cancelled hmin _ _ => exact hmin

/-- An error stays if it does not come of the cancellation. -/
theorem kept_error {e : CompileError} {reads reads' : ℕ} (hmin : reads' = min reads n) :
    Curtailed n ((.error e : Except CompileError α), reads) (.error e, reads') :=
  .kept hmin fun _ h => by cases h

/-- What is made of a value is kept where the value is. -/
theorem map {p p' : Except CompileError α × ℕ} (h : Curtailed n p p') (g : α → β) :
    Curtailed n (p.1.map g, p.2) (p'.1.map g, p'.2) := by
  cases h with
  | @kept r _ _ hmin hreads =>
      cases r with
      | error e => exact kept_error hmin
      | ok a => exact .kept hmin fun _ _ => hreads a rfl
  | @cancelled r _ _ _ hmin hproblem hreads =>
      cases r with
      | error e => exact .cancelled hmin hproblem fun b hb => by cases hb
      | ok a => exact .cancelled hmin hproblem fun _ _ => hreads a rfl

/-- An import that was cancelled stays so where its place is told. -/
theorem locate {p p' : Resolution} (h : Curtailed n p p') (target : Path) (span : Option Span) :
    Curtailed n (p.1.mapError (Resolution.locate target span), p.2)
      (p'.1.mapError (Resolution.locate target span), p'.2) := by
  cases h with
  | @kept r _ _ hmin hreads =>
      cases r with
      | error e => exact kept_error hmin
      | ok d => exact .kept hmin fun _ _ => hreads d rfl
  | @cancelled r reads reads' e hmin hproblem hreads =>
      have hlocated : ∃ e', Resolution.locate target span (.importing e) = .importing e' ∧
          e'.problem = .cancelled := by
        rw [Resolution.locate]
        split
        · exact ⟨_, rfl, hproblem⟩
        · exact ⟨e, rfl, hproblem⟩
      obtain ⟨e', heq, hproblem'⟩ := hlocated
      dsimp only [Except.mapError]
      rw [heq]
      cases r with
      | error e₀ => exact .cancelled hmin hproblem' fun d hd => by cases hd
      | ok d => exact .cancelled hmin hproblem' fun _ _ => hreads d rfl

/-- Several results in turn. The first of them takes part of the reads, and the others only matter if
it is a document. -/
theorem cons {r r' : Except CompileError Document}
    {results results' : List (Except CompileError Document)} {between between' reads reads' : ℕ}
    (hmin : reads' = min reads n) (hhead : Curtailed n (r, between) (r', between'))
    (hle : between ≤ reads)
    (htail : between ≤ n → Curtailed n (results.mapM id, reads) (results'.mapM id, reads')) :
    Curtailed n ((r :: results).mapM id, reads) ((r' :: results').mapM id, reads') := by
  cases hhead with
  | cancelled _ hproblem hreads =>
      rw [mapM_id_error_cons]
      refine .cancelled hmin hproblem fun ds hds => ?_
      cases r with
      | error e =>
          rw [mapM_id_error_cons] at hds
          cases hds
      | ok d => exact Nat.lt_of_lt_of_le (hreads d rfl) hle
  | kept _ hreads =>
      cases r with
      | error e =>
          rw [mapM_id_error_cons, mapM_id_error_cons]
          exact kept_error hmin
      | ok d =>
          rw [mapM_id_ok_cons, mapM_id_ok_cons]
          exact (htail (hreads d rfl)).map (d :: ·)

end Curtailed

namespace Resolution

/-- What becomes of several imports if the run is cancelled, but not before them. The number of reads
stops at `n` in any case. -/
theorem curtailed_forEach {n : ℕ} {f f' : String × Option Span → ℕ → Option Resolution}
    (hle : ∀ i before r after, f i before = some (r, after) → before ≤ after)
    (hf : ∀ i reads p p', f i reads = some p → f' i (min reads n) = some p' → Curtailed n p p')
    {is : List (String × Option Span)} {reads reads₁ reads₂ : ℕ}
    {results results' : List (Except CompileError Document)}
    (h : forEach f is reads = some (results, reads₁))
    (h' : forEach f' is (min reads n) = some (results', reads₂)) :
    reads₂ = min reads₁ n ∧
      (reads ≤ n → Curtailed n (results.mapM id, reads₁) (results'.mapM id, reads₂)) := by
  induction is generalizing reads results results' with
  | nil =>
      cases h
      cases h'
      exact ⟨rfl, fun hreads => .kept rfl fun _ _ => hreads⟩
  | cons i is ih =>
      obtain ⟨r, between, rest, hi, hrest, rfl⟩ := forEach_cons_eq_some_iff.1 h
      obtain ⟨r', between', rest', hi', hrest', rfl⟩ := forEach_cons_eq_some_iff.1 h'
      have hhead : Curtailed n (r, between) (r', between') := hf i reads _ _ hi hi'
      obtain rfl : between' = min between n := hhead.reads_eq
      obtain ⟨hmin, htail⟩ := ih hrest hrest'
      exact ⟨hmin, fun _ => hhead.cons hmin (le_of_forEach hle hrest) htail⟩

end Resolution

namespace Library

variable {lib : Library} {n fuel reads : ℕ} {path : Path} {start : Start} {chain : List Path}

/-- A file that is opened when `n` files were read is cancelled at once. -/
theorem curtailed_of_le {p p' : Resolution} (hn : n ≤ reads)
    (h : lib.resolveFile .never (fuel + 1) path start chain reads = some p)
    (h' : lib.resolveFile ⟨some n⟩ (fuel + 1) path start chain (min reads n) = some p') :
    Curtailed n p p' := by
  have hmin : min reads n = n := Nat.min_eq_right hn
  have hcancelled : Cancellation.isCancelled ⟨some n⟩ n = true := by
    simp [Cancellation.isCancelled]
  rw [hmin, resolveFile_succ_eq_some_iff.2 (.cancelled hcancelled), Option.some.injEq] at h'
  obtain ⟨r, after⟩ := p
  have hle := le_of_resolveFile h
  rw [← h', refuse]
  refine .cancelled (Nat.min_eq_right (Nat.le_trans hn hle)).symm rfl fun d hd => ?_
  rw [hd] at h
  exact Nat.lt_of_le_of_lt hn (lt_of_resolveFile_ok h)

/-- What becomes of a file if the run is cancelled while it reads its `n`-th file. -/
theorem curtailed_resolveFile {p p' : Resolution}
    (h : lib.resolveFile .never fuel path start chain reads = some p)
    (h' : lib.resolveFile ⟨some n⟩ fuel path start chain (min reads n) = some p') :
    Curtailed n p p' := by
  induction fuel generalizing path start chain reads p p' with
  | zero => cases h
  | succ fuel ih =>
      by_cases hn : n ≤ reads
      · exact curtailed_of_le hn h h'
      -- One more file can be read, and up to there both runs do the same.
      have hmin : min reads n = reads := Nat.min_eq_left (by omega)
      have hmin' : min (reads + 1) n = reads + 1 := Nat.min_eq_left (by omega)
      have hgoing : Cancellation.isCancelled ⟨some n⟩ reads = false := by
        simp [Cancellation.isCancelled]
        omega
      rw [hmin] at h'
      rw [resolveFile_succ_eq_some_iff] at h
      cases h with
      | cancelled hcancelled => cases hcancelled
      | cycle _ hchain =>
          rw [resolveFile_succ_eq_some_iff.2 (.cycle hgoing hchain), Option.some.injEq] at h'
          rw [← h']
          exact .kept_error hmin.symm
      | unreadable _ hchain hread =>
          rw [resolveFile_succ_eq_some_iff.2 (.unreadable hgoing hchain hread),
            Option.some.injEq] at h'
          rw [← h']
          exact .kept_error hmin'.symm
      | malformed _ hchain hread hparse =>
          rw [resolveFile_succ_eq_some_iff.2 (.malformed hgoing hchain hread hparse),
            Option.some.injEq] at h'
          rw [← h']
          exact .kept_error hmin'.symm
      | @resolved d _ _ _ hchain hload heach =>
          rw [resolveFile_of_loads hgoing hchain hload, ← hmin'] at h'
          obtain ⟨⟨results', after'⟩, heach', heq⟩ := Option.map_eq_some_iff.1 h'
          rw [← heq]
          have himports := curtailed_forEach
            (fun i before r after hi => le_of_resolveImport (fun _ _ _ => le_of_resolveFile) hi)
            (fun i reads q q' hi hi' => ?_) heach heach'
          · exact (himports.2 (by omega)).map d.splice
          · obtain ⟨r, hr, rfl⟩ := Option.map_eq_some_iff.1 hi
            obtain ⟨r', hr', rfl⟩ := Option.map_eq_some_iff.1 hi'
            exact (ih hr hr').locate _ _

/-! ## Libraries of given files -/

/-- **A late cancellation hides nothing.** A run that is cancelled while it reads its `n`-th file makes
the reads of the run that is not, up to `n` of them. It has the same result, or it tells that it was
cancelled; and it has a document exactly if the other run has the same one and makes no more than `n`
reads. -/
theorem resolve_ofFiles_cancelled (files : List (String × Except ReadFailure String))
    (entry : String) (n : ℕ) :
    ∃ r reads r' reads', (ofFiles files).resolve .never entry = some (r, reads) ∧
      (ofFiles files).resolve ⟨some n⟩ entry = some (r', reads') ∧
      reads' = min reads n ∧
      (r' = r ∨ ∃ e, r' = .error (.importing e) ∧ e.problem = .cancelled) ∧
      ∀ d, r' = .ok d ↔ r = .ok d ∧ reads ≤ n := by
  obtain ⟨r, reads, hfull⟩ := exists_resolve_ofFiles_eq_some files .never entry
  obtain ⟨r', reads', hcut⟩ := exists_resolve_ofFiles_eq_some files ⟨some n⟩ entry
  have h : Curtailed n (r, reads) (r', reads') := by
    rw [resolve, ← Nat.zero_min n] at hcut
    exact curtailed_resolveFile hfull hcut
  refine ⟨r, reads, r', reads', hfull, hcut, h.reads_eq, ?_⟩
  cases h with
  | kept _ hreads =>
      refine ⟨.inl rfl, fun d => ⟨fun hd => ⟨hd, hreads d hd⟩, fun hd => hd.1⟩⟩
  | cancelled _ hproblem hreads =>
      refine ⟨.inr ⟨_, rfl, hproblem⟩, fun d => ⟨fun hd => (by cases hd), ?_⟩⟩
      rintro ⟨hd, hle⟩
      exact absurd (hreads d hd) (Nat.not_lt.2 hle)

/-- A file that imports another one. -/
def importingFiles : List (String × Except ReadFailure String) :=
  [("a.md", .ok "# A\n\n# [B](b.md)\n"), ("b.md", .ok "# B\n")]

/-- The run reads both files. If it is cancelled while it reads the first one, the second one is not read, and the run
says so in the place of a document. -/
theorem resolve_ofFiles_cancelled_importingFiles :
    ∃ d e, (ofFiles importingFiles).resolve .never "a.md" = some (.ok d, 2) ∧
      (ofFiles importingFiles).resolve ⟨some 1⟩ "a.md" = some (.error (.importing e), 1) ∧
      e.problem = .cancelled := by
  obtain ⟨r, reads, r', reads', hfull, hcut, hmin, hresult, hdocument⟩ :=
    resolve_ofFiles_cancelled importingFiles "a.md" 1
  have hreads : ((ofFiles importingFiles).resolve .never "a.md").map (fun p => (p.1.isOk, p.2)) = some (true, 2) := by
    decide +kernel
  rw [hfull, Option.map_some, Option.some_inj, Prod.mk.injEq] at hreads
  obtain ⟨hok, rfl⟩ := hreads
  obtain ⟨d, rfl⟩ : ∃ d, r = .ok d := by
    cases r with
    | error e => cases hok
    | ok d => exact ⟨d, rfl⟩
  have hcancelled : ¬r' = .ok d := by
    rw [hdocument]
    rintro ⟨-, hle⟩
    omega
  have hone : reads' = 1 := hmin
  rw [hone] at hcut
  rcases hresult with rfl | ⟨e, rfl, hproblem⟩
  · exact absurd rfl hcancelled
  · exact ⟨d, e, hfull, hcut, hproblem⟩

end Library

end SpecDoc
