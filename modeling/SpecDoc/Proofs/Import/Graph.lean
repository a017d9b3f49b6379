import SpecDoc.Proofs.Import.Resolution

/-!
# The graph of imports

The files of a library and their imports are a graph. A resolution only looks at the chain of files
that are open, and yet its success is a property of the graph.

* `Resolvable`: every file that the entry reaches is a document, and none of them reaches itself;
* `resolve_ofFiles_ok_iff`: these are the entries that can be resolved, and the result is what they
  expand to.
-/

namespace SpecDoc

open Resolution Relation

namespace Library

/-- How a file is read in a run that starts at `entry`. -/
def startOf (entry path : Path) : Start := if path = entry then .initial else .imported

/-- In a run that starts at `entry` the file at `p` is a document that imports the file at `q`. -/
def Imports (lib : Library) (entry p q : Path) : Prop :=
  ∃ d, lib.Loads (startOf entry p) p d ∧ ∃ i ∈ d.imports, importTarget p i.1 = q

/-- Imports lead from the file at `p` to the file at `q`, in any number of steps. -/
def Reaches (lib : Library) (entry p q : Path) : Prop := ReflTransGen (lib.Imports entry) p q

/-- A file that is a document and does not reach itself through its imports. -/
structure Grounded (lib : Library) (entry path : Path) : Prop where
  exists_loads : ∃ d, lib.Loads (startOf entry path) path d
  acyclic : ¬ TransGen (lib.Imports entry) path path

/-- An entry all of whose files are documents that do not reach themselves. -/
def Resolvable (lib : Library) (entry : Path) : Prop :=
  ∀ path, lib.Reaches entry entry path → lib.Grounded entry path

variable {lib : Library} {entry path target : Path}

/-- The entry is the start of its run. -/
theorem startOf_self (entry : Path) : startOf entry entry = .initial := if_pos rfl

/-- Every other file is read in the place of an import. -/
theorem startOf_of_ne (h : path ≠ entry) : startOf entry path = .imported := if_neg h

/-- The files that a document imports are those of its imports. -/
theorem imports_iff {d : Document} (hload : lib.Loads (startOf entry path) path d) :
    lib.Imports entry path target ↔ ∃ i ∈ d.imports, importTarget path i.1 = target := by
  constructor
  · rintro ⟨d', hload', himport⟩
    rwa [hload.unique hload']
  · intro himport
    exact ⟨d, hload, himport⟩

/-! ## What resolves is resolvable -/

/-- A document is grounded if what holds of all files that it reaches through its imports would keep
it from reaching itself. -/
theorem grounded_of_imports {d : Document} {P : Path → Prop}
    (hload : lib.Loads (startOf entry path) path d)
    (hbelow : ∀ i ∈ d.imports, ∀ q, lib.Reaches entry (importTarget path i.1) q → P q)
    (hself : P path → ¬ TransGen (lib.Imports entry) path path) : lib.Grounded entry path := by
  refine ⟨⟨d, hload⟩, fun hcycle => hself ?_ hcycle⟩
  obtain ⟨q, himport, hreach⟩ := TransGen.head'_iff.1 hcycle
  obtain ⟨i, hi, rfl⟩ := (imports_iff hload).1 himport
  exact hbelow i hi path hreach

/-- Whatever is imported by nodes that expand below the entry is grounded, and so is all that it
reaches; the entry is not among it. -/
theorem grounded_of_expands {ns ns' : List Node} (h : Expands (lib.LoadsBelow entry) path ns ns') :
    ∀ i ∈ Node.importsIn ns, ∀ q, lib.Reaches entry (importTarget path i.1) q →
      q ≠ entry ∧ lib.Grounded entry q := by
  induction h with
  | nil path => simp
  | @importLink path raw span d contents ns ns' hload _ _ ihcontents ihns =>
      rw [Node.importsIn_importLink, List.forall_mem_cons]
      refine ⟨?_, ihns⟩
      -- The file is not the entry, so it is read here as it is read in the graph.
      obtain ⟨hne, hload⟩ := hload
      rw [← startOf_of_ne hne] at hload
      rw [← d.imports_eq] at ihcontents
      intro q hreach
      rcases ReflTransGen.cases_head hreach with rfl | ⟨r, himport, hreach⟩
      · exact ⟨hne, grounded_of_imports hload ihcontents fun h => h.2.acyclic⟩
      · obtain ⟨i, hi, rfl⟩ := (imports_iff hload).1 himport
        exact ihcontents i hi q hreach
  | leaf hl _ ih =>
      rw [Node.importsIn_leaf hl]
      exact ih
  | group _ _ ihcontents ihns =>
      rw [Node.importsIn_group]
      exact List.forall_mem_append.2 ⟨ihcontents, ihns⟩
  | rule _ _ _ ihhead ihbody ihns =>
      rw [Node.importsIn_rule]
      exact List.forall_mem_append.2 ⟨ihhead, List.forall_mem_append.2 ⟨ihbody, ihns⟩⟩

/-- An entry that expands without being read a second time is resolvable. -/
theorem resolvable_of_expands {d : Document}
    (h : Expands.File (lib.Loads .initial) (lib.LoadsBelow entry) entry d) :
    lib.Resolvable entry := by
  obtain ⟨d₀, hload, hexpands, -, -⟩ := h
  rw [← startOf_self entry] at hload
  have hbelow := grounded_of_expands hexpands
  rw [← d₀.imports_eq] at hbelow
  intro q hreach
  rcases ReflTransGen.cases_head hreach with rfl | ⟨r, himport, hreach⟩
  · exact grounded_of_imports hload hbelow fun h => absurd rfl h.1
  · obtain ⟨i, hi, rfl⟩ := (imports_iff hload).1 himport
    exact (hbelow i hi q hreach).2

/-! ## What is resolvable resolves -/

/-- In a resolvable graph nothing can go wrong with a file that the entry reaches, as long as every
file on the chain leads to it. -/
theorem exists_document_of_resolvable (hresolvable : lib.Resolvable entry) {fuel reads : ℕ}
    {chain : List Path} {r : Resolution} (hreach : lib.Reaches entry entry path)
    (hchain : ∀ p ∈ chain, TransGen (lib.Imports entry) p path)
    (h : lib.resolveFile .never fuel path (startOf entry path) chain reads = some r) :
    ∃ d reads', r = (.ok d, reads') := by
  induction fuel generalizing path chain reads r with
  | zero => cases h
  | succ fuel ih =>
      obtain ⟨⟨d, hload⟩, hacyclic⟩ := hresolvable path hreach
      rw [resolveFile_succ_eq_some_iff] at h
      cases h with
      | cancelled hcancelled => cases hcancelled
      -- A file on the chain leads to this one, so a file met again reaches itself.
      | cycle _ hmem => exact absurd (hchain path hmem) hacyclic
      | unreadable _ _ hread =>
          obtain ⟨source, hread', -⟩ := hload
          rw [hread] at hread'
          cases hread'
      | malformed _ _ hread hparse =>
          obtain ⟨source, hread', hparse'⟩ := hload
          rw [hread, Except.ok.injEq] at hread'
          subst hread'
          rw [hparse] at hparse'
          cases hparse'
      | @resolved d' results reads' _ _ hload' heach =>
          obtain rfl := hload.unique hload'
          cases hall : results.mapM id with
          | ok ds => exact ⟨d.splice ds, reads', rfl⟩
          | error e =>
              -- One of the imports has an error, but its file is reached as well.
              exfalso
              obtain ⟨i, hi, before, after, hresult⟩ := exists_of_forall₂_right
                (forall₂_of_forEach heach) (mem_of_mapM_id_eq_error hall)
              obtain ⟨e', hfile, -⟩ := exists_of_resolveImport_eq_error hresult
              have himport : lib.Imports entry path (importTarget path i.1) :=
                (imports_iff hload).2 ⟨i, hi, rfl⟩
              have hreach' : lib.Reaches entry entry (importTarget path i.1) := hreach.tail himport
              have hne : importTarget path i.1 ≠ entry := by
                intro heq
                rw [heq] at himport
                exact (hresolvable entry .refl).acyclic (TransGen.tail' hreach himport)
              have hchain' : ∀ p ∈ chain ++ [path],
                  TransGen (lib.Imports entry) p (importTarget path i.1) := by
                refine List.forall_mem_append.2 ⟨fun p hp => (hchain p hp).tail himport, ?_⟩
                rw [List.forall_mem_singleton]
                exact .single himport
              rw [← startOf_of_ne hne] at hfile
              obtain ⟨d₁, reads₁, hok⟩ := ih hreach' hchain' hfile
              cases hok

/-! ## Libraries of given files -/

/-- An entry of given files always has a result. It is a document if, and only if, all files that
the entry reaches are documents and none of them reaches itself; and this document is the one of the
entry with all imports, at any depth, replaced by what they expand to. -/
theorem resolve_ofFiles_ok_iff (files : List (String × Except ReadFailure String))
    (entry : String) :
    ∃ r reads, (ofFiles files).resolve .never entry = some (r, reads) ∧
      ((∃ d, r = .ok d) ↔ (ofFiles files).Resolvable (Path.ofString entry).normalize) ∧
      ∀ d, r = .ok d →
        Expands.File ((ofFiles files).Loads .initial) ((ofFiles files).Loads .imported)
          (Path.ofString entry).normalize d ∧
        ∀ n ∈ d.descendants, n.isImport = false := by
  generalize hlib : ofFiles files = lib
  generalize hpath : (Path.ofString entry).normalize = path
  have hnormal : path.IsNormal := hpath ▸ Path.isNormal_normalize _
  have hbounded : lib.Bounded := hlib ▸ bounded_ofFiles files
  have hresult : ∃ r, lib.resolveFile .never (lib.size + 2) path .initial [] 0 = some r :=
    exists_resolveFile_eq_some hbounded List.nodup_nil (by simp) hnormal (by simp)
  obtain ⟨⟨r, reads⟩, hresolve⟩ := hresult
  have hexpands : ∀ d, r = .ok d →
      Expands.File (lib.Loads .initial) (lib.LoadsBelow path) path d := by
    rintro d rfl
    exact expands_of_resolveFile hresolve (by simp)
  refine ⟨r, reads, by rw [resolve, hpath, hresolve], ⟨?_, ?_⟩, ?_⟩
  · rintro ⟨d, hd⟩
    exact resolvable_of_expands (hexpands d hd)
  · intro hresolvable
    rw [← startOf_self path] at hresolve
    obtain ⟨d, reads', heq⟩ :=
      exists_document_of_resolvable hresolvable .refl (by simp) hresolve
    exact ⟨d, congrArg Prod.fst heq⟩
  · intro d hd
    obtain ⟨d₀, hload, hcontents, htitle, hspan⟩ := hexpands d hd
    have hcontents' := hcontents.mono fun q d h => h.2
    exact ⟨⟨d₀, hload, hcontents', htitle, hspan⟩,
      Document.forall_descendants_iff.2 hcontents.not_isImport⟩

end Library

end SpecDoc
