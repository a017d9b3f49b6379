import SpecDoc.Proofs.Numbering.Entries
import SpecDoc.Proofs.Sweep

/-!
# Sections with another token

One section of a document, told by its position, gets another token in its heading. This is a sweep that
counts the sections.

* `Document.withOverride`: the document with another token;
* `Document.entries_withOverride`: its sections are those of the document but for the token;
* `isPrefix_overrideEntries`: the sections before the one with the token stay as they are.
-/

namespace SpecDoc

/-- A section with another token. -/
def Section.withOverride (sec : Section) (token : String) : Section :=
  { sec with override := some token }

/-- A section with another token, where it stands. -/
def SectionEntry.withOverride (entry : SectionEntry) (token : String) : SectionEntry :=
  { entry with sec := entry.sec.withOverride token }

/-- Writes a token into a group that is the section at the position `i`, behind `count` others. -/
def Group.withOverride (g : Group) (i : ℕ) (token : String) (count : ℕ) : Group × ℕ :=
  match g with
  | .numberedSection sec =>
    (.numberedSection (if count = i then sec.withOverride token else sec), count + 1)
  | g => (g, count)

/-- Any other group stays as it is. -/
theorem Group.withOverride_of_ne {g : Group} (hg : ∀ sec, g ≠ .numberedSection sec) (i : ℕ)
    (token : String) (count : ℕ) : g.withOverride i token count = (g, count) := by
  cases g with
  | numberedSection sec => exact absurd rfl (hg sec)
  | _ => rfl

/-- The sweep that counts sections and writes a token into one of them. -/
def overrideSweep (i : ℕ) (token : String) : Sweep ℕ Empty where
  leaf l count := .ok (l, count)
  group g _ _ count := .ok (g.withOverride i token count)
  endGroup _ count := count
  rule r _ count := .ok (r, count)

/-- A document with another token in the section at the position `i`. -/
def Document.withOverride (d : Document) (i : ℕ) (token : String) : Document :=
  match (overrideSweep i token).document d 0 with
  | .ok (d, _) => d

/-! ## The sections -/

/-- What another token changes about the sections from the position `first` on. -/
def overrideEntries (i : ℕ) (token : String) (first : ℕ) (entries : List SectionEntry) :
    List SectionEntry :=
  entries.mapIdx fun j entry => if first + j = i then entry.withOverride token else entry

theorem overrideEntries_append (i : ℕ) (token : String) (first : ℕ)
    (entries entries' : List SectionEntry) :
    overrideEntries i token first (entries ++ entries')
      = overrideEntries i token first entries ++
          overrideEntries i token (first + entries.length) entries' := by
  rw [overrideEntries, List.mapIdx_append, overrideEntries, overrideEntries]
  congr 2
  funext j entry
  rw [Nat.add_comm j, Nat.add_assoc]

theorem overrideEntries_cons (i : ℕ) (token : String) (first : ℕ) (entry : SectionEntry)
    (entries : List SectionEntry) :
    overrideEntries i token first (entry :: entries)
      = (if first = i then entry.withOverride token else entry) ::
          overrideEntries i token (first + 1) entries := by
  rw [← List.singleton_append, overrideEntries_append]
  rfl

@[simp]
theorem overrideEntries_nil (i : ℕ) (token : String) (first : ℕ) :
    overrideEntries i token first [] = [] := rfl

/-- Sections before the position stay as they are. -/
theorem overrideEntries_of_le {i first : ℕ} {entries : List SectionEntry} (token : String)
    (h : first + entries.length ≤ i) : overrideEntries i token first entries = entries := by
  induction entries generalizing first with
  | nil => rfl
  | cons entry entries ih =>
      rw [List.length_cons] at h
      rw [overrideEntries_cons, if_neg (by omega), ih (by omega)]

@[simp]
theorem length_overrideEntries (i : ℕ) (token : String) (first : ℕ) (entries : List SectionEntry) :
    (overrideEntries i token first entries).length = entries.length := List.length_mapIdx

/-- Writing a token changes the sections so, and counts them. -/
theorem entriesIn_of_swept {i : ℕ} {token : String} {first last : ℕ} {ns ns' : List Node}
    (h : (overrideSweep i token).Swept first ns ns' last) :
    ∀ enclosing, last = first + (Node.entriesIn enclosing first ns).length ∧
      Node.entriesIn enclosing first ns'
        = overrideEntries i token first (Node.entriesIn enclosing first ns) := by
  induction h with
  | nil s => simp
  | leaf hleaf _ ih =>
      cases hleaf
      simpa using ih
  | @group g g' span contents contents' ns ns' first _ mid last hgroup _ _ ihcontents ihns =>
      intro enclosing
      have hend : (overrideSweep i token).endGroup g' mid = mid := rfl
      rw [hend] at ihns
      have hgroup : g.withOverride i token first = (g', _) := Except.ok.inj hgroup
      rcases g.numberedSection_or with ⟨sec, rfl⟩ | hg
      · cases hgroup
        obtain ⟨rfl, hcontents⟩ := ihcontents (some first)
        obtain ⟨rfl, hns⟩ := ihns enclosing
        have hsec : (⟨if first = i then sec.withOverride token else sec, span, enclosing⟩ : SectionEntry)
            = if first = i then SectionEntry.withOverride ⟨sec, span, enclosing⟩ token
              else ⟨sec, span, enclosing⟩ := by
          split <;> rfl
        rw [Node.entriesIn_section, Node.entriesIn_section, hcontents, length_overrideEntries,
          overrideEntries_cons, overrideEntries_append, hsec, List.length_cons, List.length_append]
        exact ⟨by omega, congrArg _ (congrArg _ hns)⟩
      · rw [Group.withOverride_of_ne hg] at hgroup
        cases hgroup
        obtain ⟨rfl, hcontents⟩ := ihcontents enclosing
        obtain ⟨rfl, hns⟩ := ihns enclosing
        rw [Node.entriesIn_group hg, Node.entriesIn_group hg, hcontents, length_overrideEntries,
          overrideEntries_append, List.length_append]
        exact ⟨by omega, congrArg _ hns⟩
  | rule hrule _ _ _ ihhead ihbody ihns =>
      intro enclosing
      cases hrule
      obtain ⟨rfl, hhead⟩ := ihhead enclosing
      obtain ⟨rfl, hbody⟩ := ihbody enclosing
      obtain ⟨rfl, hns⟩ := ihns enclosing
      rw [Node.entriesIn_rule, Node.entriesIn_rule, hhead, length_overrideEntries, hbody,
        length_overrideEntries, hns, overrideEntries_append, overrideEntries_append,
        List.length_append, List.length_append]
      exact ⟨by omega, rfl⟩

/-- Only the section at the position gets another token. -/
theorem Document.entries_withOverride (d : Document) (i : ℕ) (token : String) :
    (d.withOverride i token).entries = overrideEntries i token 0 d.entries := by
  unfold withOverride
  split
  next hsweep => exact (entriesIn_of_swept (Sweep.swept_of_document hsweep) none).2

/-- The sections before the position stay as they are, and the one at the position gets the token. -/
theorem isPrefix_overrideEntries {entries before : List SectionEntry} {entry : SectionEntry} {i : ℕ}
    (token : String) (h : before ++ [entry] <+: entries) (hi : before.length = i) :
    before ++ [entry.withOverride token] <+: overrideEntries i token 0 entries := by
  obtain ⟨behind, rfl⟩ := h
  have hbefore : overrideEntries i token 0 before = before :=
    overrideEntries_of_le token (by omega)
  rw [overrideEntries_append, overrideEntries_append, hbefore, overrideEntries_cons,
    if_pos (by omega)]
  exact List.prefix_append _ _

end SpecDoc
