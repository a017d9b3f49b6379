import Mathlib.Data.Nat.Notation
import SpecDoc.Proofs.Forest
import SpecDoc.Proofs.Place

/-!
# Sections in document order

The sections of a document are listed in the order in which they are read, each with the section that
is nearest around it. This one is told by its position in the list, since other sections may have the
same title and the same token.

* `Document.entries`: the list;
* `within_of_mem_entriesIn`: what encloses a section among nodes;
* `Document.map_entries`: listed are the sections of the document, each with the nearest one around it.
-/

namespace SpecDoc

/-- A section, where it was read, and the position of the section that is nearest around it among all
sections, if there is one. -/
structure SectionEntry where
  sec : Section
  span : Option Span
  enclosing : Option ℕ

/-- A group is a section or none. -/
theorem Group.numberedSection_or (g : Group) :
    (∃ sec, g = .numberedSection sec) ∨ ∀ sec, g ≠ .numberedSection sec := by
  cases g <;> simp

/-- Whether a section is enclosed by the given one, or by one from the position `first` on and before
`last`. -/
def SectionEntry.Within (entry : SectionEntry) (enclosing : Option ℕ) (first last : ℕ) : Prop :=
  entry.enclosing = enclosing ∨ ∃ i, entry.enclosing = some i ∧ first ≤ i ∧ i < last

/-- The positions may be allowed to range further. -/
theorem SectionEntry.Within.mono {entry : SectionEntry} {enclosing : Option ℕ}
    {first last first' last' : ℕ} (h : entry.Within enclosing first last) (hfirst : first' ≤ first)
    (hlast : last ≤ last') : entry.Within enclosing first' last' := by
  rcases h with h | ⟨i, h, hi⟩
  · exact Or.inl h
  · exact Or.inr ⟨i, h, by omega⟩

namespace Node

mutual

/-- The sections at a node and below it. The first of them has the position `first`. -/
def entriesOf (enclosing : Option ℕ) (first : ℕ) : Node → List SectionEntry
  | .leaf _ _ => []
  | .group (.numberedSection sec) span contents =>
    ⟨sec, span, enclosing⟩ :: entriesIn (some first) (first + 1) contents
  | .group _ _ contents => entriesIn enclosing first contents
  | .rule _ _ head body =>
    entriesOfHead enclosing first head ++
      entriesIn enclosing (first + (entriesOfHead enclosing first head).length) body

/-- The sections at the nodes of a sequence and below them. -/
def entriesIn (enclosing : Option ℕ) (first : ℕ) : List Node → List SectionEntry
  | [] => []
  | n :: ns =>
    entriesOf enclosing first n ++
      entriesIn enclosing (first + (entriesOf enclosing first n).length) ns

/-- The sections in the head of a rule. -/
def entriesOfHead (enclosing : Option ℕ) (first : ℕ) : Option Node → List SectionEntry
  | none => []
  | some n => entriesOf enclosing first n

end

variable {enclosing : Option ℕ} {first : ℕ}

/-- A head is listed like a sequence of at most one node. -/
theorem entriesOfHead_eq (head : Option Node) :
    entriesOfHead enclosing first head = entriesIn enclosing first head.toList := by
  cases head <;> simp [entriesOfHead, entriesIn]

@[simp]
theorem entriesIn_nil : entriesIn enclosing first [] = [] := by rw [entriesIn]

/-- A leaf is no section. -/
@[simp]
theorem entriesIn_leaf (l : Leaf) (span : Option Span) (ns : List Node) :
    entriesIn enclosing first (.leaf l span :: ns) = entriesIn enclosing first ns := by
  simp [entriesIn, entriesOf]

/-- A section comes before those in it, and it encloses them. -/
theorem entriesIn_section (sec : Section) (span : Option Span) (contents ns : List Node) :
    entriesIn enclosing first (.group (.numberedSection sec) span contents :: ns)
      = ⟨sec, span, enclosing⟩ :: (entriesIn (some first) (first + 1) contents ++
          entriesIn enclosing (first + 1 + (entriesIn (some first) (first + 1) contents).length) ns) := by
  rw [entriesIn, entriesOf, List.cons_append, List.length_cons, Nat.add_right_comm first 1,
    Nat.add_assoc]

/-- Any other group only has the sections in it. -/
theorem entriesIn_group {g : Group} (hg : ∀ sec, g ≠ .numberedSection sec) (span : Option Span)
    (contents ns : List Node) :
    entriesIn enclosing first (.group g span contents :: ns)
      = entriesIn enclosing first contents ++
          entriesIn enclosing (first + (entriesIn enclosing first contents).length) ns := by
  rw [entriesIn, entriesOf]
  exact fun sec h => hg sec h

/-- A rule only has the sections in its head and its body. -/
theorem entriesIn_rule (r : Rule) (span : Option Span) (head : Option Node) (body ns : List Node) :
    entriesIn enclosing first (.rule r span head body :: ns)
      = entriesIn enclosing first head.toList ++
          (entriesIn enclosing (first + (entriesIn enclosing first head.toList).length) body ++
            entriesIn enclosing (first + (entriesIn enclosing first head.toList).length +
              (entriesIn enclosing (first + (entriesIn enclosing first head.toList).length)
                body).length) ns) := by
  rw [entriesIn, entriesOf, entriesOfHead_eq, List.append_assoc, List.length_append, Nat.add_assoc]

/-- Induction on a forest in which sections are a case of their own. -/
@[elab_as_elim]
theorem sectionInduction {motive : List Node → Prop} (nil : motive [])
    (leaf : ∀ l span ns, motive ns → motive (.leaf l span :: ns))
    (numberedSection : ∀ sec span contents ns, motive contents → motive ns →
      motive (.group (.numberedSection sec) span contents :: ns))
    (group : ∀ g span contents ns, (∀ sec, g ≠ .numberedSection sec) → motive contents →
      motive ns → motive (.group g span contents :: ns))
    (rule : ∀ r span head body ns, motive head.toList → motive body → motive ns →
      motive (.rule r span head body :: ns)) (ns : List Node) : motive ns := by
  induction ns using forestInduction with
  | nil => exact nil
  | leaf l span ns ih => exact leaf l span ns ih
  | group g span contents ns ihcontents ihns =>
      rcases g.numberedSection_or with ⟨sec, rfl⟩ | hg
      · exact numberedSection sec span contents ns ihcontents ihns
      · exact group g span contents ns hg ihcontents ihns
  | rule r span head body ns ihhead ihbody ihns =>
      exact rule r span head body ns ihhead ihbody ihns

/-- The listed sections are the sections of the nodes. -/
theorem map_sec_entriesIn (ns : List Node) : ∀ (enclosing : Option ℕ) (first : ℕ),
    (entriesIn enclosing first ns).map SectionEntry.sec = sectionsIn ns := by
  induction ns using sectionInduction with
  | nil => simp
  | leaf l span ns ih => simpa using ih
  | numberedSection sec span contents ns ihcontents ihns =>
      intro enclosing first
      rw [entriesIn_section, sectionsIn_section, List.map_cons, List.map_append, ihcontents, ihns]
  | group g span contents ns hg ihcontents ihns =>
      intro enclosing first
      rw [entriesIn_group hg, sectionsIn_group hg, List.map_append, ihcontents, ihns]
  | rule r span head body ns ihhead ihbody ihns =>
      intro enclosing first
      rw [entriesIn_rule, sectionsIn_rule, List.map_append, List.map_append, ihhead, ihbody, ihns,
        List.append_assoc]

/-- There are as many entries as sections. -/
theorem length_entriesIn (ns : List Node) :
    (entriesIn enclosing first ns).length = (sectionsIn ns).length := by
  rw [← map_sec_entriesIn ns enclosing first, List.length_map]

/-- What encloses a section among nodes is what encloses the nodes, or it is a section among them. -/
theorem within_of_mem_entriesIn (ns : List Node) : ∀ (enclosing : Option ℕ) (first : ℕ),
    ∀ entry ∈ entriesIn enclosing first ns,
      entry.Within enclosing first (first + (sectionsIn ns).length) := by
  induction ns using sectionInduction with
  | nil => simp
  | leaf l span ns ih => simpa using ih
  | numberedSection sec span contents ns ihcontents ihns =>
      intro enclosing first entry hentry
      rw [entriesIn_section, length_entriesIn, List.mem_cons, List.mem_append] at hentry
      rw [sectionsIn_section, List.length_cons, List.length_append]
      rcases hentry with rfl | hentry | hentry
      · exact Or.inl rfl
      · refine Or.inr ?_
        rcases ihcontents _ _ entry hentry with h | ⟨i, h, hi⟩
        · exact ⟨first, h, by omega⟩
        · exact ⟨i, h, by omega⟩
      · exact (ihns _ _ entry hentry).mono (by omega) (by omega)
  | group g span contents ns hg ihcontents ihns =>
      intro enclosing first entry hentry
      rw [entriesIn_group hg, length_entriesIn, List.mem_append] at hentry
      rw [sectionsIn_group hg, List.length_append]
      rcases hentry with hentry | hentry
      · exact (ihcontents _ _ entry hentry).mono (by omega) (by omega)
      · exact (ihns _ _ entry hentry).mono (by omega) (by omega)
  | rule r span head body ns ihhead ihbody ihns =>
      intro enclosing first entry hentry
      rw [entriesIn_rule, length_entriesIn, length_entriesIn, List.mem_append, List.mem_append]
        at hentry
      rw [sectionsIn_rule, List.length_append, List.length_append]
      rcases hentry with hentry | hentry | hentry
      · exact (ihhead _ _ entry hentry).mono (by omega) (by omega)
      · exact (ihbody _ _ entry hentry).mono (by omega) (by omega)
      · exact (ihns _ _ entry hentry).mono (by omega) (by omega)

/-- A part of a prefix stands where the part before it ends. -/
theorem prefix_drop_of_append {α : Type} {xs ys all : List α} {n : ℕ} (h : xs ++ ys <+: all.drop n) :
    xs <+: all.drop n ∧ ys <+: all.drop (n + xs.length) := by
  refine ⟨(List.prefix_append xs ys).trans h, ?_⟩
  obtain ⟨zs, hzs⟩ := h
  exact ⟨zs, by rw [← List.drop_drop, ← hzs, List.append_assoc, List.drop_left]⟩

/-- The enclosing section of each that is listed is the nearest one around its place, if `all` holds the
sections at their positions. -/
theorem map_nearest_placesIn (ns : List Node) :
    ∀ (around : List Node) (enclosing : Option ℕ) (first : ℕ) (all : List Section),
      sectionsIn ns <+: all.drop first → enclosing.bind (all[·]?) = around.findSome? section? →
      (placesIn around ns).filterMap (fun p => p.node.section?.map (·, p.around.findSome? section?))
        = (entriesIn enclosing first ns).map fun entry =>
            (entry.sec, entry.enclosing.bind (all[·]?)) := by
  induction ns using sectionInduction with
  | nil => simp [placesIn]
  | leaf l span ns ih =>
      intro around enclosing first all hall henclosing
      rw [sectionsIn_leaf] at hall
      rw [entriesIn_leaf, ← ih around enclosing first all hall henclosing]
      simp [placesIn, placesBelow, section?]
  | numberedSection sec span contents ns ihcontents ihns =>
      intro around enclosing first all hall henclosing
      rw [sectionsIn_section, ← List.singleton_append] at hall
      obtain ⟨hsec, hall⟩ := prefix_drop_of_append hall
      obtain ⟨hcontents, hns⟩ := prefix_drop_of_append hall
      have hfirst : all[first]? = some sec := by
        obtain ⟨behind, hbehind⟩ := hsec
        rw [← List.head?_drop, ← hbehind]
        rfl
      have ih := ihcontents (.group (.numberedSection sec) span contents :: around) (some first)
        (first + 1) all hcontents hfirst
      rw [List.length_singleton] at hns
      rw [entriesIn_section, length_entriesIn, List.map_cons, List.map_append, ← ih,
        ← ihns around enclosing _ all hns henclosing]
      simp [placesIn, placesBelow, section?, henclosing]
  | group g span contents ns hg ihcontents ihns =>
      intro around enclosing first all hall henclosing
      rw [sectionsIn_group hg] at hall
      obtain ⟨hcontents, hns⟩ := prefix_drop_of_append hall
      have hnone : (group g span contents).section? = none := section?_group hg span contents
      have ih := ihcontents (.group g span contents :: around) enclosing first all hcontents
        (by rw [henclosing, List.findSome?_cons, hnone])
      rw [entriesIn_group hg, length_entriesIn, List.map_append, ← ih,
        ← ihns around enclosing _ all hns henclosing]
      simp [placesIn, placesBelow, hnone]
  | rule r span head body ns ihhead ihbody ihns =>
      intro around enclosing first all hall henclosing
      rw [sectionsIn_rule, List.append_assoc] at hall
      obtain ⟨hhead, hall⟩ := prefix_drop_of_append hall
      obtain ⟨hbody, hns⟩ := prefix_drop_of_append hall
      rw [entriesIn_rule, length_entriesIn, length_entriesIn, List.map_append, List.map_append,
        ← ihhead (.rule r span head body :: around) enclosing first all hhead henclosing,
        ← ihbody (.rule r span head body :: around) enclosing _ all hbody henclosing,
        ← ihns around enclosing _ all hns henclosing]
      simp [placesIn, placesBelow, placesOfHead_eq, section?]

end Node

/-- The sections of a document, and where they stand. -/
def Document.entries (d : Document) : List SectionEntry := Node.entriesIn none 0 d.contents

/-- Listed are the sections of the document, and what encloses each is the nearest section around its
place. -/
theorem Document.map_entries (d : Document) :
    d.entries.map (fun entry => (entry.sec, entry.enclosing.bind (d.sections[·]?)))
      = d.places.filterMap fun p => p.node.section?.map (·, p.around.findSome? Node.section?) := by
  symm
  exact Node.map_nearest_placesIn d.contents [] none 0 d.sections List.prefix_rfl rfl

end SpecDoc
