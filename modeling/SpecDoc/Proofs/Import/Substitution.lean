import SpecDoc.Proofs.Import.Expansion

/-!
# Substitution of imports

Splicing hands out documents one after the other on the way through a tree. It can be told for each of the
imports by itself: the one with the number `i` in document order gives way to the contents of the document
with the number `i`. What is put in is not looked at again.

* `Node.substituteAll` replaces the imports of a forest by their numbers;
* `Node.spliceAll_drop`: splicing does it, and takes as many documents as there are imports;
* `Node.everywhere_substituteAll`: no import is left if none is put in for any of them.
-/

namespace SpecDoc

namespace Node

mutual

/-- What stands in the place of a node that has `i` imports before it, if the import with the number `j`
is replaced by `contents j`. An import for which there is nothing stays. -/
def substitute (contents : ℕ → Option (List Node)) (i : ℕ) : Node → List Node
  | .leaf (.importLink raw) span => (contents i).getD [.leaf (.importLink raw) span]
  | .leaf l span => [.leaf l span]
  | .group g span ns => [.group g span (substituteAll contents i ns)]
  | .rule r span head body =>
    [.rule r span (substituteHead contents i head)
      (substituteAll contents (i + (importsIn head.toList).length) body)]

/-- What stands in the place of a sequence that has `i` imports before it. -/
def substituteAll (contents : ℕ → Option (List Node)) (i : ℕ) : List Node → List Node
  | [] => []
  | n :: ns =>
    substitute contents i n ++ substituteAll contents (i + (importsIn [n]).length) ns

/-- What stands in the place of the head of a rule: there is place for one node only. -/
def substituteHead (contents : ℕ → Option (List Node)) (i : ℕ) : Option Node → Option Node
  | none => none
  | some n => (substitute contents i n).head?

end

/-! ## Equations -/

section Equations

variable (contents : ℕ → Option (List Node)) (i : ℕ)

@[simp]
theorem substituteAll_nil : substituteAll contents i [] = [] := by rw [substituteAll]

/-- An import is replaced by what it is replaced by. -/
theorem substituteAll_importLink (raw : String) (span : Option Span) (ns : List Node) :
    substituteAll contents i (.leaf (.importLink raw) span :: ns)
      = (contents i).getD [.leaf (.importLink raw) span] ++ substituteAll contents (i + 1) ns := by
  rw [substituteAll, substitute]
  simp

/-- Any other leaf stays. -/
theorem substituteAll_leaf {l : Leaf} (hl : ∀ raw, l ≠ .importLink raw) (span : Option Span)
    (ns : List Node) :
    substituteAll contents i (.leaf l span :: ns)
      = .leaf l span :: substituteAll contents i ns := by
  rw [substituteAll, importsIn_leaf hl, substitute]
  · simp
  · simpa using hl

theorem substituteAll_group (g : Group) (span : Option Span) (ns ms : List Node) :
    substituteAll contents i (.group g span ns :: ms)
      = .group g span (substituteAll contents i ns) ::
        substituteAll contents (i + (importsIn ns).length) ms := by
  rw [substituteAll, substitute]
  simp

/-- The head of a rule is the first of what stands in its place. -/
theorem substituteHead_eq (head : Option Node) :
    substituteHead contents i head = (substituteAll contents i head.toList).head? := by
  cases head with
  | none => rw [substituteHead, Option.toList_none, substituteAll_nil, List.head?_nil]
  | some n =>
      rw [substituteHead, Option.toList_some, substituteAll, substituteAll_nil, List.append_nil]

theorem substituteAll_rule (r : Rule) (span : Option Span) (head : Option Node)
    (body ns : List Node) :
    substituteAll contents i (.rule r span head body :: ns)
      = .rule r span (substituteAll contents i head.toList).head?
          (substituteAll contents (i + (importsIn head.toList).length) body) ::
        substituteAll contents
          (i + ((importsIn head.toList).length + (importsIn body).length)) ns := by
  rw [substituteAll, substitute, substituteHead_eq]
  simp

end Equations

/-! ## Splicing -/

/-- Splicing behind `i` imports replaces each import by the document with its number, and it takes as many
documents as there are imports. -/
theorem spliceAll_drop (ds : List Document) (ns : List Node) (i : ℕ) :
    spliceAll ns (ds.drop i)
      = (substituteAll (fun j => ds[j]?.map Document.contents) i ns,
          ds.drop (i + (importsIn ns).length)) := by
  induction ns using importInduction generalizing i with
  | nil => simp
  | importLink raw span ns ih =>
      rw [substituteAll_importLink, importsIn_importLink, List.length_cons]
      cases hdocument : ds[i]? with
      | none =>
          -- No document is left, neither here nor behind.
          have hle : ds.length ≤ i := List.getElem?_eq_none_iff.1 hdocument
          have hrest := ih (i + 1)
          rw [List.drop_eq_nil_of_le (by omega), spliceAll_nil, Prod.mk.injEq] at hrest
          rw [List.drop_eq_nil_of_le hle, spliceAll_nil, ← hrest.1,
            List.drop_eq_nil_of_le (by omega)]
          rfl
      | some d =>
          obtain ⟨hlt, hd⟩ := List.getElem?_eq_some_iff.1 hdocument
          rw [List.drop_eq_getElem_cons hlt, hd, spliceAll_importLink_cons, ih,
            Nat.add_assoc i 1, Nat.add_comm 1]
          rfl
  | leaf l span ns hl ih =>
      rw [spliceAll_leaf hl, substituteAll_leaf _ _ hl, importsIn_leaf hl, ih]
  | group g span contents ns ihcontents ihns =>
      rw [spliceAll_group, substituteAll_group, importsIn_group, ihcontents, ihns,
        List.length_append, Nat.add_assoc]
  | rule r span head body ns ihhead ihbody ihns =>
      rw [spliceAll_rule, substituteAll_rule, importsIn_rule, ihhead, ihbody, ihns,
        List.length_append, List.length_append, Nat.add_assoc, Nat.add_assoc, Nat.add_assoc]

/-! ## No imports left -/

/-- No import is left if each of them is replaced by nodes among which there is none. -/
theorem everywhere_substituteAll {contents : ℕ → Option (List Node)} (ns : List Node) (i : ℕ)
    (h : ∀ j, i ≤ j → j < i + (importsIn ns).length → ∃ ms, contents j = some ms ∧
      Everywhere (fun n => n.isImport = false) ms) :
    Everywhere (fun n => n.isImport = false) (substituteAll contents i ns) := by
  induction ns using importInduction generalizing i with
  | nil => simp
  | importLink raw span ns ih =>
      rw [importsIn_importLink, List.length_cons] at h
      obtain ⟨ms, hms, heverywhere⟩ := h i (Nat.le_refl i) (by omega)
      rw [substituteAll_importLink, hms]
      exact everywhere_append.2
        ⟨heverywhere, ih (i + 1) fun j hle hlt => h j (by omega) (by omega)⟩
  | leaf l span ns hl ih =>
      rw [importsIn_leaf hl] at h
      rw [substituteAll_leaf _ _ hl]
      exact everywhere_leaf.2 ⟨isImport_leaf hl span, ih i h⟩
  | group g span contents' ns ihcontents ihns =>
      rw [importsIn_group, List.length_append] at h
      rw [substituteAll_group]
      refine everywhere_group.2 ⟨isImport_group g span _, ?_, ?_⟩
      · exact ihcontents i fun j hle hlt => h j hle (by omega)
      · exact ihns _ fun j hle hlt => h j (by omega) (by omega)
  | rule r span head body ns ihhead ihbody ihns =>
      rw [importsIn_rule, List.length_append, List.length_append] at h
      rw [substituteAll_rule]
      refine everywhere_rule.2 ⟨isImport_rule r span _ _, ?_, ?_, ?_⟩
      · have hhead := ihhead i fun j hle hlt => h j hle (by omega)
        rw [everywhere_iff_forall_singleton] at hhead ⊢
        exact fun n hn => hhead n (List.mem_of_mem_head? (Option.mem_toList.1 hn))
      · exact ihbody _ fun j hle hlt => h j (by omega) (by omega)
      · exact ihns _ fun j hle hlt => h j (by omega) (by omega)

end Node

end SpecDoc
