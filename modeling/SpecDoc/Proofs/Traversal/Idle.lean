import SpecDoc.Proofs.Forest
import SpecDoc.Proofs.Traversal.Recursive

/-!
# Visitors that change nothing

A visitor may do so only in some of its states, for instance after it was told to stop. In such a state it
goes on at every node and leaves it as it is, and every tree comes through unchanged.

* `Visitor.Idles`: the visitor does nothing in certain states, and stays in them;
* `walkBelow_of_idles`, `walkNode_of_idles`, `walkSequence_of_idles`: nothing is changed in such states.
-/

namespace SpecDoc

open Traversal

variable {σ ε : Type} {v : Visitor σ ε} {I : σ → Prop} {n : Node} {s : σ}

/-- Whether a visitor does nothing in the states with a property: it goes on, gives every node back as it
was, and keeps the property. -/
structure Visitor.Idles (v : Visitor σ ε) (I : σ → Prop) : Prop where
  enter : ∀ c n s, I s → ∃ s', I s' ∧ v.enter c n s = ⟨n, s', .ok .proceed⟩
  leave : ∀ c n s, I s → ∃ s', I s' ∧ v.leave c n s = ⟨n, s', .ok .proceed⟩

namespace Traversal

/-- Whether a part comes out of a walk as it went in, and the state of the visitor keeps a property. -/
def Passes {α : Type} (I : σ → Prop) (part : α) (w : Option (Outcome α σ ε)) : Prop :=
  ∃ s, I s ∧ w = some (.passed part s)

/-- A node is left as it is. -/
theorem walkLeave_of_idles (hv : v.Idles I) (path : List Key) (around : List Node) (n : Node)
    (hs : I s) : Passes I (.node n) (some (walkLeave v path around n s)) := by
  obtain ⟨s', hs', hleave⟩ := hv.leave ⟨path, around⟩ n s hs
  refine ⟨s', hs', ?_⟩
  rw [walkLeave, hleave]

/-- A node passes if it does once it was entered. -/
theorem walkNode_of_walkBelow (hv : v.Idles I)
    (hn : ∀ path around s, I s → Passes I (.node n) (v.walkBelow path around n s))
    (path : List Key) (around : List Node) (hs : I s) :
    Passes I (.node n) (v.walkNode path around n s) := by
  obtain ⟨s', hs', henter⟩ := hv.enter ⟨path, around⟩ n s hs
  obtain ⟨s'', hs'', hbelow⟩ := hn path around s' hs'
  refine ⟨s'', hs'', ?_⟩
  rw [Visitor.walkNode, walkEnter, henter]
  exact hbelow

/-- A single slot passes if its node does. -/
theorem walkHead_of_walkNode {head : Option Node}
    (hhead : ∀ n ∈ head.toList, ∀ path around s, I s → Passes I (.node n) (v.walkNode path around n s))
    (path : List Key) (around : List Node) (hs : I s) :
    Passes I head (v.walkHead path around head s) := by
  cases head with
  | none => exact ⟨s, hs, by rw [Visitor.walkHead]⟩
  | some n =>
      obtain ⟨s', hs', hn⟩ := hhead n List.mem_cons_self path around s hs
      refine ⟨s', hs', ?_⟩
      rw [Visitor.walkHead, hn]
      rfl

/-- A sequence passes if its nodes do. -/
theorem walkSequence_of_walkNode {ns : List Node}
    (hns : ∀ n ∈ ns, ∀ path around s, I s → Passes I (.node n) (v.walkNode path around n s))
    (path : List Key) (around : List Node) (position : Nat) (hs : I s) :
    Passes I ns (v.walkSequence path around position ns s) := by
  induction ns generalizing position s with
  | nil => exact ⟨s, hs, by rw [Visitor.walkSequence]⟩
  | cons n ns ih =>
      obtain ⟨s', hs', hn⟩ := hns n List.mem_cons_self (path ++ [.index position]) around s hs
      obtain ⟨s'', hs'', hrest⟩ :=
        ih (fun m hm => hns m (List.mem_cons_of_mem n hm)) (position + 1) hs'
      refine ⟨s'', hs'', ?_⟩
      rw [Visitor.walkSequence, hn]
      simp only [Option.bind_eq_bind, Option.bind_some]
      rw [hrest]
      rfl

/-- Every node of a forest passes once it was entered. -/
theorem walkBelow_of_idles (hv : v.Idles I) (ns : List Node) :
    ∀ n ∈ ns, ∀ path around s, I s → Passes I (.node n) (v.walkBelow path around n s) := by
  induction ns using Node.forestInduction with
  | nil =>
      intro n hn
      cases hn
  | leaf l span ns hns =>
      refine List.forall_mem_cons.2 ⟨fun path around s hs => ?_, hns⟩
      rw [Visitor.walkBelow]
      exact walkLeave_of_idles hv path around _ hs
  | group g span contents ns hcontents hns =>
      refine List.forall_mem_cons.2 ⟨fun path around s hs => ?_, hns⟩
      have hnodes := fun n hn path around s hs =>
        walkNode_of_walkBelow hv (hcontents n hn) (s := s) path around hs
      obtain ⟨s', hs', hseq⟩ := walkSequence_of_walkNode hnodes (path ++ [.field g.slotName])
        (around ++ [.group g span []]) 0 hs
      rw [Visitor.walkBelow, hseq]
      exact walkLeave_of_idles hv path around _ hs'
  | rule r span head body ns hhead hbody hns =>
      refine List.forall_mem_cons.2 ⟨fun path around s hs => ?_, hns⟩
      have hheads := fun n hn path around s hs =>
        walkNode_of_walkBelow hv (hhead n hn) (s := s) path around hs
      have hbodies := fun n hn path around s hs =>
        walkNode_of_walkBelow hv (hbody n hn) (s := s) path around hs
      obtain ⟨s', hs', hfirst⟩ := walkHead_of_walkNode hheads (path ++ [.field r.headName])
        (around ++ [.rule r span none []]) hs
      obtain ⟨s'', hs'', hseq⟩ := walkSequence_of_walkNode hbodies (path ++ [.field r.bodyName])
        (around ++ [.rule r span none []]) 0 hs'
      rw [Visitor.walkBelow, hfirst]
      simp only [Option.bind_eq_bind, Option.bind_some]
      rw [hseq]
      exact walkLeave_of_idles hv path around _ hs''

/-- Every node passes. -/
theorem walkNode_of_idles (hv : v.Idles I) (path : List Key) (around : List Node) (n : Node)
    (hs : I s) : Passes I (.node n) (v.walkNode path around n s) :=
  walkNode_of_walkBelow hv (walkBelow_of_idles hv [n] n List.mem_cons_self) path around hs

/-- Every sequence passes. -/
theorem walkSequence_of_idles (hv : v.Idles I) (path : List Key) (around : List Node) (position : Nat)
    (ns : List Node) (hs : I s) : Passes I ns (v.walkSequence path around position ns s) :=
  walkSequence_of_walkNode
    (fun n hn path around _ hs =>
      walkNode_of_walkBelow hv (walkBelow_of_idles hv ns n hn) path around hs)
    path around position hs

end Traversal

end SpecDoc
