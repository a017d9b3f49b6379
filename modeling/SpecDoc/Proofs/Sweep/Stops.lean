import SpecDoc.Proofs.Forest
import SpecDoc.Proofs.Sweep

/-!
# Sweeps that stop

A sweep that fails was stopped at one node, after it had gone through everything before it. `Stops` says so by
one rule for each way to this node, as `Swept` does for sweeps that succeed.

* `nodes_cons_eq_error`, `node_group_eq_error` and `node_rule_eq_error`: where a sweep fails;
* `stops_of_nodes` and `stops_of_document`: a sweep that fails has a derivation.
-/

namespace SpecDoc

namespace Sweep

variable {σ ε : Type} {w : Sweep σ ε}

/-- `Stops w s ns e`: the sweep of the nodes `ns` from the state `s` is stopped with the failure `e`. -/
inductive Stops (w : Sweep σ ε) : σ → List Node → ε → Prop where
  /-- A leaf is refused. -/
  | leaf {l : Leaf} {span : Option Span} {ns : List Node} {s : σ} {e : ε}
      (hleaf : w.leaf l s = .error e) : Stops w s (.leaf l span :: ns) e
  | behindLeaf {l l' : Leaf} {span : Option Span} {ns : List Node} {s s₁ : σ} {e : ε}
      (hleaf : w.leaf l s = .ok (l', s₁)) (hns : Stops w s₁ ns e) :
      Stops w s (.leaf l span :: ns) e
  /-- A group is refused. -/
  | group {g : Group} {span : Option Span} {contents ns : List Node} {s : σ} {e : ε}
      (hgroup : w.group g span contents s = .error e) : Stops w s (.group g span contents :: ns) e
  | inGroup {g g' : Group} {span : Option Span} {contents ns : List Node} {s s₁ : σ} {e : ε}
      (hgroup : w.group g span contents s = .ok (g', s₁)) (hcontents : Stops w s₁ contents e) :
      Stops w s (.group g span contents :: ns) e
  | behindGroup {g g' : Group} {span : Option Span} {contents contents' ns : List Node}
      {s s₁ s₂ : σ} {e : ε} (hgroup : w.group g span contents s = .ok (g', s₁))
      (hcontents : Swept w s₁ contents contents' s₂) (hns : Stops w (w.endGroup g' s₂) ns e) :
      Stops w s (.group g span contents :: ns) e
  /-- A rule is refused. -/
  | rule {r : Rule} {span : Option Span} {head : Option Node} {body ns : List Node} {s : σ} {e : ε}
      (hrule : w.rule r head s = .error e) : Stops w s (.rule r span head body :: ns) e
  | inHead {r r' : Rule} {span : Option Span} {head : Option Node} {body ns : List Node}
      {s s₁ : σ} {e : ε} (hrule : w.rule r head s = .ok (r', s₁))
      (hhead : Stops w s₁ head.toList e) : Stops w s (.rule r span head body :: ns) e
  | inBody {r r' : Rule} {span : Option Span} {head head' : Option Node} {body ns : List Node}
      {s s₁ s₂ : σ} {e : ε} (hrule : w.rule r head s = .ok (r', s₁))
      (hhead : Swept w s₁ head.toList head'.toList s₂) (hbody : Stops w s₂ body e) :
      Stops w s (.rule r span head body :: ns) e
  | behindRule {r r' : Rule} {span : Option Span} {head head' : Option Node}
      {body body' ns : List Node} {s s₁ s₂ s₃ : σ} {e : ε} (hrule : w.rule r head s = .ok (r', s₁))
      (hhead : Swept w s₁ head.toList head'.toList s₂) (hbody : Swept w s₂ body body' s₃)
      (hns : Stops w s₃ ns e) : Stops w s (.rule r span head body :: ns) e

/-! ## Where a sweep fails -/

/-- The sweep of a sequence fails at its first node or behind it. -/
theorem nodes_cons_eq_error {n : Node} {ns : List Node} {s : σ} {e : ε}
    (h : w.nodes (n :: ns) s = .error e) :
    w.node n s = .error e ∨ ∃ n' s₁, w.node n s = .ok (n', s₁) ∧ w.nodes ns s₁ = .error e := by
  rw [nodes] at h
  split at h
  · next hn =>
    cases h
    exact Or.inl hn
  · next n' s₁ hn =>
    split at h
    · next hns =>
      cases h
      exact Or.inr ⟨n', s₁, hn, hns⟩
    · cases h

/-- The sweep of a leaf fails only if it refuses the leaf. -/
theorem node_leaf_eq_error {l : Leaf} {span : Option Span} {s : σ} {e : ε}
    (h : w.node (.leaf l span) s = .error e) : w.leaf l s = .error e := by
  rw [node] at h
  split at h
  · next hleaf =>
    cases h
    exact hleaf
  · cases h

/-- The sweep of a group fails at the group or below it. -/
theorem node_group_eq_error {g : Group} {span : Option Span} {contents : List Node} {s : σ} {e : ε}
    (h : w.node (.group g span contents) s = .error e) :
    w.group g span contents s = .error e ∨
      ∃ g' s₁, w.group g span contents s = .ok (g', s₁) ∧ w.nodes contents s₁ = .error e := by
  rw [node] at h
  split at h
  · next hgroup =>
    cases h
    exact Or.inl hgroup
  · next g' s₁ hgroup =>
    split at h
    · next hcontents =>
      cases h
      exact Or.inr ⟨g', s₁, hgroup, hcontents⟩
    · cases h

/-- The sweep of a rule fails at the rule, in its head or in its body. -/
theorem node_rule_eq_error {r : Rule} {span : Option Span} {head : Option Node} {body : List Node}
    {s : σ} {e : ε} (h : w.node (.rule r span head body) s = .error e) :
    w.rule r head s = .error e ∨
      ∃ r' s₁, w.rule r head s = .ok (r', s₁) ∧
        (w.headNode head s₁ = .error e ∨
          ∃ head' s₂, w.headNode head s₁ = .ok (head', s₂) ∧ w.nodes body s₂ = .error e) := by
  rw [node] at h
  split at h
  · next hrule =>
    cases h
    exact Or.inl hrule
  · next r' s₁ hrule =>
    refine Or.inr ⟨r', s₁, hrule, ?_⟩
    split at h
    · next hhead =>
      cases h
      exact Or.inl hhead
    · next head' s₂ hhead =>
      split at h
      · next hbody =>
        cases h
        exact Or.inr ⟨head', s₂, hhead, hbody⟩
      · cases h

/-- The sweep of a head fails like that of a sequence of at most one node. -/
theorem nodes_toList_eq_error {head : Option Node} {s : σ} {e : ε}
    (h : w.headNode head s = .error e) : w.nodes head.toList s = .error e := by
  rw [headNode_eq] at h
  cases hnodes : w.nodes head.toList s with
  | error e' =>
      rw [hnodes] at h
      cases h
      rfl
  | ok p =>
      rw [hnodes] at h
      cases h

/-- A sweep that fails has a derivation. -/
theorem stops_of_nodes {ns : List Node} {s : σ} {e : ε} (h : w.nodes ns s = .error e) :
    Stops w s ns e := by
  induction ns using Node.forestInduction generalizing s with
  | nil => cases h
  | leaf l span ns ih =>
      rcases nodes_cons_eq_error h with h | ⟨n', s₁, hnode, hns⟩
      · exact .leaf (node_leaf_eq_error h)
      · cases swept_cons_of_node hnode (.nil s₁) with
        | leaf hleaf hnil =>
            cases hnil
            exact .behindLeaf hleaf (ih hns)
  | group g span contents ns ihcontents ihns =>
      rcases nodes_cons_eq_error h with h | ⟨n', s₁, hnode, hns⟩
      · rcases node_group_eq_error h with hgroup | ⟨g', s₁, hgroup, hcontents⟩
        · exact .group hgroup
        · exact .inGroup hgroup (ihcontents hcontents)
      · cases swept_cons_of_node hnode (.nil s₁) with
        | group hgroup hcontents hnil =>
            cases hnil
            exact .behindGroup hgroup hcontents (ihns hns)
  | rule r span head body ns ihhead ihbody ihns =>
      rcases nodes_cons_eq_error h with h | ⟨n', s₁, hnode, hns⟩
      · rcases node_rule_eq_error h with hrule | ⟨r', s₁, hrule, hhead | ⟨head', s₂, hhead, hbody⟩⟩
        · exact .rule hrule
        · exact .inHead hrule (ihhead (nodes_toList_eq_error hhead))
        · exact .inBody hrule (swept_of_headNode hhead) (ihbody hbody)
      · cases swept_cons_of_node hnode (.nil s₁) with
        | rule hrule hhead hbody hnil =>
            cases hnil
            exact .behindRule hrule hhead hbody (ihns hns)

/-- The sweep of a document that fails has a derivation for its contents. -/
theorem stops_of_document {d : Document} {s : σ} {e : ε} (h : w.document d s = .error e) :
    Stops w s d.contents e := by
  unfold document at h
  split at h
  · next hcontents =>
    cases h
    exact stops_of_nodes hcontents
  · cases h

end Sweep

end SpecDoc
