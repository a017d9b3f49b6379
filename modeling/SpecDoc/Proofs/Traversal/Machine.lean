import Mathlib.Data.Nat.Init
import Mathlib.Logic.Function.Iterate
import SpecDoc.Proofs.Traversal.Log
import SpecDoc.Proofs.Traversal.Recursive

/-!
# The traversal machine and the recursion

The machine keeps the nodes that were entered and not yet left on a stack of frames. This module
relates its runs to the recursion of `Tree.walk`.

* `EndsIn` and `Leads` describe runs of the machine without its fuel;
* `leads_of_walk`: where the recursion has an outcome, the machine gets past the same part of the tree
  with the same outcome, whatever stack is below;
* `recurses`: where the machine ends, the recursion has an outcome;
* `traverse_iff_walk`: machine and recursion have the same results and make the same callbacks.
-/

namespace SpecDoc

namespace Traversal

variable {σ ε : Type} {v : Visitor σ ε}

/-! ## Runs -/

/-- The machine after one more step; a result stays. -/
def advance (v : Visitor σ ε) : Progress σ ε → Progress σ ε
  | .running stack path s => step v stack path s
  | .ended r => .ended r

/-- The machine has the result `r` after `k` steps. -/
def EndsIn (v : Visitor σ ε) (k : ℕ) (p : Progress σ ε) (r : Result σ ε) : Prop :=
  (advance v)^[k] p = .ended r

/-- A machine that ended has its result after any number of steps. -/
@[simp]
theorem endsIn_ended (k : ℕ) (r r' : Result σ ε) : EndsIn v k (.ended r) r' ↔ r = r' := by
  unfold EndsIn
  rw [Function.iterate_fixed rfl k]
  constructor
  · intro h
    cases h
    rfl
  · intro h
    rw [h]

/-- A machine that runs has no result yet. -/
@[simp]
theorem not_endsIn_zero (stack : List Frame) (path : List Key) (s : σ) (r : Result σ ε) :
    ¬ EndsIn v 0 (.running stack path s) r := by
  intro h
  cases h

/-- A machine that runs has its result one step later than what it becomes in this step. -/
@[simp]
theorem endsIn_succ (k : ℕ) (stack : List Frame) (path : List Key) (s : σ) (r : Result σ ε) :
    EndsIn v (k + 1) (.running stack path s) r ↔ EndsIn v k (step v stack path s) r := by
  unfold EndsIn
  rw [Function.iterate_succ_apply]
  rfl

/-- More steps do not change a result. -/
theorem EndsIn.mono {p : Progress σ ε} {r : Result σ ε} {k m : ℕ} (h : EndsIn v k p r)
    (hkm : k ≤ m) : EndsIn v m p r := by
  obtain ⟨j, rfl⟩ := Nat.exists_eq_add_of_le hkm
  unfold EndsIn at *
  rw [Nat.add_comm, Function.iterate_add_apply, h]
  exact (endsIn_ended j r r).2 rfl

/-- The fuel of a run is the number of steps it may take. -/
theorem run_eq_some_iff (fuel : ℕ) (stack : List Frame) (path : List Key) (s : σ) (r : Result σ ε) :
    run v fuel stack path s = some r ↔ EndsIn v fuel (.running stack path s) r := by
  induction fuel generalizing stack path s with
  | zero => simp [run]
  | succ fuel ih =>
      rw [endsIn_succ, run]
      cases hstep : step v stack path s with
      | running stack' path' s' => exact ih stack' path' s'
      | ended r' => simp

/-- The first machine does what the second one does, after some more steps: they have the same
results. -/
def Leads (v : Visitor σ ε) (p q : Progress σ ε) : Prop :=
  ∃ k, ∀ m r, EndsIn v (m + k) p r ↔ EndsIn v m q r

/-- Every machine does what it does. -/
theorem Leads.refl (p : Progress σ ε) : Leads v p p := ⟨0, fun _ _ => Iff.rfl⟩

/-- Runs can be put together. -/
theorem Leads.trans {p q q' : Progress σ ε} (h : Leads v p q) (h' : Leads v q q') :
    Leads v p q' := by
  obtain ⟨k, hk⟩ := h
  obtain ⟨k', hk'⟩ := h'
  refine ⟨k' + k, fun m r => ?_⟩
  rw [← Nat.add_assoc, hk, hk']

/-- A step leads to what it makes of the machine. -/
theorem leads_step (stack : List Frame) (path : List Key) (s : σ) :
    Leads v (.running stack path s) (step v stack path s) :=
  ⟨1, fun m r => endsIn_succ m stack path s r⟩

/-- Two machines with the same next step do the same. -/
theorem leads_of_step_eq {stack stack' : List Frame} {path path' : List Key} {s s' : σ}
    (h : step v stack path s = step v stack' path' s') :
    Leads v (.running stack path s) (.running stack' path' s') := by
  refine ⟨0, fun m r => ?_⟩
  cases m with
  | zero => simp
  | succ m =>
      rw [Nat.add_zero, endsIn_succ, endsIn_succ, h]

/-- A result of the first machine is one of the second. -/
theorem Leads.endsIn {p q : Progress σ ε} (h : Leads v p q) {m : ℕ} {r : Result σ ε}
    (hp : EndsIn v m p r) : EndsIn v m q r := by
  obtain ⟨k, hk⟩ := h
  exact (hk m r).1 (hp.mono (Nat.le_add_right m k))

/-- A result of the second machine is one of the first. -/
theorem Leads.exists_endsIn {p q : Progress σ ε} (h : Leads v p q) {m : ℕ} {r : Result σ ε}
    (hq : EndsIn v m q r) : ∃ k, EndsIn v k p r := by
  obtain ⟨k, hk⟩ := h
  exact ⟨m + k, (hk m r).2 hq⟩

/-! ## Frames -/

/-- The nodes of a stack end with the node of its innermost frame. -/
theorem ancestors_cons (f : Frame) (fs : List Frame) :
    ancestors (f :: fs) = ancestors fs ++ f.node.toList := by
  unfold ancestors
  cases hf : f.node with
  | none => simp [hf]
  | some n => simp [hf]

/-- A slot in which no child waits is passed over. -/
theorem step_skip (node : Option Node) (keys : ℕ) (done : List Cursor) (c : Cursor)
    (cs : List Cursor) (fs : List Frame) (path : List Key) (s : σ) (hc : c.waiting = []) :
    step v (⟨node, keys, done, c :: cs⟩ :: fs) path s
      = step v (⟨node, keys, done ++ [c], cs⟩ :: fs) path s := by
  have h : Frame.nextChild done (c :: cs) = Frame.nextChild (done ++ [c]) cs := by
    rw [Frame.nextChild, hc]
  simp only [step, h]

/-- A frame does what it does behind a slot in which no child waits. -/
theorem leads_skip {node : Option Node} {keys : ℕ} (done : List Cursor) {c : Cursor}
    {cs : List Cursor} {fs : List Frame} {path : List Key} {s : σ} (hc : c.waiting = []) :
    Leads v (.running (⟨node, keys, done, c :: cs⟩ :: fs) path s)
      (.running (⟨node, keys, done ++ [c], cs⟩ :: fs) path s) :=
  leads_of_step_eq (step_skip node keys done c cs fs path s hc)

/-- A frame in whose last slot no child waits is closed, and its node is left. -/
theorem step_leave (shell : Node) (keys : ℕ) (done : List Cursor) (c : Cursor)
    (g : Frame) (gs : List Frame) (path : List Key) (s : σ) (hc : c.waiting = []) :
    step v (⟨some shell, keys, done, [c]⟩ :: g :: gs) path s
      = leaveNode v path keys (g :: gs) (shell.withSlots ((done ++ [c]).map Cursor.nodes)) s := by
  rw [step_skip _ _ _ _ _ _ _ _ hc]
  simp only [step, Frame.nextChild, Frame.close, List.append_nil]

/-- The lowest frame, when no child waits in it, gives the result. -/
theorem step_root (keys : ℕ) (c : Cursor) (path : List Key) (s : σ) (hc : c.waiting = []) :
    step v [⟨none, keys, [], [c]⟩] path s
      = .ended (.finished (Frame.closeRoot ⟨none, keys, [c], []⟩) s) := by
  rw [step_skip _ _ _ _ _ _ _ _ hc]
  simp only [step, Frame.nextChild, List.nil_append]

/-- The child that waits first is entered, with its keys at the end of the path. -/
theorem step_enter (node : Option Node) (keys : ℕ) (done : List Cursor) (c : Cursor)
    (cs : List Cursor) (fs : List Frame) (n : Node) (ns : List Node) (path : List Key) (s : σ)
    (hc : c.waiting = n :: ns) :
    step v (⟨node, keys, done, c :: cs⟩ :: fs) path s
      = enterNode v (path ++ c.keys) c.keys.length
          (⟨node, keys, done, { c with waiting := ns, position := c.position + 1 } :: cs⟩ :: fs)
          n s := by
  have h : Frame.nextChild done (c :: cs) = (done, some (n, c.keys),
      { c with waiting := ns, position := c.position + 1 } :: cs) := by
    rw [Frame.nextChild, hc]
  simp only [step, h]

/-- A frame that is closed without a callback becomes a child of the frame below it. -/
theorem unwind_cons (shell : Node) (keys : ℕ) (done slots : List Cursor) (g : Frame)
    (gs : List Frame) :
    unwind (⟨some shell, keys, done, slots⟩ :: g :: gs)
      = unwind (settle (g :: gs) (.node (shell.withSlots ((done ++ slots).map Cursor.nodes)))) := by
  rw [unwind]
  rfl

/-- How the machine goes on after a node with a given outcome; `way` is the path to the frame around
it. -/
def Outcome.resume (stack : List Frame) (way : List Key) : Outcome Tree σ ε → Progress σ ε
  | .passed t s => .running (settle stack t) way s
  | .halted t s => .ended (.finished (unwind (settle stack t)) s)
  | .failed e s => .ended (.failed e s)

/-- The machine leaves a node as the recursion does. -/
theorem leaveNode_eq (path : List Key) (keys : ℕ) (stack : List Frame) (n : Node) (s : σ) :
    leaveNode v path keys stack n s
      = (walkLeave v path (ancestors stack) n s).resume stack (shorten path keys) := by
  unfold leaveNode walkLeave
  dsimp only
  cases hanswer : (v.leave ⟨path, ancestors stack⟩ n s).answer with
  | error e => rfl
  | ok action => cases action <;> rfl

/-- The machine enters a node as the recursion does. -/
theorem enterNode_eq (path : List Key) (keys : ℕ) (stack : List Frame) (n : Node) (s : σ) :
    enterNode v path keys stack n s
      = match walkEnter v path (ancestors stack) n s with
        | .below m s' => descend v path keys stack m s'
        | .settled o => o.resume stack (shorten path keys) := by
  unfold enterNode walkEnter
  dsimp only
  cases hanswer : (v.enter ⟨path, ancestors stack⟩ n s).answer with
  | error e => rfl
  | ok action =>
      cases action with
      | replace t => cases t <;> rfl
      | _ => rfl

/-! ## From the recursion to the machine -/

/-- What the nodes of a slot tell about an outcome for the slot, seen as the recursion sees them. Once
the slot was passed, no child waits in it. -/
def Outcome.Fills {α : Type} (view : List Node → α) (c : Cursor) : Outcome α σ ε → Prop
  | .passed part _ => c.waiting = [] ∧ view c.nodes = part
  | .halted part _ => view c.nodes = part
  | .failed _ _ => True

/-- How the machine goes on after a slot with a given outcome, which is then the slot `c` of the
innermost frame, at the end of the path `way`. -/
def Outcome.resumeSlot {α : Type} (f : Frame) (c : Cursor) (cs : List Cursor) (fs : List Frame)
    (way : List Key) : Outcome α σ ε → Progress σ ε
  | .passed _ s => .running ({ f with slots := c :: cs } :: fs) way s
  | .halted _ s => .ended (.finished (unwind ({ f with slots := c :: cs } :: fs)) s)
  | .failed e s => .ended (.failed e s)

/-- The machine gets past a node at the end of a path with the outcome `o`, from any stack that is not
empty. However many keys at the end of the path are those of the node, it has dropped them then. -/
def NodeLeads (v : Visitor σ ε) (start : ℕ → List Frame → Progress σ ε) (path : List Key)
    (around : List Node) (o : Outcome Tree σ ε) : Prop :=
  ∀ (keys : ℕ) (stack : List Frame), stack ≠ [] → ancestors stack = around →
    Leads v (start keys stack) (o.resume stack (shorten path keys))

/-- The machine gets past the slot `c` with the outcome `o`, whatever frame the slot belongs to. The path
of the slot is the one to the frame, which the machine has come back to then, and the name of the slot. -/
def SlotLeads {α : Type} (v : Visitor σ ε) (path : List Key) (around : List Node) (c : Cursor)
    (s : σ) (view : List Node → α) (o : Outcome α σ ε) : Prop :=
  ∀ (f : Frame) (cs : List Cursor) (fs : List Frame) (way : List Key),
    way ++ (c.field.map Key.field).toList = path → ancestors (f :: fs) = around →
      ∃ c' : Cursor, c'.single = c.single ∧ o.Fills view c' ∧
        Leads v (.running ({ f with slots := c :: cs } :: fs) way s) (o.resumeSlot f c' cs fs way)

/-- A single slot without a node is passed at once. -/
theorem slotLeads_head_none (path : List Key) (around : List Node) (field : Option String) (s : σ) :
    SlotLeads v path around ⟨field, true, [], 0, []⟩ s List.head?
      (.passed none s : Outcome (Option Node) σ ε) := by
  intro f cs fs way _ _
  exact ⟨⟨field, true, [], 0, []⟩, rfl, ⟨rfl, rfl⟩, Leads.refl _⟩

/-- A single slot is passed with the outcome for its node. -/
theorem slotLeads_head_some {path : List Key} {around : List Node} {field : Option String} {n : Node}
    {s : σ} {o : Outcome Tree σ ε}
    (h : NodeLeads v (fun keys stack => enterNode v path keys stack n s) path around o) :
    SlotLeads v path around ⟨field, true, [n], 0, []⟩ s List.head?
      (o.map fun t => t.nodes.head?) := by
  intro f cs fs way hpath haround
  have hn := h (field.map Key.field).toList.length
    ({ f with slots := ⟨field, true, [], 1, []⟩ :: cs } :: fs) (List.cons_ne_nil _ _) haround
  have hstep : step v ({ f with slots := ⟨field, true, [n], 0, []⟩ :: cs } :: fs) way s
      = enterNode v path (field.map Key.field).toList.length
          ({ f with slots := ⟨field, true, [], 1, []⟩ :: cs } :: fs) n s := by
    rw [step_enter _ _ _ _ _ _ n [] way s rfl, ← hpath]
    simp [Cursor.keys]
  have hlead := leads_step (v := v)
    ({ f with slots := ⟨field, true, [n], 0, []⟩ :: cs } :: fs) way s
  rw [hstep] at hlead
  rw [← hpath, shorten_append, hpath] at hn
  refine ⟨⟨field, true, [], 1, match o with
    | .passed t _ => [t]
    | .halted t _ => [t]
    | .failed _ _ => []⟩, rfl, ?_, ?_⟩
  · cases o with
    | passed t s' => exact ⟨rfl, by simp [Cursor.nodes]⟩
    | halted t s' => simp [Outcome.map, Outcome.Fills, Cursor.nodes]
    | failed e s' => trivial
  · cases o with
    | passed t s' => exact hlead.trans hn
    | halted t s' => exact hlead.trans hn
    | failed e s' => exact hlead.trans hn

/-- A sequence in which no child waits is passed at once. -/
theorem slotLeads_sequence_nil (path : List Key) (around : List Node) (c : Cursor) (s : σ)
    (hc : c.waiting = []) :
    SlotLeads v path around c s id
      (.passed (c.finished.flatMap Tree.nodes) s : Outcome (List Node) σ ε) := by
  intro f cs fs way _ _
  exact ⟨c, rfl, ⟨hc, by simp [Cursor.nodes, hc]⟩, Leads.refl _⟩

/-- The first child of a sequence is entered, and the machine gets past it with its outcome. -/
theorem leads_child {path : List Key} {around : List Node} {c : Cursor} {n : Node} {ns : List Node}
    {s : σ} {o : Outcome Tree σ ε} (hsingle : c.single = false) (hc : c.waiting = n :: ns)
    (h : NodeLeads v (fun keys stack => enterNode v (path ++ [.index c.position]) keys stack n s)
      (path ++ [.index c.position]) around o)
    (f : Frame) (cs : List Cursor) (fs : List Frame) (way : List Key)
    (hpath : way ++ (c.field.map Key.field).toList = path)
    (haround : ancestors (f :: fs) = around) :
    Leads v (.running ({ f with slots := c :: cs } :: fs) way s)
      (o.resume ({ f with slots :=
        { c with waiting := ns, position := c.position + 1 } :: cs } :: fs) way) := by
  have hstep := leads_step (v := v) ({ f with slots := c :: cs } :: fs) way s
  rw [step_enter _ _ _ _ _ _ n ns way s hc] at hstep
  have hkeys : path ++ [.index c.position] = way ++ c.keys := by
    rw [← hpath, Cursor.keys, hsingle]
    simp
  rw [hkeys] at h
  have hn := h c.keys.length ({ f with slots :=
    { c with waiting := ns, position := c.position + 1 } :: cs } :: fs) (List.cons_ne_nil _ _) haround
  rw [shorten_append] at hn
  exact hstep.trans hn

/-- A sequence in whose first child the walk comes to an end. -/
theorem slotLeads_sequence_halted {path : List Key} {around : List Node} {c : Cursor} {n : Node}
    {ns : List Node} {s s' : σ} {t : Tree} (hsingle : c.single = false) (hc : c.waiting = n :: ns)
    (h : NodeLeads v (fun keys stack => enterNode v (path ++ [.index c.position]) keys stack n s)
      (path ++ [.index c.position]) around (.halted t s')) :
    SlotLeads v path around c s id
      (.halted (c.finished.flatMap Tree.nodes ++ (t.nodes ++ ns)) s') := by
  intro f cs fs way hpath haround
  refine ⟨⟨c.field, c.single, ns, c.position + 1, c.finished ++ [t]⟩, rfl, ?_,
    leads_child hsingle hc h f cs fs way hpath haround⟩
  simp [Outcome.Fills, Cursor.nodes]

/-- A sequence fails where a callback fails in its first child. -/
theorem slotLeads_sequence_failed {path : List Key} {around : List Node} {c : Cursor} {n : Node}
    {ns : List Node} {s s' : σ} {e : ε} (hsingle : c.single = false) (hc : c.waiting = n :: ns)
    (h : NodeLeads v (fun keys stack => enterNode v (path ++ [.index c.position]) keys stack n s)
      (path ++ [.index c.position]) around (.failed e s')) :
    SlotLeads v path around c s id (.failed e s' : Outcome (List Node) σ ε) := by
  intro f cs fs way hpath haround
  exact ⟨c, rfl, trivial, leads_child hsingle hc h f cs fs way hpath haround⟩

/-- A sequence goes on behind its first child with the remaining ones. -/
theorem slotLeads_sequence_passed {path : List Key} {around : List Node} {c : Cursor} {n : Node}
    {ns : List Node} {s s' : σ} {t : Tree} {o : Outcome (List Node) σ ε}
    (hsingle : c.single = false) (hc : c.waiting = n :: ns)
    (h : NodeLeads v (fun keys stack => enterNode v (path ++ [.index c.position]) keys stack n s)
      (path ++ [.index c.position]) around (.passed t s'))
    (hrest : SlotLeads v path around
      ⟨c.field, c.single, ns, c.position + 1, c.finished ++ [t]⟩ s' id o) :
    SlotLeads v path around c s id o := by
  intro f cs fs way hpath haround
  obtain ⟨c', hsingle', hfills, hlead⟩ := hrest f cs fs way hpath haround
  exact ⟨c', hsingle', hfills, (leads_child hsingle hc h f cs fs way hpath haround).trans hlead⟩

/-- A node whose last slot was passed is left. -/
theorem leads_leave {α : Type} {path : List Key} {around : List Node} {shell : Node} (keys : ℕ)
    {done : List Cursor} {c : Cursor} {view : List Node → α} {make : α → Node}
    {o : Outcome α σ ε} (hfills : o.Fills view c)
    (hmake : shell.withSlots ((done ++ [c]).map Cursor.nodes) = make (view c.nodes))
    (stack : List Frame) (hstack : stack ≠ []) (haround : ancestors stack = around) :
    Leads v (o.resumeSlot ⟨some shell, keys, done, []⟩ c [] stack path)
      ((o.leave v path around make).resume stack (shorten path keys)) := by
  obtain ⟨g, gs, rfl⟩ := List.exists_cons_of_ne_nil hstack
  cases o with
  | passed part s =>
      obtain ⟨hwaiting, rfl⟩ := hfills
      have hstep := leads_step (v := v) (⟨some shell, keys, done, [c]⟩ :: g :: gs) path s
      rw [step_leave _ _ _ _ _ _ _ _ hwaiting, hmake, leaveNode_eq, haround] at hstep
      exact hstep
  | halted part s =>
      obtain rfl : view c.nodes = part := hfills
      rw [Outcome.resumeSlot, unwind_cons, hmake]
      exact Leads.refl _
  | failed e s => exact Leads.refl _

/-- A leaf is left as soon as it was entered. -/
theorem nodeLeads_leaf (path : List Key) (around : List Node) (l : Leaf) (span : Option Span)
    (s : σ) :
    NodeLeads v (fun keys stack => descend v path keys stack (.leaf l span) s) path around
      (walkLeave v path around (.leaf l span) s) := by
  intro keys stack _ haround
  show Leads v (leaveNode v path keys stack (.leaf l span) s) _
  rw [leaveNode_eq, haround]
  exact Leads.refl _

/-- The machine gets past a group with the outcome for its slot. -/
theorem nodeLeads_group {path : List Key} {around : List Node} {g : Group} {span : Option Span}
    {contents : List Node} {s : σ} {o : Outcome (List Node) σ ε}
    (h : SlotLeads v (path ++ [.field g.slotName]) (around ++ [.group g span []])
      ⟨some g.slotName, false, contents, 0, []⟩ s id o) :
    NodeLeads v (fun keys stack => descend v path keys stack (.group g span contents) s) path around
      (o.leave v path around (.group g span)) := by
  intro keys stack hstack haround
  obtain ⟨c, _, hfills, hlead⟩ := h ⟨some (.group g span []), keys, [], []⟩ [] stack path rfl
    (by rw [ancestors_cons, haround]; rfl)
  exact hlead.trans (leads_leave keys hfills rfl stack hstack haround)

/-- The machine gets past a rule, if the walk comes to an end in its head. -/
theorem nodeLeads_rule_halted {path : List Key} {around : List Node} {r : Rule} {span : Option Span}
    {head head' : Option Node} {body : List Node} {s s' : σ}
    (h : SlotLeads v (path ++ [.field r.headName]) (around ++ [.rule r span none []])
      ⟨some r.headName, true, head.toList, 0, []⟩ s List.head? (.halted head' s')) :
    NodeLeads v (fun keys stack => descend v path keys stack (.rule r span head body) s) path around
      (.halted (.node (.rule r span head' body)) s') := by
  intro keys stack hstack haround
  obtain ⟨c, _, hfills, hlead⟩ := h ⟨some (.rule r span none []), keys, [], []⟩
    [.ofSlot (.sequence r.bodyName body)] stack path rfl (by rw [ancestors_cons, haround]; rfl)
  obtain ⟨g, gs, rfl⟩ := List.exists_cons_of_ne_nil hstack
  obtain rfl : c.nodes.head? = head' := hfills
  rw [Outcome.resumeSlot, unwind_cons] at hlead
  exact hlead

/-- The machine ends in a rule, if a callback fails in its head. -/
theorem nodeLeads_rule_failed {path : List Key} {around : List Node} {r : Rule} {span : Option Span}
    {head : Option Node} {body : List Node} {s s' : σ} {e : ε}
    (h : SlotLeads v (path ++ [.field r.headName]) (around ++ [.rule r span none []])
      ⟨some r.headName, true, head.toList, 0, []⟩ s List.head?
      (.failed e s' : Outcome (Option Node) σ ε)) :
    NodeLeads v (fun keys stack => descend v path keys stack (.rule r span head body) s) path around
      (.failed e s') := by
  intro keys stack _ haround
  obtain ⟨c, _, _, hlead⟩ := h ⟨some (.rule r span none []), keys, [], []⟩
    [.ofSlot (.sequence r.bodyName body)] stack path rfl (by rw [ancestors_cons, haround]; rfl)
  exact hlead

/-- The machine gets past a rule whose head was passed with the outcome for its second slot. -/
theorem nodeLeads_rule_passed {path : List Key} {around : List Node} {r : Rule} {span : Option Span}
    {head head' : Option Node} {body : List Node} {s s' : σ} {o : Outcome (List Node) σ ε}
    (h : SlotLeads v (path ++ [.field r.headName]) (around ++ [.rule r span none []])
      ⟨some r.headName, true, head.toList, 0, []⟩ s List.head? (.passed head' s'))
    (h' : SlotLeads v (path ++ [.field r.bodyName]) (around ++ [.rule r span none []])
      ⟨some r.bodyName, false, body, 0, []⟩ s' id o) :
    NodeLeads v (fun keys stack => descend v path keys stack (.rule r span head body) s) path around
      (o.leave v path around (.rule r span head')) := by
  intro keys stack hstack haround
  have haround' : ∀ done slots,
      ancestors (⟨some (.rule r span none []), keys, done, slots⟩ :: stack)
        = around ++ [.rule r span none []] := by
    intro done slots
    rw [ancestors_cons, haround]
    rfl
  obtain ⟨c, _, ⟨hwaiting, hhead⟩, hlead⟩ := h ⟨some (.rule r span none []), keys, [], []⟩
    [.ofSlot (.sequence r.bodyName body)] stack path rfl (haround' [] [])
  obtain ⟨c', _, hfills', hlead'⟩ := h' ⟨some (.rule r span none []), keys, [c], []⟩ [] stack path
    rfl (haround' [c] [])
  -- After the head was passed, the frame still shows it, and no child waits in it.
  have hbody := Leads.trans (leads_skip [] hwaiting) hlead'
  refine (hlead.trans hbody).trans (leads_leave keys hfills' ?_ stack hstack haround)
  rw [← hhead]
  rfl

/-- The machine gets past a node with the outcome for what comes of entering it. -/
theorem nodeLeads_enter {path : List Key} {around : List Node} {n : Node} {s : σ}
    {o : Outcome Tree σ ε}
    (hbelow : ∀ m s', walkEnter v path around n s = .below m s' →
      NodeLeads v (fun keys stack => descend v path keys stack m s') path around o)
    (hsettled : ∀ o', walkEnter v path around n s = .settled o' → o' = o) :
    NodeLeads v (fun keys stack => enterNode v path keys stack n s) path around o := by
  intro keys stack hstack haround
  show Leads v (enterNode v path keys stack n s) _
  rw [enterNode_eq, haround]
  cases hentry : walkEnter v path around n s with
  | below m s' => exact hbelow m s' hentry keys stack hstack haround
  | settled o' =>
      rw [hsettled o' hentry]
      exact Leads.refl _

/-- Where nothing is finished yet, nothing is put in front. -/
theorem Outcome.map_finished_nil (o : Outcome (List Node) σ ε) :
    o.map (([] : List Tree).flatMap Tree.nodes ++ ·) = o := by
  cases o <;> rfl

/-- What the latest child became comes behind what is already finished. -/
theorem Outcome.map_finished_concat (ts : List Tree) (t : Tree) (o : Outcome (List Node) σ ε) :
    (o.map (t.nodes ++ ·)).map (ts.flatMap Tree.nodes ++ ·)
      = o.map ((ts ++ [t]).flatMap Tree.nodes ++ ·) := by
  cases o <;> simp [Outcome.map]

/-- The machine gets past everything for which the recursion has an outcome. The induction is on the
approximations of the recursion, one case for each of its four functions. -/
theorem leads_of_walk (v : Visitor σ ε) :
    (∀ path around n s o, v.walkNode path around n s = some o →
      NodeLeads v (fun keys stack => enterNode v path keys stack n s) path around o) ∧
    (∀ path around n s o, v.walkBelow path around n s = some o →
      NodeLeads v (fun keys stack => descend v path keys stack n s) path around o) ∧
    (∀ path around head s o, v.walkHead path around head s = some o →
      ∀ field, SlotLeads v path around ⟨field, true, head.toList, 0, []⟩ s List.head? o) ∧
    (∀ path around position ns s o, v.walkSequence path around position ns s = some o →
      ∀ c : Cursor, c.single = false → c.waiting = ns → c.position = position →
        SlotLeads v path around c s id (o.map (c.finished.flatMap Tree.nodes ++ ·))) := by
  apply Visitor.walkNode.mutual_partial_correctness v
  -- In each case the functions that are called have outcomes of their own to follow.
  · intro below hbelow path around n s o h
    apply nodeLeads_enter
    · intro m s' hentry
      rw [hentry] at h
      exact hbelow path around m s' o h
    · intro o' hentry
      rw [hentry] at h
      exact Option.some.inj h
  · intro head sequence hhead hsequence path around n s o h
    cases n with
    | leaf l span =>
        cases h
        exact nodeLeads_leaf path around l span s
    | group g span contents =>
        obtain ⟨outcome, hcontents, ho⟩ := Option.bind_eq_some_iff.1 h
        cases ho
        have hslot := hsequence _ _ _ _ _ _ hcontents ⟨some g.slotName, false, contents, 0, []⟩
          rfl rfl rfl
        rw [Outcome.map_finished_nil] at hslot
        exact nodeLeads_group hslot
    | rule r span hd body =>
        obtain ⟨outcome, hhd, h⟩ := Option.bind_eq_some_iff.1 h
        have hslot := hhead _ _ _ _ _ hhd (some r.headName)
        cases outcome with
        | failed e s' =>
            cases h
            exact nodeLeads_rule_failed hslot
        | halted hd' s' =>
            cases h
            exact nodeLeads_rule_halted hslot
        | passed hd' s' =>
            obtain ⟨outcome, hbody, ho⟩ := Option.bind_eq_some_iff.1 h
            cases ho
            have hslot' := hsequence _ _ _ _ _ _ hbody ⟨some r.bodyName, false, body, 0, []⟩
              rfl rfl rfl
            rw [Outcome.map_finished_nil] at hslot'
            exact nodeLeads_rule_passed hslot hslot'
  · intro node hnode path around hd s o h field
    cases hd with
    | none =>
        cases h
        exact slotLeads_head_none path around field s
    | some n =>
        obtain ⟨outcome, hn, ho⟩ := Option.bind_eq_some_iff.1 h
        cases ho
        exact slotLeads_head_some (hnode _ _ _ _ _ hn)
  · intro node sequence hnode hsequence path around position ns s o h c hsingle hc hposition
    subst hposition
    cases ns with
    | nil =>
        cases h
        have hslot := slotLeads_sequence_nil (v := v) path around c s hc
        rwa [← List.append_nil (c.finished.flatMap Tree.nodes)] at hslot
    | cons n ns =>
        obtain ⟨outcome, hn, h⟩ := Option.bind_eq_some_iff.1 h
        have hlead := hnode _ _ _ _ _ hn
        cases outcome with
        | failed e s' =>
            cases h
            exact slotLeads_sequence_failed hsingle hc hlead
        | halted t s' =>
            cases h
            exact slotLeads_sequence_halted hsingle hc hlead
        | passed t s' =>
            obtain ⟨rest, hrest, ho⟩ := Option.bind_eq_some_iff.1 h
            cases ho
            have hslot := hsequence _ _ _ _ _ _ hrest
              ⟨c.field, c.single, ns, c.position + 1, c.finished ++ [t]⟩ hsingle rfl rfl
            rw [← Outcome.map_finished_concat] at hslot
            exact slotLeads_sequence_passed hsingle hc hlead hslot

/-! ## From the machine to the recursion -/

/-- If the machine ends `m` steps after it has entered a node, the recursion has an outcome there. -/
def Recurses (v : Visitor σ ε) (m : ℕ) : Prop :=
  ∀ path keys stack n s r, stack ≠ [] → EndsIn v m (enterNode v path keys stack n s) r →
    ∃ o, v.walkNode path (ancestors stack) n s = some o

/-- A machine that ends with children waiting in a sequence has entered the first of them before. -/
theorem exists_endsIn_enter {c : Cursor} {n : Node} {ns : List Node} (hc : c.waiting = n :: ns)
    {f : Frame} {cs : List Cursor} {fs : List Frame} {way : List Key} {s : σ} {r : Result σ ε} {k : ℕ}
    (h : EndsIn v k (.running ({ f with slots := c :: cs } :: fs) way s) r) :
    ∃ j < k, EndsIn v j (enterNode v (way ++ c.keys) c.keys.length
      ({ f with slots := { c with waiting := ns, position := c.position + 1 } :: cs } :: fs) n s)
        r := by
  cases k with
  | zero => exact absurd h (not_endsIn_zero _ way s r)
  | succ j =>
      rw [endsIn_succ, step_enter _ _ _ _ _ _ n ns way s hc] at h
      exact ⟨j, Nat.lt_succ_self j, h⟩

/-- Where the machine ends in a sequence, the recursion has an outcome for it. The induction is on the
children that wait; each of them takes at least one step. -/
theorem exists_walkSequence {m : ℕ} (hnode : ∀ k < m, Recurses v k) (ns : List Node) :
    ∀ (c : Cursor) (f : Frame) (cs : List Cursor) (fs : List Frame) (way : List Key) (s : σ)
      (r : Result σ ε), ∀ k ≤ m, c.single = false → c.waiting = ns →
        EndsIn v k (.running ({ f with slots := c :: cs } :: fs) way s) r →
          ∃ o, v.walkSequence (way ++ (c.field.map Key.field).toList) (ancestors (f :: fs))
            c.position ns s = some o := by
  induction ns with
  | nil =>
      intro c f cs fs way s r k _ _ _ _
      exact ⟨.passed [] s, by rw [Visitor.walkSequence]⟩
  | cons n ns ih =>
      intro c f cs fs way s r k hk hsingle hc h
      obtain ⟨j, hj, hends⟩ := exists_endsIn_enter hc h
      have hkeys : way ++ c.keys
          = (way ++ (c.field.map Key.field).toList) ++ [.index c.position] := by
        rw [Cursor.keys, hsingle]
        simp
      obtain ⟨o, ho⟩ := hnode j (by omega) _ _ _ n s r (List.cons_ne_nil _ _) hends
      have haround : ancestors ({ f with slots :=
          { c with waiting := ns, position := c.position + 1 } :: cs } :: fs)
            = ancestors (f :: fs) := rfl
      rw [haround] at ho
      -- Behind its first child the sequence has no more than `j` steps left.
      have hafter :=
        ((leads_of_walk v).1 _ _ _ _ _ ho _ _ (List.cons_ne_nil _ _) haround).endsIn hends
      rw [shorten_append] at hafter
      rw [Visitor.walkSequence, ← hkeys, ho]
      cases o with
      | failed e s' => exact ⟨.failed e s', rfl⟩
      | halted t s' => exact ⟨.halted (t.nodes ++ ns) s', rfl⟩
      | passed t s' =>
          obtain ⟨rest, hrest⟩ := ih
            ⟨c.field, c.single, ns, c.position + 1, c.finished ++ [t]⟩ f cs fs way s' r j (by omega)
            hsingle rfl hafter
          exact ⟨rest.map (t.nodes ++ ·), by simp [hrest]⟩

/-- Where the machine ends in a single slot, the recursion has an outcome for it. -/
theorem exists_walkHead {m : ℕ} (hnode : ∀ k < m, Recurses v k) (field : Option String)
    {head : Option Node} (f : Frame) (cs : List Cursor) {fs : List Frame} {way : List Key} {s : σ}
    {r : Result σ ε}
    (h : EndsIn v m
      (.running ({ f with slots := ⟨field, true, head.toList, 0, []⟩ :: cs } :: fs) way s) r) :
    ∃ o, v.walkHead (way ++ (field.map Key.field).toList) (ancestors (f :: fs)) head s
      = some o := by
  cases head with
  | none => exact ⟨.passed none s, by rw [Visitor.walkHead]⟩
  | some n =>
      obtain ⟨j, hj, hends⟩ := exists_endsIn_enter rfl h
      have hkeys : way ++ Cursor.keys ⟨field, true, [n], 0, []⟩
          = way ++ (field.map Key.field).toList := by
        simp [Cursor.keys]
      rw [Option.toList_some, hkeys] at hends
      obtain ⟨o, ho⟩ := hnode j hj _ _ _ n s r (List.cons_ne_nil _ _) hends
      have haround : ancestors ({ f with slots := ⟨field, true, [], 1, []⟩ :: cs } :: fs)
          = ancestors (f :: fs) := rfl
      exact ⟨o.map fun t => t.nodes.head?, by rw [Visitor.walkHead, ← haround, ho]; rfl⟩

/-- Where the machine ends below a node, the recursion has an outcome for it. -/
theorem exists_walkBelow {m : ℕ} (hnode : ∀ k < m, Recurses v k) {path : List Key}
    {keys : ℕ} {stack : List Frame} {n : Node} {s : σ} {r : Result σ ε}
    (h : EndsIn v m (descend v path keys stack n s) r) :
    ∃ o, v.walkBelow path (ancestors stack) n s = some o := by
  cases n with
  | leaf l span => exact ⟨_, by rw [Visitor.walkBelow]⟩
  | group g span contents =>
      obtain ⟨o, ho⟩ := exists_walkSequence hnode contents ⟨some g.slotName, false, contents, 0, []⟩
        ⟨some (.group g span []), keys, [], []⟩ [] stack path s r m (Nat.le_refl _) rfl rfl h
      rw [ancestors_cons] at ho
      refine ⟨o.leave v path (ancestors stack) (.group g span), ?_⟩
      rw [Visitor.walkBelow]
      exact Option.bind_eq_some_iff.2 ⟨o, ho, rfl⟩
  | rule r span head body =>
      obtain ⟨o, ho⟩ := exists_walkHead hnode (some r.headName)
        ⟨some (.rule r span none []), keys, [], []⟩ [.ofSlot (.sequence r.bodyName body)] h
      obtain ⟨c, _, hfills, hlead⟩ := (leads_of_walk v).2.2.1 _ _ _ _ _ ho (some r.headName)
        ⟨some (.rule r span none []), keys, [], []⟩ [.ofSlot (.sequence r.bodyName body)] stack path
        rfl rfl
      have hafter := hlead.endsIn h
      rw [ancestors_cons] at ho
      cases o with
      | failed e s' =>
          refine ⟨.failed e s', ?_⟩
          rw [Visitor.walkBelow]
          exact Option.bind_eq_some_iff.2 ⟨_, ho, rfl⟩
      | halted head' s' =>
          refine ⟨.halted (.node (.rule r span head' body)) s', ?_⟩
          rw [Visitor.walkBelow]
          exact Option.bind_eq_some_iff.2 ⟨_, ho, rfl⟩
      | passed head' s' =>
          -- The head was passed, and the machine ends in the slot behind it.
          have hends := (leads_skip [] hfills.1).endsIn hafter
          obtain ⟨o', ho'⟩ := exists_walkSequence hnode body ⟨some r.bodyName, false, body, 0, []⟩
            ⟨some (.rule r span none []), keys, [c], []⟩ [] stack path s' _ m (Nat.le_refl _) rfl rfl
            hends
          rw [ancestors_cons] at ho'
          refine ⟨o'.leave v path (ancestors stack) (.rule r span head'), ?_⟩
          rw [Visitor.walkBelow]
          exact Option.bind_eq_some_iff.2 ⟨_, ho, Option.bind_eq_some_iff.2 ⟨_, ho', rfl⟩⟩

/-- Where the machine ends, the recursion has an outcome. The induction is on the number of steps. -/
theorem recurses (v : Visitor σ ε) (m : ℕ) : Recurses v m := by
  induction m using Nat.strong_induction_on with
  | _ m ih =>
      intro path keys stack n s r _ h
      rw [enterNode_eq] at h
      rw [Visitor.walkNode]
      cases hentry : walkEnter v path (ancestors stack) n s with
      | settled o => exact ⟨o, rfl⟩
      | below n' s' =>
          rw [hentry] at h
          exact exists_walkBelow ih h

/-! ## Results -/

/-- A machine that leads to the results of outcomes, and ends only if there is one, has the same results
as they. -/
theorem exists_endsIn_iff {α : Type} {w : Option (Outcome α σ ε)} {f : α → Tree} {p : Progress σ ε}
    (hlead : ∀ o, w = some o → Leads v p (.ended (o.result f)))
    (hends : ∀ m r, EndsIn v m p r → ∃ o, w = some o) (r : Result σ ε) :
    (∃ m, EndsIn v m p r) ↔ w.map (Outcome.result f) = some r := by
  constructor
  · rintro ⟨m, h⟩
    obtain ⟨o, ho⟩ := hends m r h
    have hr := (hlead o ho).endsIn h
    rw [endsIn_ended] at hr
    rw [ho, Option.map_some, hr]
  · intro h
    obtain ⟨o, ho, hr⟩ := Option.map_eq_some_iff.1 h
    exact (hlead o ho).exists_endsIn ((endsIn_ended 0 _ r).2 hr)

/-- The machine leads from a single root to the result of the recursion. -/
theorem leads_root_node {n : Node} {s : σ} {o : Outcome Tree σ ε}
    (h : v.walkNode [] [] n s = some o) :
    Leads v (.running [.root (.node n)] [] s) (.ended (o.result id)) := by
  have hstep := leads_step (v := v) [.root (.node n)] [] s
  rw [Frame.root, step_enter _ _ _ _ _ _ n [] [] s rfl] at hstep
  have hlead := hstep.trans ((leads_of_walk v).1 _ _ _ _ _ h _ _ (List.cons_ne_nil _ _) rfl)
  cases o with
  | passed t s' =>
      have hroot := leads_step (v := v) [⟨none, 0, [], [⟨none, true, [], 1, [t]⟩]⟩] [] s'
      rw [step_root _ _ _ _ rfl] at hroot
      exact hlead.trans hroot
  | halted t s' =>
      have hroot : unwind [⟨none, 0, [], [⟨none, true, [], 1, [t]⟩]⟩] = t := by
        rw [unwind]
        rfl
      rw [Outcome.result, id, ← hroot]
      exact hlead
  | failed e s' => exact hlead

/-- The machine leads from a sequence at the root to the result of the recursion. -/
theorem leads_root_sequence {ns : List Node} {s : σ} {o : Outcome (List Node) σ ε}
    (h : v.walkSequence [] [] 0 ns s = some o) :
    Leads v (.running [.root (.sequence ns)] [] s) (.ended (o.result Tree.sequence)) := by
  have hslot := (leads_of_walk v).2.2.2 _ _ _ _ _ _ h ⟨none, false, ns, 0, []⟩ rfl rfl rfl
  rw [Outcome.map_finished_nil] at hslot
  obtain ⟨c, hsingle, hfills, hlead⟩ := hslot ⟨none, 0, [], []⟩ [] [] [] rfl rfl
  have hclose : ∀ done slots, done ++ slots = [c] →
      Frame.closeRoot ⟨none, 0, done, slots⟩ = .sequence c.nodes := by
    intro done slots hc
    rw [Frame.closeRoot, hc]
    simp [hsingle]
  cases o with
  | passed ms s' =>
      obtain ⟨hwaiting, rfl⟩ := hfills
      have hroot := leads_step (v := v) [⟨none, 0, [], [c]⟩] [] s'
      rw [step_root _ _ _ _ hwaiting, hclose _ _ rfl] at hroot
      exact hlead.trans hroot
  | halted ms s' =>
      obtain rfl : c.nodes = ms := hfills
      rw [Outcome.resumeSlot, unwind, hclose _ _ rfl] at hlead
      exact hlead
  | failed e s' => exact hlead

/-- The machine has the results of the recursion. -/
theorem exists_traverse_iff (v : Visitor σ ε) (t : Tree) (s : σ) (r : Result σ ε) :
    (∃ fuel, t.traverse v fuel s = some r) ↔ t.walk v s = some r := by
  simp only [Tree.traverse, run_eq_some_iff]
  cases t with
  | node n =>
      apply exists_endsIn_iff (fun o ho => leads_root_node ho)
      intro m r' h
      obtain ⟨j, _, hends⟩ := exists_endsIn_enter (f := ⟨none, 0, [], []⟩) rfl h
      exact recurses v j _ _ _ n s r' (List.cons_ne_nil _ _) hends
  | sequence ns =>
      apply exists_endsIn_iff (fun o ho => leads_root_sequence ho)
      intro m r' h
      exact exists_walkSequence (fun k _ => recurses v k) ns ⟨none, false, ns, 0, []⟩
        ⟨none, 0, [], []⟩ [] [] [] s r' m (Nat.le_refl _) rfl rfl h

end Traversal

open Traversal

/-- **Machine and recursion agree.** The machine ends with a result, given fuel enough, exactly when the
recursion ends with it: the same tree and state of the visitor, or the same failure. They also make
the same callbacks at the same nodes in the same order: what holds of a visitor holds of the visitor
that keeps a record of its callbacks, and keeping it changes nothing else. -/
theorem traverse_iff_walk {σ ε : Type} (v : Visitor σ ε) (t : Tree) (s : σ) :
    (∀ r, (∃ fuel, t.traverse v fuel s = some r) ↔ t.walk v s = some r) ∧
    (∀ r, (∃ fuel, t.traverse v.logged fuel (s, []) = some r) ↔
      t.walk v.logged (s, []) = some r) ∧
    (∀ fuel, (t.traverse v.logged fuel (s, [])).map (Result.mapState Prod.fst)
      = t.traverse v fuel s) :=
  ⟨exists_traverse_iff v t s, exists_traverse_iff v.logged t (s, []),
    fun fuel => run_logged fuel [.root t] [] (s, [])⟩

end SpecDoc
