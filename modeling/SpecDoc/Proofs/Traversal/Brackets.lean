import SpecDoc.Proofs.Traversal.Record
import SpecDoc.Proofs.Traversal.Sites

/-!
# Callbacks as brackets

In every traversal the callbacks are nested like brackets: a node is left after all that was entered below
it, in the place where it was entered. What the visitor is told about a place can be read off the callbacks
before it.

* `standing` are the nodes that were gone into and not yet left, as the record shows them;
* `Follows` says which callbacks may come next, and what the visitor is told then;
* `Mirrors` relates the stack of the machine to what stands open;
* `bracketed_after`: in every traversal each callback follows on those before it.
-/

namespace SpecDoc

/-! ## What stands open -/

/-- A node without its children has none. -/
theorem Node.children_shell (n : Node) : n.shell.children = [] := by
  cases n <;> rfl

/-- A node that was gone into and not yet left: what the visitor was told when it entered it, the node as
the walk went into it, and how many of its children were entered since. -/
structure Opening where
  context : Context
  node : Node
  entered : ℕ

/-- How far a traversal has come: what stands open, the innermost first, and how many of the roots were
entered. -/
structure Standing where
  openings : List Opening
  roots : ℕ

/-- Whether a place lies within the openings `os`: the nodes around it are those that were gone into, from the root
and without their children, and the parent is the innermost of them. -/
structure Context.IsWithin (os : List Opening) (c : Context) : Prop where
  ancestors : c.ancestors = (os.map fun o => o.node.shell).reverse
  parent : c.parent? = os.head?.map fun o => o.node.shell
  children : ∀ a ∈ c.ancestors, a.children = []

namespace Standing

/-- One more child of the innermost opening is entered, or one more root. -/
def count (p : Standing) : Standing :=
  match p.openings with
  | [] => { p with roots := p.roots + 1 }
  | o :: os => { p with openings := { o with entered := o.entered + 1 } :: os }

/-- What an exchange makes of what stands open. -/
def next {ε : Type} (p : Standing) (x : Exchange ε) : Standing :=
  match x.callback with
  | .left _ _ => { p with openings := p.openings.tail }
  | .entered c _ =>
    match x.below? with
    | none => p.count
    | some m => { p.count with openings := ⟨c, m, 0⟩ :: p.count.openings }

/-- The way to the innermost opening. -/
def path (p : Standing) : List Key := (p.openings.head?.map fun o => o.context.path).getD []

/-- The child that is to be entered next, with its keys: of the children that the innermost opening had
when it was gone into, the first that was not entered since. -/
def child? (t : Tree) (p : Standing) : Option (List Key × Node) :=
  match p.openings with
  | [] => t.places[p.roots]?
  | o :: _ => o.node.places[o.entered]?

end Standing

/-- How far a traversal has come with a record, the latest exchange first. -/
def standing {ε : Type} : List (Exchange ε) → Standing
  | [] => ⟨[], 0⟩
  | x :: record => (standing record).next x

/-- Whether an exchange may come next in the traversal of a tree. A node is entered if it is the next child
of the innermost opening, and at its place there. If there is none, the innermost opening is left, and the
visitor is told what it was told at its entrance. -/
inductive Follows {ε : Type} (t : Tree) (p : Standing) : Exchange ε → Prop where
  | entered {c : Context} {n m : Node} {answer : Except ε Action} {keys : List Key}
      (hchild : p.child? t = some (keys, n)) (hpath : c.path = p.path ++ keys)
      (hwithin : c.IsWithin p.openings) : Follows t p ⟨.entered c n, m, answer⟩
  | left {n m : Node} {answer : Except ε Action} {o : Opening} {os : List Opening}
      (hopenings : p.openings = o :: os) (hchild : p.child? t = none)
      (hwithin : o.context.IsWithin os) : Follows t p ⟨.left o.context n, m, answer⟩

/-- Whether each exchange of a record follows on those before it. -/
def Bracketed {ε : Type} (t : Tree) (record : List (Exchange ε)) : Prop :=
  ∀ x earlier, x :: earlier <:+ record → Follows t (standing earlier) x

/-- A record is bracketed up to its latest exchange, and this follows on the others. -/
theorem bracketed_cons {ε : Type} {t : Tree} {x : Exchange ε} {record : List (Exchange ε)} :
    Bracketed t (x :: record) ↔ Follows t (standing record) x ∧ Bracketed t record := by
  simp only [Bracketed, List.suffix_cons_iff, List.cons.injEq]
  constructor
  · intro h
    exact ⟨h x record (.inl ⟨rfl, rfl⟩), fun y earlier hy => h y earlier (.inr hy)⟩
  · rintro ⟨hx, h⟩ y earlier (⟨rfl, rfl⟩ | hy)
    · exact hx
    · exact h y earlier hy

namespace Traversal

/-! ## Children that wait -/

/-- The children of a slot that wait, each with its keys. -/
def Cursor.places (c : Cursor) : List (List Key × Node) :=
  (c.waiting.zipIdx c.position).map fun p =>
    ((c.field.map Key.field).toList ++ if c.single then [] else [.index p.2], p.1)

/-- The children of a frame that wait, each with its keys. -/
def Frame.places (f : Frame) : List (List Key × Node) := f.slots.flatMap Cursor.places

namespace Cursor

/-- The first child that waits has the first place, and the others have the places behind it. -/
theorem places_of_waiting {c : Cursor} {n : Node} {ns : List Node} (h : c.waiting = n :: ns) :
    c.places = (c.keys, n) :: places { c with waiting := ns, position := c.position + 1 } := by
  simp [places, keys, h]

/-- At first all nodes of a slot wait. -/
theorem places_ofSlot (s : Slot) : (ofSlot s).places = s.places := rfl

end Cursor

namespace Frame

variable {done done' slots slots' : List Cursor} {n : Node} {keys : List Key}

/-- The child that is visited next is the first that waits. -/
theorem places_of_nextChild_some
    (h : nextChild done slots = (done', some (n, keys), slots')) :
    slots.flatMap Cursor.places = (keys, n) :: slots'.flatMap Cursor.places := by
  fun_induction nextChild done slots with
  | case1 => cases h
  | case2 done c cs hwaiting ih =>
      have hc : c.places = [] := by simp [Cursor.places, hwaiting]
      rw [List.flatMap_cons, hc, List.nil_append, ih h]
  | case3 done c cs n ns hwaiting =>
      cases h
      rw [List.flatMap_cons, Cursor.places_of_waiting hwaiting, List.flatMap_cons, List.cons_append]

/-- If there is no next child, none waits. -/
theorem places_of_nextChild_none (h : nextChild done slots = (done', none, slots')) :
    slots.flatMap Cursor.places = [] := by
  fun_induction nextChild done slots with
  | case1 => rfl
  | case2 done c cs hwaiting ih =>
      have hc : c.places = [] := by simp [Cursor.places, hwaiting]
      rw [List.flatMap_cons, hc, List.nil_append, ih h]
  | case3 => cases h

/-- At first all roots of a tree wait. -/
theorem places_root (t : Tree) : (root t).places = t.places := by
  cases t <;> simp [root, places, Cursor.places, Tree.places]

/-- At first all children of a node wait. -/
theorem places_ofNode (keys : ℕ) (n : Node) : (ofNode keys n).places = n.places := by
  simp only [ofNode, places, Node.places, List.flatMap_map, Cursor.places_ofSlot]

/-- What became of a child is no child that waits. -/
theorem places_record (f : Frame) (t : Tree) : (f.record t).places = f.places := by
  obtain ⟨node, keys, done, slots⟩ := f
  cases slots <;> rfl

end Frame

/-! ## The stack and what stands open -/

/-- The stack holds one frame for each opening and, below them, that of the roots. In each frame those
children wait that were not entered yet. The path is that of the innermost opening; without the keys of
its frame it is that of the next one, and so on, and at the roots nothing is left of it. -/
inductive Mirrors (t : Tree) (roots : ℕ) : List Frame → List Key → List Opening → Prop where
  | root {f : Frame} {path : List Key} (hnode : f.node = none) (hpath : path = [])
      (hplaces : f.places = t.places.drop roots) : Mirrors t roots [f] path []
  | opening {f : Frame} {fs : List Frame} {path : List Key} {o : Opening} {os : List Opening}
      (hnode : f.node = some o.node.shell) (hpath : path = o.context.path)
      (hplaces : f.places = o.node.places.drop o.entered) (hwithin : o.context.IsWithin os)
      (hfs : Mirrors t roots fs (shorten path f.keys) os) : Mirrors t roots (f :: fs) path (o :: os)

/-- The first of the elements that are left stands where the others were dropped. -/
theorem getElem?_of_drop_eq_cons {α : Type} {l rest : List α} {a : α} {k : ℕ}
    (h : l.drop k = a :: rest) : l[k]? = some a ∧ rest = l.drop (k + 1) := by
  rw [← List.head?_drop, ← List.tail_drop, h]
  exact ⟨rfl, rfl⟩

/-- The paths to the frames of a stack, the innermost first. The path to a frame without the keys of the
frame is the path to the next one. -/
def ways : List Frame → List Key → List (List Key)
  | [], _ => []
  | f :: fs, path => path :: ways fs (shorten path f.keys)

namespace Mirrors

variable {t : Tree} {roots : ℕ} {stack : List Frame} {path : List Key} {os : List Opening}

/-- The nodes of the stack are those that stand open. -/
theorem ancestors_eq (h : Mirrors t roots stack path os) :
    ancestors stack = (os.map fun o => o.node.shell).reverse := by
  induction h with
  | root hnode _ _ => simp [ancestors, hnode]
  | opening hnode _ _ _ _ ih => simp [ancestors_cons, ih, hnode]

/-- The paths to the frames are those to the nodes that stand open, and the empty one to the roots. -/
theorem ways_eq (h : Mirrors t roots stack path os) :
    ways stack path = (os.map fun o => o.context.path) ++ [[]] := by
  induction h with
  | root hnode hpath hplaces =>
      subst hpath
      rfl
  | opening hnode hpath hplaces hwithin hfs ih =>
      rw [ways, ih, hpath]
      rfl

/-- A visitor is told of the openings that a stack mirrors, whatever the path. -/
theorem isWithin (h : Mirrors t roots stack path os) (path' : List Key) :
    Context.IsWithin os ⟨path', ancestors stack⟩ where
  ancestors := h.ancestors_eq
  parent := by
    rw [Context.parent?, h.ancestors_eq, List.getLast?_reverse, List.head?_map]
  children := by
    intro a ha
    rw [h.ancestors_eq, List.mem_reverse, List.mem_map] at ha
    obtain ⟨o, -, rfl⟩ := ha
    exact o.node.children_shell

/-- There is a frame below those of the openings. -/
theorem ne_nil (h : Mirrors t roots stack path os) : stack ≠ [] := by
  cases h <;> simp

/-- What became of a child does not change what stands open. -/
theorem settle (h : Mirrors t roots stack path os) (t' : Tree) :
    Mirrors t roots (settle stack t') path os := by
  have hrecord : ∀ f : Frame, (f.record t').node = f.node ∧ (f.record t').keys = f.keys := by
    rintro ⟨node, keys, done, _ | ⟨c, cs⟩⟩ <;> exact ⟨rfl, rfl⟩
  cases h with
  | @root f path hnode hpath hplaces =>
      refine .root ((hrecord f).1.trans hnode) hpath ?_
      rw [Frame.places_record, hplaces]
  | @opening f fs path o os hnode hpath hplaces hwithin hfs =>
      refine .opening ((hrecord f).1.trans hnode) hpath ?_ hwithin ?_
      · rw [Frame.places_record, hplaces]
      · rw [(hrecord f).2]
        exact hfs

/-- The child that the machine visits next is the one that is to be entered next, and without it the stack
mirrors what stands open when it is entered. -/
theorem take {p : Standing} {f : Frame} {fs : List Frame} {done slots : List Cursor} {n : Node}
    {keys : List Key} (h : Mirrors t p.roots (f :: fs) path p.openings)
    (hnext : Frame.nextChild f.done f.slots = (done, some (n, keys), slots)) :
    p.child? t = some (keys, n) ∧ path = p.path ∧
      Mirrors t p.count.roots ({ f with done, slots } :: fs) path p.count.openings := by
  obtain ⟨os, roots⟩ := p
  have hwaiting := Frame.places_of_nextChild_some hnext
  rw [← Frame.places] at hwaiting
  cases h with
  | root hnode hpath hplaces =>
      rw [hplaces] at hwaiting
      obtain ⟨hchild, hrest⟩ := getElem?_of_drop_eq_cons hwaiting
      exact ⟨hchild, hpath, .root hnode hpath hrest⟩
  | opening hnode hpath hplaces hwithin hfs =>
      rw [hplaces] at hwaiting
      obtain ⟨hchild, hrest⟩ := getElem?_of_drop_eq_cons hwaiting
      exact ⟨hchild, hpath, .opening hnode hpath hrest hwithin hfs⟩

end Mirrors

/-! ## What a step keeps -/

variable {σ ε : Type} {v : Visitor σ ε} {t : Tree} {path : List Key} {stack : List Frame} {n : Node}
  {s : σ} {record : List (Exchange ε)} {o : Opening} {os : List Opening} {roots k : ℕ}

/-- Whether a list may be the record of a traversal that is not over: its exchanges are those of the visitor,
each follows on those before it, and none stops the walk. -/
structure IsRecord (v : Visitor σ ε) (t : Tree) (record : List (Exchange ε)) : Prop where
  exchanges : ∀ x ∈ record, ∃ s, x = v.exchange x.callback s
  bracketed : Bracketed t record
  goesOn : ∀ x ∈ record, x.stops = false

/-- One more exchange that does not stop the walk. -/
theorem IsRecord.cons {callback : Callback} (h : IsRecord v t record)
    (hx : Follows t (standing record) (v.exchange callback s))
    (hstops : (v.exchange callback s).stops = false) :
    IsRecord v t (v.exchange callback s :: record) where
  exchanges := List.forall_mem_cons.2 ⟨⟨s, by cases callback <;> rfl⟩, h.exchanges⟩
  bracketed := bracketed_cons.2 ⟨hx, h.bracketed⟩
  goesOn := List.forall_mem_cons.2 ⟨hstops, h.goesOn⟩

/-- The latest exchange follows on the others, which are a record, too. -/
theorem IsRecord.of_cons {x : Exchange ε} (h : IsRecord v t (x :: record)) :
    Follows t (standing record) x ∧ (∃ s, x = v.exchange x.callback s) ∧ x.stops = false ∧
      IsRecord v t record := by
  obtain ⟨hx, hexchanges⟩ := List.forall_mem_cons.1 h.exchanges
  obtain ⟨hfollows, hbracketed⟩ := bracketed_cons.1 h.bracketed
  obtain ⟨hstops, hgoesOn⟩ := List.forall_mem_cons.1 h.goesOn
  exact ⟨hfollows, hx, hstops, hexchanges, hbracketed, hgoesOn⟩

/-- Whether a traversal has ended as it should with a record: nothing stands open and no root is left, or the
latest exchange has stopped it. If it was the visitor that stopped it, there is a tree. -/
inductive IsEnd (v : Visitor σ ε) (t : Tree) (r : Result (σ × List (Exchange ε)) ε) : Prop where
  | completed {t' : Tree} {s : σ} {record : List (Exchange ε)} (hr : r = .finished t' (s, record))
      (hrecord : IsRecord v t record) (hopenings : (standing record).openings = [])
      (hroots : (standing record).child? t = none) : IsEnd v t r
  | stopped {callback : Callback} {s : σ} {record : List (Exchange ε)}
      (hr : r.state.2 = v.exchange callback s :: record) (hrecord : IsRecord v t record)
      (hx : Follows t (standing record) (v.exchange callback s))
      (hstops : (v.exchange callback s).stops = true)
      (hhalts : (v.exchange callback s).halts = true → ∃ t' s', r = .finished t' s') : IsEnd v t r

/-- The record of a traversal that has ended is bracketed. -/
theorem IsEnd.bracketed {r : Result (σ × List (Exchange ε)) ε} (h : IsEnd v t r) :
    Bracketed t r.state.2 := by
  cases h with
  | completed hr hrecord hopenings hroots =>
      rw [hr]
      exact hrecord.bracketed
  | stopped hr hrecord hx hstops hhalts =>
      rw [hr]
      exact bracketed_cons.2 ⟨hx, hrecord.bracketed⟩

/-- A traversal that no exchange has stopped was completed. -/
theorem IsEnd.openings_eq_nil {r : Result (σ × List (Exchange ε)) ε} (h : IsEnd v t r)
    (hgoesOn : ∀ x ∈ r.state.2, x.stops = false) : (standing r.state.2).openings = [] := by
  cases h with
  | completed hr hrecord hopenings hroots =>
      rw [hr]
      exact hopenings
  | @stopped callback s _ hr hrecord hx hstops hhalts =>
      have := hgoesOn (v.exchange callback s) (by simp [hr])
      rw [hstops] at this
      cases this

/-- What holds of the machine and its record after `k` steps: as long as it runs, its stack and its path
mirror what stands open, and there was an exchange in each step. -/
inductive Progress.Keeps (v : Visitor σ ε) (t : Tree) (k : ℕ) :
    Progress (σ × List (Exchange ε)) ε → Prop where
  | running {stack : List Frame} {path : List Key} {s : σ} {record : List (Exchange ε)}
      (hrecord : IsRecord v t record)
      (hstack : Mirrors t (standing record).roots stack path (standing record).openings)
      (hlength : k ≤ record.length) : Keeps v t k (.running stack path (s, record))
  | ended {r : Result (σ × List (Exchange ε)) ε} (hend : IsEnd v t r) : Keeps v t k (.ended r)

namespace Progress

/-- What a machine keeps for some steps it keeps for fewer. -/
theorem Keeps.mono {p : Progress (σ × List (Exchange ε)) ε} {j : ℕ} (h : p.Keeps v t k) (hj : j ≤ k) :
    p.Keeps v t j := by
  cases h with
  | running hrecord hstack hlength => exact .running hrecord hstack (Nat.le_trans hj hlength)
  | ended hend => exact .ended hend

/-- The machine goes on after an exchange that does not lead below a node. -/
theorem keeps_of_settles {callback : Callback} {p : Progress (σ × List (Exchange ε)) ε}
    (h : Settles (v.exchange callback s) record stack path p) (hrecord : IsRecord v t record)
    (hx : Follows t (standing record) (v.exchange callback s))
    (hstack : (v.exchange callback s).below? = none →
      let p := standing (v.exchange callback s :: record)
      Mirrors t p.roots stack path p.openings) : p.Keeps v t (record.length + 1) := by
  cases h with
  | settled hbelow hstops =>
      exact .running (hrecord.cons hx hstops) ((hstack hbelow).settle _) (Nat.le_refl _)
  | halted hhalts =>
      exact .ended (.stopped rfl hrecord hx (Exchange.stops_of_halts hhalts) fun _ => ⟨_, _, rfl⟩)
  | failed _ hstops hhalts =>
      refine .ended (.stopped rfl hrecord hx hstops fun h => ?_)
      rw [hhalts] at h
      cases h

/-- Leaving the innermost opening. Without its keys the path is the one to the frame around it. -/
theorem keeps_leaveNode {keys : ℕ} (hrecord : IsRecord v t record)
    (hstanding : standing record = ⟨o :: os, roots⟩) (hchild : o.node.places[o.entered]? = none)
    (hstack : Mirrors t roots stack (shorten path keys) os)
    (hcontext : o.context = ⟨path, ancestors stack⟩) (n : Node) (s : σ) :
    (leaveNode v.recorded path keys stack n (s, record)).Keeps v t (record.length + 1) := by
  have hsettles := leaveNode_recorded_cases v path keys stack n s record
  have hwithin := hstack.isWithin path
  rw [← hcontext] at hsettles hwithin
  refine keeps_of_settles hsettles hrecord (.left (by rw [hstanding]) ?_ hwithin) fun _ => ?_
  · rw [Standing.child?, hstanding]
    exact hchild
  · rw [standing, hstanding]
    exact hstack

/-- The brackets are kept when the machine goes below a node that was entered last. -/
theorem keeps_descend {keys : ℕ} (hrecord : IsRecord v t record)
    (hstanding : standing record = ⟨⟨⟨path, ancestors stack⟩, n, 0⟩ :: os, roots⟩)
    (hstack : Mirrors t roots stack (shorten path keys) os) (s : σ) :
    (descend v.recorded path keys stack n (s, record)).Keeps v t record.length := by
  have hopening : Mirrors t (standing record).roots (.ofNode keys n :: stack) path
      (standing record).openings := by
    rw [hstanding]
    exact .opening rfl rfl (Frame.places_ofNode keys n) (hstack.isWithin path) hstack
  cases n with
  | leaf l span =>
      exact (keeps_leaveNode hrecord hstanding rfl hstack rfl _ s).mono (Nat.le_succ _)
  | group g span contents => exact .running hrecord hopening (Nat.le_refl _)
  | rule r span head body => exact .running hrecord hopening (Nat.le_refl _)

/-- Entering the next child, whose keys were put at the end of the path. The stack is the one from which the
child was taken. -/
theorem keeps_enterNode {keys : List Key} (hrecord : IsRecord v t record)
    (hchild : (standing record).child? t = some (keys, n)) (hpath : path = (standing record).path)
    (hstack : Mirrors t (standing record).count.roots stack path (standing record).count.openings)
    (hwithin : Context.IsWithin (standing record).openings ⟨path ++ keys, ancestors stack⟩) (s : σ) :
    (enterNode v.recorded (path ++ keys) keys.length stack n (s, record)).Keeps v t
      (record.length + 1) := by
  have hx : Follows t (standing record)
      (v.exchange (.entered ⟨path ++ keys, ancestors stack⟩ n) s) :=
    .entered hchild (by rw [hpath]) hwithin
  -- The keys are dropped again, whether the walk goes below the child or not.
  rw [← shorten_append path keys] at hstack
  rcases enterNode_recorded_cases v (path ++ keys) keys.length stack n s record with
    hsettles | ⟨n', s', hbelow, hstops, heq⟩
  · refine keeps_of_settles hsettles hrecord hx fun hbelow => ?_
    rw [standing, Standing.next, hbelow]
    exact hstack
  · rw [heq]
    refine keeps_descend (hrecord.cons hx hstops) ?_ hstack s'
    rw [standing, Standing.next, hbelow]
    rfl

/-- A step keeps the brackets, and there is one more exchange if the machine runs on. -/
theorem keeps_step (hrecord : IsRecord v t record)
    (hstack : Mirrors t (standing record).roots stack path (standing record).openings) (s : σ) :
    (step v.recorded stack path (s, record)).Keeps v t (record.length + 1) := by
  obtain ⟨f, fs, rfl⟩ := List.exists_cons_of_ne_nil hstack.ne_nil
  rw [step]
  rcases hnext : Frame.nextChild f.done f.slots with ⟨done, _ | ⟨n, keys⟩, slots⟩
  · have hplaces := Frame.places_of_nextChild_none hnext
    rw [← Frame.places] at hplaces
    generalize hstanding : standing record = p at hstack
    obtain ⟨os, roots⟩ := p
    cases hstack with
    | root hnode hpath hdrop =>
        -- No root is left, and nothing stands open.
        rw [hdrop] at hplaces
        simp only [hnode]
        refine .ended (.completed rfl hrecord (by rw [hstanding]) ?_)
        rw [Standing.child?, hstanding, List.getElem?_eq_none_iff]
        exact List.drop_eq_nil_iff.1 hplaces
    | @opening f fs path o os hnode hpath hdrop hwithin hfs =>
        -- All children were visited, and the node is left.
        rw [hdrop] at hplaces
        obtain ⟨g, gs, rfl⟩ := List.exists_cons_of_ne_nil hfs.ne_nil
        have hcontext : o.context = ⟨path, ancestors (g :: gs)⟩ := by
          rw [hpath, hfs.ancestors_eq, ← hwithin.ancestors]
        have hchild := List.getElem?_eq_none_iff.2 (List.drop_eq_nil_iff.1 hplaces)
        simp only [hnode]
        exact keeps_leaveNode hrecord hstanding hchild hfs hcontext _ s
  · obtain ⟨hchild, hpath, htaken⟩ := hstack.take hnext
    exact keeps_enterNode hrecord hchild hpath htaken (hstack.isWithin _) s

end Progress

/-- At first nothing stands open, and no root was entered. -/
theorem mirrors_root (t : Tree) : Mirrors t 0 [.root t] [] [] := by
  cases t with
  | node n => exact .root rfl rfl (Frame.places_root (.node n))
  | sequence ns => exact .root rfl rfl (Frame.places_root (.sequence ns))

/-- The brackets are kept by every machine that traverses a tree. -/
theorem keeps_after (v : Visitor σ ε) (t : Tree) (s : σ) (k : ℕ) :
    (t.after v.recorded (s, []) k).Keeps v t k := by
  induction k with
  | zero => exact .running ⟨by simp, by simp [Bracketed], by simp⟩ (mirrors_root t) (Nat.le_refl 0)
  | succ k ih =>
      rw [Tree.after, Function.iterate_succ_apply', ← Tree.after]
      generalize t.after v.recorded (s, []) k = p at ih
      cases ih with
      | running hrecord hstack hlength =>
          exact (Progress.keeps_step hrecord hstack _).mono (Nat.succ_le_succ hlength)
      | ended hend => exact .ended hend

end Traversal

open Traversal

/-- **Callbacks are nested like brackets.** At every moment of every traversal, whatever the visitor does,
each callback of the record follows on those before it. A node is entered at its place: its path is that
of the innermost opening, followed by the keys that the child had there when the walk went below; and the
nodes around it are those that stand open. A node is left with the path and the nodes around it that were
there when it was entered, the innermost opening first. As long as the traversal runs, its one path is
right for all frames: it leads to the innermost opening, without the keys of that to the next one, and so
on down to the roots, where nothing is left of it. Nothing stands open when a traversal has ended that no
exchange has stopped. -/
theorem bracketed_after {σ ε : Type} (v : Visitor σ ε) (t : Tree) (s : σ) (k : ℕ) :
    Bracketed t (t.after v.recorded (s, []) k).state.2 ∧
      (∀ stack path s' record, t.after v.recorded (s, []) k = .running stack path (s', record) →
        ways stack path = (standing record).openings.map (fun o => o.context.path) ++ [[]]) ∧
      ∀ r, t.after v.recorded (s, []) k = .ended r → (∀ x ∈ r.state.2, x.stops = false) →
        (standing r.state.2).openings = [] := by
  have hkeeps := keeps_after v t s k
  generalize t.after v.recorded (s, []) k = p at hkeeps
  cases hkeeps with
  | running hrecord hstack hlength =>
      refine ⟨hrecord.bracketed, fun stack path s' record h => ?_, fun r hr => ?_⟩
      · cases h
        exact hstack.ways_eq
      · cases hr
  | ended hend =>
      refine ⟨hend.bracketed, fun stack path s' record h => ?_, fun r hr hgoesOn => ?_⟩
      · cases h
      · cases hr
        exact hend.openings_eq_nil hgoesOn

/-- A list of two items. -/
def shoppingList : Tree :=
  .node (.group (.list false) none [.group .listItem none [.leaf (.text "milk") none],
    .group .listItem none [.leaf (.text "bread") none]])

/-- A visitor that deletes every item when it leaves it. -/
def Visitor.tickOff : Visitor Unit Empty where
  enter _ n s := ⟨n, s, .ok .proceed⟩
  leave _ n s :=
    match n with
    | .group .listItem _ _ => ⟨n, s, .ok .delete⟩
    | n => ⟨n, s, .ok .proceed⟩

/-- The second item is entered at its position in the list, although the first one is deleted by then. In the
end everything was left that was entered. -/
theorem bracketed_after_shoppingList :
    (∃ stack path s record, shoppingList.after Visitor.tickOff.recorded ((), []) 5
        = .running stack path (s, record) ∧
      ways stack path = [[.field "items", .index 1], [], []] ∧
      (standing record).openings.map (fun o => o.context.path) ++ [[]]
        = [[.field "items", .index 1], [], []]) ∧
    ∃ r, shoppingList.after Visitor.tickOff.recorded ((), []) 9 = .ended r ∧
      (∀ x ∈ r.state.2, x.stops = false) ∧ r.state.2.length = 10 ∧
        (standing r.state.2).openings = [] := by
  constructor
  · refine ⟨_, _, _, _, rfl, rfl, ?_⟩
    rw [← (bracketed_after Visitor.tickOff shoppingList () 5).2.1 _ _ _ _ rfl]
    rfl
  · have hstops : ∀ x ∈ (shoppingList.after Visitor.tickOff.recorded ((), []) 9).state.2,
        x.stops = false := by
      decide
    exact ⟨_, rfl, hstops, rfl, (bracketed_after Visitor.tickOff shoppingList () 9).2.2 _ rfl hstops⟩

end SpecDoc
