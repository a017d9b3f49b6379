import Mathlib.Data.List.Nodup
import Mathlib.Data.List.Pairwise
import SpecDoc.Proofs.Descendants
import SpecDoc.Traversal

/-!
# Places and sites

Every node of a tree has its path: the keys on the way to it. The *places* of a node are its children with
their keys, the *sites* of a tree are all its nodes with their paths, each before those below it.

* `Node.places`, `Tree.places`; ways through two places of a node do not meet (`pairwise_places`);
* `Node.sites`, `Tree.sites`; `Tree.map_sites` lists their nodes;
* `Tree.nodup_sites`: no two sites have the same path;
* `Tree.mem_sites_of_le`: the sites below a site are those whose paths go on from its path.
-/

namespace SpecDoc

/-! ## Places of children -/

/-- The nodes of a slot, each with the keys that lead to it: the name of the slot, and in a sequence the
position in it. -/
def Slot.places (s : Slot) : List (List Key × Node) :=
  s.nodes.zipIdx.map fun p => (.field s.name :: if s.isOne then [] else [.index p.2], p.1)

/-- The nodes right below a node, each with the keys that lead to it. -/
def Node.places (n : Node) : List (List Key × Node) := n.slots.flatMap Slot.places

/-- The roots of a tree, each with the keys that lead to it: none for a single one, and the position in a
sequence. -/
def Tree.places : Tree → List (List Key × Node)
  | .node n => [([], n)]
  | .sequence ns => ns.zipIdx.map fun p => ([.index p.2], p.1)

/-- The nodes of a slot have their places. -/
theorem Slot.map_places (s : Slot) : s.places.map Prod.snd = s.nodes := by
  rw [places, List.map_map]
  exact List.zipIdx_map_fst 0 s.nodes

/-- The children of a node have their places. -/
theorem Node.map_places (n : Node) : n.places.map Prod.snd = n.children := by
  rw [places, List.map_flatMap]
  simp only [Slot.map_places]
  cases n <;> simp [slots, Slot.nodes, children]

/-- The roots of a tree have their places. -/
theorem Tree.map_places (t : Tree) : t.places.map Prod.snd = t.nodes := by
  cases t with
  | node n => rfl
  | sequence ns =>
      rw [places, List.map_map]
      exact List.zipIdx_map_fst 0 ns

/-- What stands in a place is a child. -/
theorem Node.mem_children_of_mem_places {n : Node} {p : List Key × Node} (hp : p ∈ n.places) :
    p.2 ∈ n.children := by
  rw [← n.map_places]
  exact List.mem_map_of_mem hp

/-- A key at least leads to the place of a child. -/
theorem Node.keys_ne_nil {n : Node} {p : List Key × Node} (hp : p ∈ n.places) : p.1 ≠ [] := by
  obtain ⟨s, -, hp⟩ := List.mem_flatMap.1 hp
  obtain ⟨q, -, rfl⟩ := List.mem_map.1 hp
  exact List.cons_ne_nil _ _

/-! ## Places are apart -/

/-- Whether no path goes on from both of two paths. -/
def Apart (a b : List Key) : Prop := ∀ l, a <+: l → ¬ b <+: l

/-- Two paths are apart in either order. -/
theorem Apart.symm {a b : List Key} (h : Apart a b) : Apart b a := fun l hb ha => h l ha hb

/-- Paths with different first keys are apart. -/
theorem apart_of_ne {key key' : Key} (h : key ≠ key') (a b : List Key) :
    Apart (key :: a) (key' :: b) := by
  rintro l ⟨l', rfl⟩ hb
  exact h (List.cons_prefix_cons.1 hb).1.symm

/-- Paths are apart behind a first key. -/
theorem Apart.cons {a b : List Key} (h : Apart a b) (key : Key) : Apart (key :: a) (key :: b) := by
  rintro l ⟨l', rfl⟩ hb
  exact h _ (List.prefix_append a l') (List.cons_prefix_cons.1 hb).2

/-- Different positions are apart. -/
theorem pairwise_zipIdx (ns : List Node) :
    ns.zipIdx.Pairwise fun p q => Apart [.index p.2] [.index q.2] := by
  have hnodup : (ns.zipIdx.map Prod.snd).Nodup := by
    rw [List.zipIdx_map_snd]
    exact List.nodup_range'
  refine (List.pairwise_map.1 hnodup).imp fun hne => apart_of_ne ?_ _ _
  intro h
  exact hne (Key.index.inj h)

/-- The places of a slot are apart. -/
theorem Slot.pairwise_places (s : Slot) : s.places.Pairwise fun p q => Apart p.1 q.1 := by
  cases s with
  | one name node => cases node <;> simp [places, nodes]
  | sequence name ns =>
      exact List.pairwise_map.2 ((pairwise_zipIdx ns).imp fun h => h.cons (.field name))

/-- The places of a node are apart. -/
theorem Node.pairwise_places (n : Node) : n.places.Pairwise fun p q => Apart p.1 q.1 := by
  have hne : ∀ r : Rule, r.headName ≠ r.bodyName := by
    rintro (_ | _ | _) <;> simp [Rule.headName, Rule.bodyName]
  cases n with
  | leaf l span => exact List.Pairwise.nil
  | group g span contents =>
      rw [places, slots, List.flatMap_singleton]
      exact Slot.pairwise_places _
  | rule r span head body =>
      rw [places, slots, List.flatMap_cons, List.flatMap_singleton, List.pairwise_append]
      refine ⟨Slot.pairwise_places _, Slot.pairwise_places _, fun p hp q hq => ?_⟩
      obtain ⟨p', -, rfl⟩ := List.mem_map.1 hp
      obtain ⟨q', -, rfl⟩ := List.mem_map.1 hq
      exact apart_of_ne (fun h => hne r (Key.field.inj h)) _ _

/-- The places of the roots are apart. -/
theorem Tree.pairwise_places (t : Tree) : t.places.Pairwise fun p q => Apart p.1 q.1 := by
  cases t with
  | node n => exact List.pairwise_singleton _ _
  | sequence ns => exact List.pairwise_map.2 (pairwise_zipIdx ns)

/-! ## Sites -/

namespace Node

mutual

/-- A node at the end of a path, followed by the nodes below it, each with its path. -/
def sites (path : List Key) : Node → List (List Key × Node)
  | .leaf l span => [(path, .leaf l span)]
  | .group g span contents =>
    (path, .group g span contents) :: sitesFrom (path ++ [.field g.slotName]) 0 contents
  | .rule r span head body =>
    (path, .rule r span head body) :: (sitesHead (path ++ [.field r.headName]) head
      ++ sitesFrom (path ++ [.field r.bodyName]) 0 body)

/-- The nodes of a sequence, each followed by the nodes below it. The first has the given position. -/
def sitesFrom (path : List Key) (position : Nat) : List Node → List (List Key × Node)
  | [] => []
  | n :: ns => n.sites (path ++ [.index position]) ++ sitesFrom path (position + 1) ns

/-- A head, followed by the nodes below it. -/
def sitesHead (path : List Key) : Option Node → List (List Key × Node)
  | none => []
  | some n => n.sites path

end

end Node

/-- The sites in and below these places of a node at the end of a path. -/
def sitesOf (path : List Key) (ps : List (List Key × Node)) : List (List Key × Node) :=
  ps.flatMap fun p => p.2.sites (path ++ p.1)

/-- All nodes of a tree, each with its path. -/
def Tree.sites (t : Tree) : List (List Key × Node) := sitesOf [] t.places

/-- The sites in and below places are those in and below the first of them, and then those of the others. -/
theorem sitesOf_cons (path : List Key) (p : List Key × Node) (ps : List (List Key × Node)) :
    sitesOf path (p :: ps) = p.2.sites (path ++ p.1) ++ sitesOf path ps :=
  List.flatMap_cons

/-- The sites of a sequence are those in and below its places. -/
theorem Node.sitesFrom_eq (path keys : List Key) (position : Nat) (ns : List Node) :
    sitesFrom (path ++ keys) position ns
      = sitesOf path ((ns.zipIdx position).map fun p => (keys ++ [.index p.2], p.1)) := by
  induction ns generalizing position with
  | nil => rfl
  | cons n ns ih =>
      rw [sitesFrom, ih, List.zipIdx_cons, List.map_cons, sitesOf_cons, List.append_assoc]

/-- The sites in and below a node are its own and those of its places. -/
theorem Node.sites_eq (path : List Key) (n : Node) :
    n.sites path = (path, n) :: sitesOf path n.places := by
  cases n with
  | leaf l span => rfl
  | group g span contents =>
      rw [sites, sitesFrom_eq, places, slots, List.flatMap_singleton]
      rfl
  | rule r span head body =>
      have hhead : sitesHead (path ++ [.field r.headName]) head
          = sitesOf path (Slot.places (.one r.headName head)) := by
        cases head with
        | none => rfl
        | some n => exact (List.append_nil _).symm
      rw [sites, sitesFrom_eq, hhead, places, slots, List.flatMap_cons, List.flatMap_singleton]
      exact congrArg _ List.flatMap_append.symm

/-- Induction on a node: what holds of a node if it holds of its children holds of every node. -/
theorem Node.childrenInduction {motive : Node → Prop}
    (h : ∀ n : Node, (∀ m ∈ n.children, motive m) → motive n) (n : Node) : motive n := by
  have hforest : ∀ ns : List Node, ∀ m ∈ ns, motive m := by
    intro ns
    induction ns using forestInduction with
    | nil =>
        intro m hm
        cases hm
    | leaf l span ns hns =>
        refine List.forall_mem_cons.2 ⟨h _ fun m hm => ?_, hns⟩
        cases hm
    | group g span contents ns hcontents hns => exact List.forall_mem_cons.2 ⟨h _ hcontents, hns⟩
    | rule r span head body ns hhead hbody hns =>
        exact List.forall_mem_cons.2 ⟨h _ (List.forall_mem_append.2 ⟨hhead, hbody⟩), hns⟩
  exact hforest [n] n List.mem_cons_self

/-- The path of a site goes on from that of the node above. -/
theorem Node.prefix_of_mem_sites (n : Node) :
    ∀ {path : List Key} {x : List Key × Node}, x ∈ n.sites path → path <+: x.1 := by
  induction n using childrenInduction with
  | h n ih =>
      intro path x hx
      rw [sites_eq] at hx
      rcases List.mem_cons.1 hx with rfl | hx
      · exact List.prefix_refl path
      · obtain ⟨p, hp, hx⟩ := List.mem_flatMap.1 hx
        exact (List.prefix_append path p.1).trans (ih p.2 (mem_children_of_mem_places hp) hx)

/-! ## The nodes of the sites -/

/-- The nodes of a sequence are read one by one, each followed by those below it. -/
theorem Node.preorder_eq_flatMap (ns : List Node) :
    preorder ns = ns.flatMap fun n => n :: n.descendants := by
  induction ns with
  | nil => rw [preorder, List.flatMap_nil]
  | cons n ns ih => rw [preorder_cons, ih, List.flatMap_cons, descendants_eq, List.cons_append]

/-- The nodes at the sites in and below places are those of the places in pre-order. -/
theorem map_sitesOf {ps : List (List Key × Node)}
    (h : ∀ p ∈ ps, ∀ path, (p.2.sites path).map Prod.snd = p.2 :: p.2.descendants)
    (path : List Key) : (sitesOf path ps).map Prod.snd = Node.preorder (ps.map Prod.snd) := by
  rw [sitesOf, List.map_flatMap, Node.preorder_eq_flatMap, List.flatMap_map]
  exact List.flatMap_congr fun p hp => h p hp _

/-- The nodes of the sites in and below a node are the node and those below it. -/
theorem Node.map_sites (n : Node) :
    ∀ path, (n.sites path).map Prod.snd = n :: n.descendants := by
  induction n using childrenInduction with
  | h n ih =>
      intro path
      rw [sites_eq, List.map_cons, map_sitesOf (fun p hp => ih p.2 (mem_children_of_mem_places hp)),
        map_places, descendants_eq]

/-- The nodes of the sites of a tree are its nodes, each before those below it. -/
theorem Tree.map_sites (t : Tree) : t.sites.map Prod.snd = Node.preorder t.nodes := by
  rw [sites, SpecDoc.map_sitesOf (fun p _ => p.2.map_sites), map_places]

/-! ## The paths of the sites -/

/-- A path does not go on from a longer one. -/
theorem eq_nil_of_append_le {path keys : List Key} (h : path ++ keys <+: path) : keys = [] := by
  have hlength := h.length_le
  rw [List.length_append] at hlength
  exact List.eq_nil_of_length_eq_zero (by omega)

/-- Only one of several places that are apart is on a path. -/
theorem eq_of_prefix_le {ps : List (List Key × Node)} (hps : ps.Pairwise fun p q => Apart p.1 q.1)
    {p q : List Key × Node} (hp : p ∈ ps) (hq : q ∈ ps) {path l : List Key}
    (hpl : path ++ p.1 <+: l) (hql : path ++ q.1 <+: l) : p = q := by
  obtain ⟨l', rfl⟩ := (List.prefix_append path p.1).trans hpl
  rw [List.prefix_append_right_inj] at hpl hql
  by_contra hne
  have : Std.Symm fun p q : List Key × Node => Apart p.1 q.1 := ⟨fun _ _ => Apart.symm⟩
  exact hps.forall hp hq hne l' hpl hql

/-- The paths in and below places that are apart are different. -/
theorem nodup_sitesOf {ps : List (List Key × Node)} (hps : ps.Pairwise fun p q => Apart p.1 q.1)
    (h : ∀ p ∈ ps, ∀ path, ((p.2.sites path).map Prod.fst).Nodup) (path : List Key) :
    ((sitesOf path ps).map Prod.fst).Nodup := by
  rw [sitesOf, List.map_flatMap, List.nodup_flatMap]
  refine ⟨fun p hp => h p hp _, hps.imp fun hapart => ?_⟩
  intro l hp hq
  obtain ⟨x, hx, rfl⟩ := List.mem_map.1 hp
  obtain ⟨y, hy, hxy⟩ := List.mem_map.1 hq
  obtain ⟨l, hl⟩ := Node.prefix_of_mem_sites _ hx
  have hyl := Node.prefix_of_mem_sites _ hy
  rw [hxy, ← hl, List.append_assoc, List.prefix_append_right_inj] at hyl
  exact hapart _ (List.prefix_append _ l) hyl

/-- The paths of the sites in and below a node are different. -/
theorem Node.nodup_sites (n : Node) : ∀ path, ((n.sites path).map Prod.fst).Nodup := by
  induction n using childrenInduction with
  | h n ih =>
      intro path
      rw [sites_eq, List.map_cons, List.nodup_cons]
      refine ⟨fun hpath => ?_, nodup_sitesOf n.pairwise_places
        (fun p hp => ih p.2 (mem_children_of_mem_places hp)) path⟩
      -- A path below the node is longer.
      obtain ⟨x, hx, hxpath⟩ := List.mem_map.1 hpath
      obtain ⟨p, hp, hx⟩ := List.mem_flatMap.1 hx
      have hle := prefix_of_mem_sites p.2 hx
      rw [hxpath] at hle
      exact keys_ne_nil hp (eq_nil_of_append_le hle)

/-- The paths of the sites of a tree are different. -/
theorem Tree.nodup_sites (t : Tree) : (t.sites.map Prod.fst).Nodup :=
  nodup_sitesOf t.pairwise_places (fun p _ => p.2.nodup_sites) []

/-- Of the sites in and below places that are apart, those with longer paths are below a site. -/
theorem mem_sitesOf_of_le {ps : List (List Key × Node)}
    (hps : ps.Pairwise fun p q => Apart p.1 q.1)
    (h : ∀ p ∈ ps, ∀ path x y, x ∈ p.2.sites path → y ∈ p.2.sites path → x.1 <+: y.1 →
      y ∈ x.2.sites x.1)
    {path : List Key} {x y : List Key × Node} (hx : x ∈ sitesOf path ps) (hy : y ∈ sitesOf path ps)
    (hxy : x.1 <+: y.1) : y ∈ x.2.sites x.1 := by
  obtain ⟨p, hp, hx⟩ := List.mem_flatMap.1 hx
  obtain ⟨q, hq, hy⟩ := List.mem_flatMap.1 hy
  obtain rfl := eq_of_prefix_le hps hp hq ((Node.prefix_of_mem_sites _ hx).trans hxy)
    (Node.prefix_of_mem_sites _ hy)
  exact h p hp _ x y hx hy hxy

/-- Of the sites in and below a node, those with longer paths are below a site. -/
theorem Node.mem_sites_of_le (n : Node) :
    ∀ path x y, x ∈ n.sites path → y ∈ n.sites path → x.1 <+: y.1 → y ∈ x.2.sites x.1 := by
  induction n using childrenInduction with
  | h n ih =>
      intro path x y hx hy hxy
      rw [sites_eq] at hx
      rcases List.mem_cons.1 hx with rfl | hx
      · exact hy
      rw [sites_eq] at hy
      rcases List.mem_cons.1 hy with rfl | hy
      · obtain ⟨p, hp, hx⟩ := List.mem_flatMap.1 hx
        have hle := (prefix_of_mem_sites p.2 hx).trans hxy
        exact absurd (eq_nil_of_append_le hle) (keys_ne_nil hp)
      · exact mem_sitesOf_of_le n.pairwise_places
          (fun p hp => ih p.2 (mem_children_of_mem_places hp)) hx hy hxy

/-- The sites below a site are those whose paths go on from its path. -/
theorem Tree.mem_sites_of_le {t : Tree} {x y : List Key × Node} (hx : x ∈ t.sites)
    (hy : y ∈ t.sites) (hxy : x.1 <+: y.1) : y ∈ x.2.sites x.1 :=
  mem_sitesOf_of_le t.pairwise_places (fun p _ => p.2.mem_sites_of_le) hx hy hxy

/-- A site has those sites of the tree below it whose paths are longer than its own and go on from it. -/
theorem Tree.mem_sitesOf_places_iff {t : Tree} {path : List Key} {n : Node} (hn : (path, n) ∈ t.sites)
    {x : List Key × Node} (hx : x ∈ t.sites) :
    x ∈ sitesOf path n.places ↔ path <+: x.1 ∧ path ≠ x.1 := by
  constructor
  · intro hbelow
    obtain ⟨p, hp, hbelow⟩ := List.mem_flatMap.1 hbelow
    have hle := Node.prefix_of_mem_sites p.2 hbelow
    refine ⟨(List.prefix_append path p.1).trans hle, fun heq => ?_⟩
    rw [← heq] at hle
    exact Node.keys_ne_nil hp (eq_nil_of_append_le hle)
  · rintro ⟨hle, hne⟩
    have hsites := Tree.mem_sites_of_le hn hx hle
    rw [Node.sites_eq] at hsites
    refine (List.mem_cons.1 hsites).resolve_left fun heq => hne ?_
    rw [heq]

end SpecDoc
