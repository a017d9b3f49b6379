import Mathlib.Data.List.Perm.Basic
import SpecDoc.Proofs.Traversal.Brackets
import SpecDoc.Proofs.Traversal.Idle

/-!
# What a traversal enters

A visitor that leaves alone what is below a node when it enters it is led through the tree as it was: the
nodes are entered in their order, except those below a node that was skipped or taken out, up to the moment
when the walk is stopped. What the visitor puts in the place of a node is not entered.

* `enteredSites` and `leftSites`: where callbacks were made, as the record shows it;
* `visible`: the sites that no exchange has hidden;
* `filter_sites_of_isRecord`: the visible sites are those that were entered and those that are ahead;
* `Covers` and `traverse_covers`: which sites are entered until the traversal ends, as it always does.
-/

namespace SpecDoc

open Traversal

variable {σ ε : Type}

/-! ## Sites in the record -/

namespace Exchange

/-- The site that is entered. -/
def entered? : Exchange ε → Option (List Key × Node)
  | ⟨.entered c n, _, _⟩ => some (c.path, n)
  | ⟨.left _ _, _, _⟩ => none

/-- The site that is left. -/
def left? : Exchange ε → Option (List Key × Node)
  | ⟨.entered _ _, _, _⟩ => none
  | ⟨.left c n, _, _⟩ => some (c.path, n)

/-- Whether a node is entered but the walk goes on elsewhere: it is skipped, deleted or replaced by a
sequence. -/
def prunes : Exchange ε → Bool
  | ⟨.entered _ _, _, .ok .skip⟩ => true
  | ⟨.entered _ _, _, .ok .delete⟩ => true
  | ⟨.entered _ _, _, .ok (.replace (.sequence _))⟩ => true
  | _ => false

/-- Whether a path goes on below the node of an exchange that prunes. -/
def hides (x : Exchange ε) (path : List Key) : Bool :=
  x.prunes && (x.callback.context.path.isPrefixOf path && x.callback.context.path != path)

/-- An exchange that stops the walk does not prune it. -/
theorem prunes_of_stops {x : Exchange ε} (h : x.stops = true) : x.prunes = false := by
  obtain ⟨_ | _, m, e | action⟩ := x
  · rfl
  · cases action with
    | halt => rfl
    | _ => cases h
  · rfl
  · rfl

/-- If the walk neither stops nor goes below a node, it prunes it. -/
theorem prunes_of_below? {c : Context} {n m : Node} {answer : Except ε Action}
    (hbelow : (⟨.entered c n, m, answer⟩ : Exchange ε).below? = none)
    (hstops : (⟨.entered c n, m, answer⟩ : Exchange ε).stops = false) :
    (⟨.entered c n, m, answer⟩ : Exchange ε).prunes = true := by
  cases answer with
  | error e => cases hstops
  | ok action =>
      cases action with
      | proceed => cases hbelow
      | halt => cases hstops
      | replace t =>
          cases t with
          | node m => cases hbelow
          | sequence ns => rfl
      | _ => rfl

/-- If the walk goes below a node, it does not prune it. -/
theorem not_prunes_of_below? {x : Exchange ε} {m : Node} (h : x.below? = some m) :
    x.prunes = false := by
  obtain ⟨_ | _, m', e | action⟩ := x
  · rfl
  · cases action with
    | replace t =>
        cases t with
        | node m' => rfl
        | sequence ns => cases h
    | proceed => rfl
    | _ => cases h
  · rfl
  · rfl

/-- An exchange that does not prune hides nothing. -/
theorem hides_of_prunes {x : Exchange ε} (h : x.prunes = false) (path : List Key) :
    x.hides path = false := by
  rw [hides, h, Bool.false_and]

end Exchange

/-- The sites that were entered, in order. -/
def enteredSites (record : List (Exchange ε)) : List (List Key × Node) :=
  record.reverse.filterMap Exchange.entered?

/-- The sites that were left, in order. -/
def leftSites (record : List (Exchange ε)) : List (List Key × Node) :=
  record.reverse.filterMap Exchange.left?

/-- Whether a site is below no node that was entered but not gone into. -/
def visible (record : List (Exchange ε)) (x : List Key × Node) : Bool :=
  record.all fun y => !y.hides x.1

/-- One more exchange may enter one more site. -/
theorem enteredSites_cons (x : Exchange ε) (record : List (Exchange ε)) :
    enteredSites (x :: record) = enteredSites record ++ x.entered?.toList := by
  rw [enteredSites, List.reverse_cons, List.filterMap_append]
  cases h : x.entered? <;> simp [enteredSites, h]

/-- One more exchange may leave one more site. -/
theorem leftSites_cons (x : Exchange ε) (record : List (Exchange ε)) :
    leftSites (x :: record) = leftSites record ++ x.left?.toList := by
  rw [leftSites, List.reverse_cons, List.filterMap_append]
  cases h : x.left? <;> simp [leftSites, h]

/-- After one more exchange those sites are visible that were and that it does not hide. -/
theorem filter_visible_cons (x : Exchange ε) (record : List (Exchange ε))
    (l : List (List Key × Node)) :
    l.filter (visible (x :: record)) = (l.filter (visible record)).filter fun p => !x.hides p.1 := by
  rw [List.filter_filter]
  rfl

/-- An exchange that does not prune changes nothing. -/
theorem filter_visible_of_prunes {x : Exchange ε} (h : x.prunes = false) (record : List (Exchange ε))
    (l : List (List Key × Node)) : l.filter (visible (x :: record)) = l.filter (visible record) := by
  rw [filter_visible_cons, List.filter_eq_self]
  intro p _
  rw [Exchange.hides_of_prunes h, Bool.not_false]

/-! ## Sites ahead -/

/-- The sites that are still ahead: those in and below the children that are to be entered, of the innermost
opening first. -/
def Standing.ahead (t : Tree) (p : Standing) : List (List Key × Node) :=
  p.openings.flatMap (fun o => sitesOf o.context.path (o.node.places.drop o.entered))
    ++ sitesOf [] (t.places.drop p.roots)

namespace Standing

variable {t : Tree} {p : Standing}

/-- The next child comes first, then what is below it. -/
theorem ahead_of_child?_eq_some {keys : List Key} {n : Node} (h : p.child? t = some (keys, n)) :
    p.ahead t
      = (p.path ++ keys, n) :: (sitesOf (p.path ++ keys) n.places ++ p.count.ahead t) := by
  obtain ⟨_ | ⟨o, os⟩, roots⟩ := p
  · have hdrop := List.drop_eq_getElem?_toList_append (l := t.places) (i := roots)
    rw [show t.places[roots]? = some (keys, n) from h, Option.toList_some, List.singleton_append]
      at hdrop
    rw [ahead, hdrop, sitesOf_cons, Node.sites_eq]
    rfl
  · have hdrop := List.drop_eq_getElem?_toList_append (l := o.node.places) (i := o.entered)
    rw [show o.node.places[o.entered]? = some (keys, n) from h, Option.toList_some,
      List.singleton_append] at hdrop
    rw [ahead, List.flatMap_cons, hdrop, sitesOf_cons, Node.sites_eq]
    simp [ahead, count, path]

/-- If there is no next child, what is ahead is outside of the innermost opening. -/
theorem ahead_of_child?_eq_none (h : p.child? t = none) :
    p.ahead t = match p.openings with
      | [] => []
      | _ :: os => ahead t ⟨os, p.roots⟩ := by
  obtain ⟨_ | ⟨o, os⟩, roots⟩ := p
  · rw [ahead, List.drop_eq_nil_iff.2 (List.getElem?_eq_none_iff.1 h)]
    rfl
  · rw [ahead, List.flatMap_cons, List.drop_eq_nil_iff.2 (List.getElem?_eq_none_iff.1 h)]
    rfl

end Standing

/-- A node that is entered is the first site ahead. -/
theorem Follows.prefix_ahead {t : Tree} {p : Standing} {x : Exchange ε} (h : Follows t p x) :
    x.entered?.toList <+: p.ahead t := by
  cases h with
  | entered hchild hpath hwithin =>
      rw [Standing.ahead_of_child?_eq_some hchild, ← hpath]
      exact List.prefix_append _ _
  | left hopenings hchild hwithin => exact List.nil_prefix

/-! ## Visitors that keep what is below -/

/-- Whether a visitor, when it enters a node, keeps what is below it: it does not put another node in its
place, and it does not change its slots. -/
structure Visitor.KeepsBelow (v : Visitor σ ε) : Prop where
  answer : ∀ c n s m, (v.enter c n s).answer ≠ .ok (.replace (.node m))
  slots : ∀ c n s, (v.enter c n s).node.slots = n.slots

variable {v : Visitor σ ε} {t : Tree} {record : List (Exchange ε)} {c : Context} {n m : Node} {s : σ}

/-- A visitor that keeps what is below a node goes below the children that the node had. -/
theorem Visitor.KeepsBelow.places_eq (hv : v.KeepsBelow)
    (h : (v.exchange (.entered c n) s).below? = some m) : m.places = n.places := by
  have hanswer := hv.answer c n s
  have hslots := hv.slots c n s
  rw [Visitor.exchange_entered] at h
  generalize (v.enter c n s).answer = answer at h hanswer
  cases answer with
  | error e => cases h
  | ok action =>
      cases action with
      | proceed =>
          cases h
          rw [Node.places, hslots, Node.places]
      | replace t =>
          cases t with
          | node m' => exact absurd rfl (hanswer m')
          | sequence ns => cases h
      | _ => cases h

/-! ## What was entered and what is ahead -/

/-- Without the part in its middle a list is what is before and behind it. -/
theorem filter_append_append {α : Type} {as bs cs : List α} {q : α → Bool}
    (hnodup : (as ++ (bs ++ cs)).Nodup) (hq : ∀ a ∈ as ++ (bs ++ cs), q a = false ↔ a ∈ bs) :
    (as ++ (bs ++ cs)).filter q = as ++ cs := by
  obtain ⟨-, hbc, hdisjoint⟩ := List.nodup_append'.1 hnodup
  have hdisjoint' := (List.nodup_append'.1 hbc).2.2
  have has : as.filter q = as := List.filter_eq_self.2 fun a ha =>
    Bool.of_not_eq_false fun h =>
      hdisjoint ha (List.mem_append_left cs ((hq a (by simp [ha])).1 h))
  have hbs : bs.filter q = [] := List.filter_eq_nil_iff.2 fun b hb => by
    rw [(hq b (by simp [hb])).2 hb]
    exact Bool.false_ne_true
  have hcs : cs.filter q = cs := List.filter_eq_self.2 fun a ha =>
    Bool.of_not_eq_false fun h => hdisjoint' ((hq a (by simp [ha])).1 h) ha
  rw [List.filter_append, List.filter_append, has, hbs, hcs, List.nil_append]

/-- An exchange that prunes takes away what is below its site. -/
theorem filter_hides {x : Exchange ε} {path : List Key} {before behind : List (List Key × Node)}
    (hsites : (before ++ (path, n) :: (sitesOf path n.places ++ behind)).Sublist t.sites)
    (hpath : x.callback.context.path = path) (hprunes : x.prunes = true) :
    (before ++ (path, n) :: (sitesOf path n.places ++ behind)).filter (fun p => !x.hides p.1)
      = before ++ (path, n) :: behind := by
  have hn : (path, n) ∈ t.sites := hsites.mem (by simp)
  have hassoc : ∀ rest, before ++ (path, n) :: rest = (before ++ [(path, n)]) ++ rest := by simp
  rw [hassoc, hassoc behind]
  rw [hassoc] at hsites
  refine filter_append_append (hsites.nodup t.nodup_sites.of_map) fun y hy => ?_
  rw [Tree.mem_sitesOf_places_iff hn (hsites.mem hy), Bool.not_eq_false', Exchange.hides, hprunes,
    Bool.true_and, Bool.and_eq_true, List.isPrefixOf_iff_prefix, bne_iff_ne, hpath]

/-- **What was entered and what is ahead.** As long as the walk is not stopped, they are together the visible
sites. The induction is on the record; each exchange turns the next site ahead into one that was entered,
or takes away what is below it. -/
theorem filter_sites_of_isRecord (hv : v.KeepsBelow) (hrecord : IsRecord v t record) :
    t.sites.filter (visible record) = enteredSites record ++ (standing record).ahead t := by
  induction record with
  | nil =>
      have hall : t.sites.filter (visible ([] : List (Exchange ε))) = t.sites :=
        List.filter_eq_self.2 fun _ _ => rfl
      rw [hall]
      rfl
  | cons x record ih =>
      obtain ⟨hfollows, hx, hstops, hrecord⟩ := hrecord.of_cons
      have ih := ih hrecord
      cases hfollows with
      | @left n m answer o os hopenings hchild hwithin =>
          rw [filter_visible_of_prunes rfl, ih, enteredSites_cons, Standing.ahead_of_child?_eq_none hchild,
            hopenings, standing, Standing.next, hopenings]
          simp [Exchange.entered?]
      | @entered c n m answer keys hchild hpath hwithin =>
          rw [Standing.ahead_of_child?_eq_some hchild, ← hpath] at ih
          rw [enteredSites_cons, standing, Standing.next]
          obtain ⟨s, hx⟩ := hx
          cases hbelow : (⟨.entered c n, m, answer⟩ : Exchange ε).below? with
          | some m' =>
              have hplaces : m'.places = n.places := by
                rw [hx] at hbelow
                exact hv.places_eq hbelow
              rw [filter_visible_of_prunes (Exchange.not_prunes_of_below? hbelow), ih]
              simp [Exchange.entered?, Standing.ahead, hplaces]
          | none =>
              have hprunes := Exchange.prunes_of_below? hbelow hstops
              have hsites : (enteredSites record ++ (c.path, n) ::
                  (sitesOf c.path n.places ++ (standing record).count.ahead t)).Sublist t.sites := by
                rw [← ih]
                exact List.filter_sublist
              rw [filter_visible_cons, ih, filter_hides hsites rfl hprunes]
              simp [Exchange.entered?]

/-! ## The end -/

/-- No child is counted as an opening. -/
theorem Standing.length_count (p : Standing) : p.count.openings.length = p.openings.length := by
  obtain ⟨_ | ⟨o, os⟩, roots⟩ := p <;> rfl

/-- There is at most one more opening after an exchange. -/
theorem Standing.length_next_le (p : Standing) (x : Exchange ε) :
    (p.next x).openings.length ≤ p.openings.length + 1 := by
  unfold Standing.next
  cases x.callback with
  | left c n =>
      simp only [List.length_tail]
      omega
  | entered c n =>
      have hcount := p.length_count
      cases x.below? with
      | none =>
          simp only [hcount]
          omega
      | some m => simp only [List.length_cons, hcount, Nat.le_refl]

/-- Every exchange of a record enters or leaves a node, and no more nodes are left than were entered. -/
theorem length_add_length_openings_le (hrecord : IsRecord v t record) :
    record.length + (standing record).openings.length ≤ 2 * (enteredSites record).length := by
  induction record with
  | nil => exact Nat.le_refl 0
  | cons x record ih =>
      obtain ⟨hfollows, -, -, hrecord⟩ := hrecord.of_cons
      have ih := ih hrecord
      rw [enteredSites_cons, List.length_append, List.length_cons, standing]
      cases hfollows with
      | left hopenings hchild hwithin =>
          rw [hopenings] at ih
          simp only [Standing.next, hopenings, Exchange.entered?, List.tail_cons, List.length_cons,
            Option.toList_none, List.length_nil] at *
          omega
      | @entered c n m answer keys hchild hpath hwithin =>
          have hnext := (standing record).length_next_le (⟨.entered c n, m, answer⟩ : Exchange ε)
          simp only [Exchange.entered?, Option.toList_some, List.length_singleton]
          omega

/-- A traversal ends after two steps for each node and one more, or earlier. -/
theorem exists_ended (hv : v.KeepsBelow) (t : Tree) (s : σ) :
    ∃ r, t.after v.recorded (s, []) (2 * t.sites.length + 1) = .ended r := by
  have hkeeps := keeps_after v t s (2 * t.sites.length + 1)
  generalize t.after v.recorded (s, []) (2 * t.sites.length + 1) = p at hkeeps
  cases hkeeps with
  | @running stack path s' record hrecord hstack hlength =>
      exfalso
      have hle := length_add_length_openings_le hrecord
      have hsites : (enteredSites record).length ≤ t.sites.length := by
        have hfilter := List.length_filter_le (visible record) t.sites
        rw [filter_sites_of_isRecord hv hrecord, List.length_append] at hfilter
        omega
      omega
  | @ended r hend => exact ⟨r, rfl⟩

/-- Two steps for each node and one more are enough for a traversal to have a result. -/
theorem exists_traverse (hv : v.KeepsBelow) (t : Tree) (s : σ) :
    ∃ r, t.traverse v (2 * Node.sizeAll t.nodes + 1) s = some r := by
  obtain ⟨r, hr⟩ := exists_ended hv t s
  have hlength : t.sites.length = Node.sizeAll t.nodes := by
    rw [← List.length_map Prod.snd, t.map_sites, Node.length_preorder]
  rw [hlength] at hr
  exact ⟨_, Tree.traverse_of_recorded (Tree.traverse_eq_some_iff.2 hr)⟩

/-- Whether the right sites were entered until a traversal has ended: those that are visible, in their order
and each once. Only the latest exchange may stop the walk, and then some of the last are missing. -/
structure Covers (t : Tree) (record : List (Exchange ε)) : Prop where
  once : ((enteredSites record).map Prod.fst).Nodup
  ordered : enteredSites record <+: t.sites.filter (visible record)
  stopped : ∀ x ∈ record.tail, x.stops = false
  complete : (∀ x ∈ record, x.stops = false) → enteredSites record = t.sites.filter (visible record)

/-- In a record that was entered in order, no site was entered twice. -/
theorem nodup_enteredSites (h : enteredSites record <+: t.sites.filter (visible record)) :
    ((enteredSites record).map Prod.fst).Nodup :=
  ((h.sublist.trans List.filter_sublist).map Prod.fst).nodup t.nodup_sites

/-- When a traversal has ended, the right sites were entered. -/
theorem covers_of_isEnd (hv : v.KeepsBelow) {r : Result (σ × List (Exchange ε)) ε}
    (h : IsEnd v t r) : Covers t r.state.2 := by
  cases h with
  | @completed t' s' record hr hrecord hopenings hroots =>
      have hahead : (standing record).ahead t = [] := by
        rw [Standing.ahead_of_child?_eq_none hroots, hopenings]
      have heq := filter_sites_of_isRecord hv hrecord
      rw [hahead, List.append_nil] at heq
      subst hr
      have hle : enteredSites record <+: t.sites.filter (visible record) := by
        rewrite [heq]
        exact List.prefix_refl _
      exact ⟨nodup_enteredSites hle, hle,
        fun x hx => hrecord.goesOn x (List.mem_of_mem_tail hx), fun _ => heq.symm⟩
  | @stopped callback s record hr hrecord hfollows hstops hhalts =>
      have hle : enteredSites r.state.2 <+: t.sites.filter (visible r.state.2) := by
        rw [hr, filter_visible_of_prunes (Exchange.prunes_of_stops hstops),
          filter_sites_of_isRecord hv hrecord, enteredSites_cons, List.prefix_append_right_inj]
        exact hfollows.prefix_ahead
      refine ⟨nodup_enteredSites hle, hle, ?_, fun hall => ?_⟩
      · rw [hr]
        exact hrecord.goesOn
      · have := hall (v.exchange callback s) (by simp [hr])
        rw [hstops] at this
        cases this

/-! ## Visitors that do nothing -/

/-- A visitor that does nothing lets the walk go on. -/
theorem answer_of_idles (hv : v.Idles fun _ => True) (callback : Callback) (s : σ) :
    (v.exchange callback s).answer = .ok .proceed := by
  cases callback with
  | entered c n =>
      obtain ⟨s', -, h⟩ := hv.enter c n s trivial
      rw [Visitor.exchange_entered, h]
  | left c n =>
      obtain ⟨s', -, h⟩ := hv.leave c n s trivial
      rw [Visitor.exchange_left, h]

/-- The walk goes on when the visitor says so. -/
theorem Exchange.goesOn_of_proceed {x : Exchange ε} (h : x.answer = .ok .proceed) :
    x.stops = false ∧ x.prunes = false := by
  obtain ⟨_ | _, m, answer⟩ := x
  · obtain rfl : answer = .ok .proceed := h
    exact ⟨rfl, rfl⟩
  · obtain rfl : answer = .ok .proceed := h
    exact ⟨rfl, rfl⟩

/-- If nothing was pruned, every site that was entered was left or stands open. -/
theorem perm_leftSites (hrecord : IsRecord v t record) (hprunes : ∀ x ∈ record, x.prunes = false) :
    ((leftSites record).map Prod.fst ++ (standing record).openings.map fun o => o.context.path).Perm
      ((enteredSites record).map Prod.fst) := by
  induction record with
  | nil => exact List.Perm.refl _
  | cons x record ih =>
      obtain ⟨hfollows, -, hstops, hrecord⟩ := hrecord.of_cons
      obtain ⟨hx, hprunes⟩ := List.forall_mem_cons.1 hprunes
      have ih := ih hrecord hprunes
      rw [enteredSites_cons, leftSites_cons, standing]
      cases hfollows with
      | @left n m answer o os hopenings hchild hwithin =>
          rw [hopenings] at ih
          simpa [Standing.next, hopenings, Exchange.left?, Exchange.entered?] using ih
      | @entered c n m answer keys hchild hpath hwithin =>
          cases hbelow : (⟨.entered c n, m, answer⟩ : Exchange ε).below? with
          | none =>
              rw [Exchange.prunes_of_below? hbelow hstops] at hx
              cases hx
          | some m' =>
              have hcount : (standing record).count.openings.map (fun o => o.context.path)
                  = (standing record).openings.map fun o => o.context.path := by
                rw [Standing.count]
                split
                · rfl
                · simp_all
              simp only [Standing.next, hbelow, Exchange.left?, Exchange.entered?, Option.toList_none,
                Option.toList_some, List.append_nil, List.map_append, List.map_cons, List.map_nil,
                hcount]
              exact (List.perm_middle.trans (ih.cons _)).trans (List.perm_append_singleton _ _).symm

/-- A visitor that does nothing keeps what is below a node. -/
theorem Visitor.Idles.keepsBelow (hv : v.Idles fun _ => True) : v.KeepsBelow where
  answer := by
    intro c n s m
    obtain ⟨s', -, h⟩ := hv.enter c n s trivial
    rw [h]
    intro hreplace
    cases hreplace
  slots := by
    intro c n s
    obtain ⟨s', -, h⟩ := hv.enter c n s trivial
    rw [h]

/-- A visitor that does nothing enters and leaves all sites. -/
theorem all_sites_of_idles (hv : v.Idles fun _ => True) {r : Result (σ × List (Exchange ε)) ε}
    (h : IsEnd v t r) :
    enteredSites r.state.2 = t.sites ∧
      ((leftSites r.state.2).map Prod.fst).Perm (t.sites.map Prod.fst) := by
  have hcovers := covers_of_isEnd hv.keepsBelow h
  cases h with
  | @completed t' s' record hr hrecord hopenings hroots =>
      subst hr
      have hprunes : ∀ x ∈ record, x.prunes = false := by
        intro x hx
        obtain ⟨s'', hs''⟩ := hrecord.exchanges x hx
        rw [hs'']
        exact (Exchange.goesOn_of_proceed (answer_of_idles hv _ s'')).2
      have hvisible : t.sites.filter (visible record) = t.sites := by
        rw [List.filter_eq_self]
        intro p _
        rw [visible, List.all_eq_true]
        intro x hx
        rw [Exchange.hides_of_prunes (hprunes x hx), Bool.not_false]
      have hentered : enteredSites record = t.sites :=
        (hcovers.complete hrecord.goesOn).trans hvisible
      have hperm := perm_leftSites hrecord hprunes
      rw [hopenings, List.map_nil, List.append_nil, hentered] at hperm
      exact ⟨hentered, hperm⟩
  | @stopped callback s record hr hrecord hfollows hstops hhalts =>
      rw [(Exchange.goesOn_of_proceed (answer_of_idles hv callback s)).1] at hstops
      cases hstops

/-- A tree comes out as it was from the recursion with a visitor that does nothing. -/
theorem walk_of_idles (hv : v.Idles fun _ => True) (t : Tree) (s : σ) :
    ∃ s', t.walk v s = some (.finished t s') := by
  cases t with
  | node n =>
      obtain ⟨s', -, h⟩ := walkNode_of_idles hv [] [] n (s := s) trivial
      exact ⟨s', by rw [Tree.walk, h]; rfl⟩
  | sequence ns =>
      obtain ⟨s', -, h⟩ := walkSequence_of_idles hv [] [] 0 ns (s := s) trivial
      exact ⟨s', by rw [Tree.walk, h]; rfl⟩

/-- **Each node is entered once, in order.** With a visitor that keeps what is below the nodes it enters,
every traversal ends. The sites of a tree are its nodes, each followed by those that the iterator over its
descendants yields; those that are entered are those that are not below a node that was skipped, deleted
or replaced by a sequence when it was entered, up to the exchange that stops the walk. If the visitor does
nothing at all, every site is entered and left once, and the tree comes out as it was. -/
theorem traverse_covers (hv : v.KeepsBelow) (t : Tree) (s : σ) :
    t.sites.map Prod.snd = t.nodes.flatMap (fun n => n :: n.descendants) ∧
      ∃ fuel r, t.traverse v.recorded fuel (s, []) = some r ∧
        t.traverse v fuel s = some (r.mapState Prod.fst) ∧ Covers t r.state.2 ∧
          (v.Idles (fun _ => True) → enteredSites r.state.2 = t.sites ∧
            ((leftSites r.state.2).map Prod.fst).Perm (t.sites.map Prod.fst) ∧
              ∃ s', r = .finished t s') := by
  refine ⟨by rw [t.map_sites, Node.preorder_eq_flatMap], 2 * t.sites.length + 1, ?_⟩
  obtain ⟨r, hr⟩ := exists_ended hv t s
  have hkeeps := keeps_after v t s (2 * t.sites.length + 1)
  rw [hr] at hkeeps
  have hrecorded := Tree.traverse_eq_some_iff.2 hr
  have hresult := Tree.traverse_of_recorded hrecorded
  cases hkeeps with
  | ended hend =>
      refine ⟨r, hrecorded, hresult, covers_of_isEnd hv hend, fun hidle => ?_⟩
      obtain ⟨hentered, hleft⟩ := all_sites_of_idles hidle hend
      refine ⟨hentered, hleft, ?_⟩
      obtain ⟨s', hs'⟩ := walk_of_idles hidle t s
      rw [(exists_traverse_iff v t s _).1 ⟨_, hresult⟩] at hs'
      cases r with
      | finished t' s'' =>
          cases hs'
          exact ⟨s'', rfl⟩
      | failed e s'' => cases hs'

/-- A visitor that passes over what is printed in bold, and writes every text twice. -/
def Visitor.repeatText : Visitor Unit Empty where
  enter _ n s :=
    match n with
    | .group .bold _ _ => ⟨n, s, .ok .skip⟩
    | n => ⟨n, s, .ok .proceed⟩
  leave _ n s :=
    match n with
    | .leaf (.text _) _ => ⟨n, s, .ok (.replace (.sequence [n, n]))⟩
    | n => ⟨n, s, .ok .proceed⟩

/-- The visitor that writes texts twice changes nothing when it enters a node. -/
theorem Visitor.keepsBelow_repeatText : repeatText.KeepsBelow where
  answer := by
    intro c n s m h
    simp only [repeatText] at h
    split at h <;> cases h
  slots := by
    intro c n s
    simp only [repeatText]
    split <;> rfl

/-- The visitor that writes texts twice enters the two texts of a paragraph that are not printed in bold. -/
theorem traverse_covers_repeatText :
    let t : Tree := .node (.group .paragraph none [.leaf (.text "a") none,
      .group .bold none [.leaf (.text "b") none], .leaf (.text "c") none])
    ∃ fuel r, t.traverse Visitor.repeatText.recorded fuel ((), []) = some r ∧ Covers t r.state.2 ∧
      (enteredSites r.state.2).map Prod.fst
        = [[], [.field "contents", .index 0], [.field "contents", .index 1],
          [.field "contents", .index 2]] := by
  intro t
  obtain ⟨-, fuel, r, hr, -, hcovers, -⟩ := traverse_covers Visitor.keepsBelow_repeatText t ()
  have hrun : ∃ r, t.traverse Visitor.repeatText.recorded 6 ((), []) = some r ∧
      (enteredSites r.state.2).map Prod.fst = [[], [.field "contents", .index 0],
        [.field "contents", .index 1], [.field "contents", .index 2]] := ⟨_, rfl, rfl⟩
  obtain ⟨r', hr', hentered⟩ := hrun
  have hwalk := (exists_traverse_iff _ t ((), []) r).1 ⟨fuel, hr⟩
  rw [(exists_traverse_iff _ t ((), []) r').1 ⟨6, hr'⟩] at hwalk
  cases hwalk
  exact ⟨fuel, r, hr, hcovers, hentered⟩

end SpecDoc
