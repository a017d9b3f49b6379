import SpecDoc.Proofs.Traversal.Brackets
import SpecDoc.Proofs.Traversal.Idle

/-!
# Stopping a walk

A visitor that stops a walk loses nothing. The machine closes its frames without asking the visitor, and
the tree is what it would be if the visitor had gone on without changing anything more.

* `Visitor.continued` is the visitor that goes on in this way;
* `continued_of_walk`: the recursion has the same outcomes with it, except that it passes the parts in
  which it was stopped;
* `traverse_continued`: a traversal that was stopped has the tree of the one that goes on.
-/

namespace SpecDoc

open Traversal

variable {σ ε : Type}

/-- The reply of a visitor that goes on instead of stopping the walk, and then notes that it was stopped. -/
def Reply.continued (reply : Reply σ ε) : Reply (σ × Bool) ε :=
  match reply.answer with
  | .ok .halt => ⟨reply.node, (reply.state, true), .ok .proceed⟩
  | answer => ⟨reply.node, (reply.state, false), answer⟩

/-- The visitor that does the same up to the callback in which it first stops the walk. There it changes
the node in the same way but goes on, and from then on it goes on everywhere and changes nothing. -/
def Visitor.continued (v : Visitor σ ε) : Visitor (σ × Bool) ε where
  enter c n s := if s.2 then ⟨n, s, .ok .proceed⟩ else (v.enter c n s.1).continued
  leave c n s := if s.2 then ⟨n, s, .ok .proceed⟩ else (v.leave c n s.1).continued

/-- A visitor that is continued does nothing once it was stopped. -/
theorem Visitor.idles_continued (v : Visitor σ ε) (s : σ) : v.continued.Idles (· = (s, true)) where
  enter := by
    rintro c n _ rfl
    exact ⟨(s, true), rfl, rfl⟩
  leave := by
    rintro c n _ rfl
    exact ⟨(s, true), rfl, rfl⟩

namespace Traversal

/-- The outcome of a walk that goes on: a part in which it was halted is passed. -/
def Outcome.continued {α : Type} : Outcome α σ ε → Outcome α (σ × Bool) ε
  | .passed part s => .passed part (s, false)
  | .halted part s => .passed part (s, true)
  | .failed e s => .failed e (s, false)

@[simp]
theorem Outcome.continued_passed {α : Type} (part : α) (s : σ) :
    (passed part s : Outcome α σ ε).continued = .passed part (s, false) := rfl

@[simp]
theorem Outcome.continued_halted {α : Type} (part : α) (s : σ) :
    (halted part s : Outcome α σ ε).continued = .passed part (s, true) := rfl

/-- It does not matter whether a larger part is made before or after an outcome is continued. -/
theorem Outcome.continued_map {α β : Type} (f : α → β) (o : Outcome α σ ε) :
    (o.map f).continued = o.continued.map f := by
  cases o <;> rfl

/-- A part is passed with the one state in which a visitor does nothing iff it comes out as it is. -/
theorem passes_eq_iff {α : Type} {s : σ} {part : α} {w : Option (Outcome α σ ε)} :
    Passes (· = s) part w ↔ w = some (.passed part s) := by
  simp [Passes]

section Walks

variable (v : Visitor σ ε) (path : List Key) (around : List Node) (n : Node) (s : σ)

/-- Once the visitor was stopped, an entered node is passed. -/
theorem walkBelow_continued_true :
    v.continued.walkBelow path around n (s, true) = some (.passed (.node n) (s, true)) :=
  passes_eq_iff.1 (walkBelow_of_idles (v.idles_continued s) [n] n List.mem_cons_self path around _ rfl)

/-- Once the visitor was stopped, a sequence is passed. -/
theorem walkSequence_continued_true (position : ℕ) (ns : List Node) :
    v.continued.walkSequence path around position ns (s, true) = some (.passed ns (s, true)) :=
  passes_eq_iff.1 (walkSequence_of_idles (v.idles_continued s) path around position ns rfl)

/-- A continued visitor leaves a node with the continued outcome. -/
theorem walkLeave_continued :
    walkLeave v.continued path around n (s, false) = (walkLeave v path around n s).continued := by
  simp only [walkLeave, Visitor.continued, Reply.continued]
  cases (v.leave ⟨path, around⟩ n s).answer with
  | error e => rfl
  | ok action => cases action <;> rfl

/-- A node that is made of the last of its slots is left with the continued outcome. -/
theorem leave_continued {α : Type} (make : α → Node) (o : Outcome α σ ε) :
    o.continued.leave v.continued path around make = (o.leave v path around make).continued := by
  cases o with
  | passed part s => exact walkLeave_continued v path around (make part) s
  | halted part s => rfl
  | failed e s => rfl

/-- A continued visitor enters a node as before, but goes on below a node at which it was halted. -/
theorem walkEnter_continued :
    walkEnter v.continued path around n (s, false)
      = match walkEnter v path around n s with
        | .below m s' => .below m (s', false)
        | .settled (.halted (.node m) s') => .below m (s', true)
        | .settled o => .settled o.continued := by
  simp only [walkEnter, Visitor.continued, Reply.continued]
  cases (v.enter ⟨path, around⟩ n s).answer with
  | error e => rfl
  | ok action =>
      cases action with
      | replace t => cases t <;> rfl
      | _ => rfl

/-- **A walk that goes on.** Each of the four functions has the same outcomes, except that the walk is not
halted. -/
theorem continued_of_walk :
    (∀ path around n s o, v.walkNode path around n s = some o →
      v.continued.walkNode path around n (s, false) = some o.continued) ∧
    (∀ path around n s o, v.walkBelow path around n s = some o →
      v.continued.walkBelow path around n (s, false) = some o.continued) ∧
    (∀ path around head s o, v.walkHead path around head s = some o →
      v.continued.walkHead path around head (s, false) = some o.continued) ∧
    (∀ path around position ns s o, v.walkSequence path around position ns s = some o →
      v.continued.walkSequence path around position ns (s, false) = some o.continued) := by
  apply Visitor.walkNode.mutual_partial_correctness v
  · intro below hbelow path around n s o h
    rw [Visitor.walkNode, walkEnter_continued]
    cases hentry : walkEnter v path around n s with
    | below m s' =>
        rw [hentry] at h
        exact hbelow path around m s' o h
    | settled o' =>
        rw [hentry] at h
        cases h
        cases o with
        | passed t s' => rfl
        | failed e s' => rfl
        | halted t s' =>
            cases t with
            | node m => exact walkBelow_continued_true v path around m s'
            | sequence ns => rfl
  · intro head sequence hhead hsequence path around n s o h
    cases n with
    | leaf l span =>
        cases h
        rw [Visitor.walkBelow, walkLeave_continued]
    | group g span contents =>
        obtain ⟨outcome, hcontents, ho⟩ := Option.bind_eq_some_iff.1 h
        cases ho
        rw [Visitor.walkBelow, hsequence _ _ _ _ _ _ hcontents]
        simp only [Option.bind_eq_bind, Option.bind_some]
        rw [leave_continued]
    | rule r span hd body =>
        obtain ⟨outcome, hhd, h⟩ := Option.bind_eq_some_iff.1 h
        rw [Visitor.walkBelow, hhead _ _ _ _ _ hhd]
        simp only [Option.bind_eq_bind, Option.bind_some]
        cases outcome with
        | failed e s' =>
            cases h
            rfl
        | halted hd' s' =>
            cases h
            simp only [Outcome.continued_halted]
            rw [walkSequence_continued_true]
            rfl
        | passed hd' s' =>
            obtain ⟨outcome, hbody, ho⟩ := Option.bind_eq_some_iff.1 h
            cases ho
            simp only [Outcome.continued_passed]
            rw [hsequence _ _ _ _ _ _ hbody]
            simp only [Option.bind_some]
            rw [leave_continued]
  · intro node hnode path around hd s o h
    cases hd with
    | none =>
        cases h
        rw [Visitor.walkHead]
        rfl
    | some n =>
        obtain ⟨outcome, hn, ho⟩ := Option.bind_eq_some_iff.1 h
        cases ho
        rw [Visitor.walkHead, hnode _ _ _ _ _ hn, Outcome.continued_map]
        rfl
  · intro node sequence hnode hsequence path around position ns s o h
    cases ns with
    | nil =>
        cases h
        rw [Visitor.walkSequence]
        rfl
    | cons n ns =>
        obtain ⟨outcome, hn, h⟩ := Option.bind_eq_some_iff.1 h
        rw [Visitor.walkSequence, hnode _ _ _ _ _ hn]
        simp only [Option.bind_eq_bind, Option.bind_some]
        cases outcome with
        | failed e s' =>
            cases h
            rfl
        | halted t s' =>
            cases h
            simp only [Outcome.continued_halted]
            rw [walkSequence_continued_true]
            rfl
        | passed t s' =>
            obtain ⟨rest, hrest, ho⟩ := Option.bind_eq_some_iff.1 h
            cases ho
            simp only [Outcome.continued_passed]
            rw [hsequence _ _ _ _ _ _ hrest, Outcome.continued_map]
            rfl

end Walks

variable {v : Visitor σ ε}

/-- Where an outcome finishes a traversal, the continued one does with the same tree and state. -/
theorem result_continued {α : Type} {f : α → Tree} {o : Outcome α σ ε} {t : Tree} {s : σ}
    (h : o.result f = .finished t s) : ∃ b, o.continued.result f = .finished t (s, b) := by
  cases o with
  | passed part s' =>
      cases h
      exact ⟨false, rfl⟩
  | halted part s' =>
      cases h
      exact ⟨true, rfl⟩
  | failed e s' => cases h

/-- A tree comes out of a walk that goes on as it comes out of one that may be stopped. -/
theorem walk_continued {t t' : Tree} {s s' : σ} (h : t.walk v s = some (.finished t' s')) :
    ∃ b, t.walk v.continued (s, false) = some (.finished t' (s', b)) := by
  cases t with
  | node n =>
      obtain ⟨o, ho, hr⟩ := Option.map_eq_some_iff.1 h
      obtain ⟨b, hb⟩ := result_continued hr
      refine ⟨b, ?_⟩
      rw [Tree.walk, (continued_of_walk v).1 _ _ _ _ _ ho, Option.map_some, hb]
  | sequence ns =>
      obtain ⟨o, ho, hr⟩ := Option.map_eq_some_iff.1 h
      obtain ⟨b, hb⟩ := result_continued hr
      refine ⟨b, ?_⟩
      rw [Tree.walk, (continued_of_walk v).2.2.2 _ _ _ _ _ _ ho, Option.map_some, hb]

/-- An exchange that halts is in the record in which it was found. -/
theorem exists_of_findIdx? {record : List (Exchange ε)} {k : ℕ}
    (h : record.reverse.findIdx? Exchange.halts = some k) : ∃ x ∈ record, x.halts = true := by
  obtain ⟨hlt, hhalts, -⟩ := List.findIdx?_eq_some_iff_getElem.1 h
  exact ⟨_, List.mem_reverse.1 (List.getElem_mem hlt), hhalts⟩

/-- If the others go on, an exchange that halts is the last of the record. -/
theorem length_of_findIdx? {x : Exchange ε} {earlier : List (Exchange ε)} {k : ℕ}
    (hearlier : ∀ y ∈ earlier, y.stops = false)
    (h : (x :: earlier).reverse.findIdx? Exchange.halts = some k) : (x :: earlier).length = k + 1 := by
  have hnone : earlier.reverse.findIdx? Exchange.halts = none := by
    rw [List.findIdx?_eq_none_iff]
    intro y hy
    by_contra hhalts
    have := hearlier y (List.mem_reverse.1 hy)
    rw [Exchange.stops_of_halts (Bool.of_not_eq_false hhalts)] at this
    cases this
  rw [List.reverse_cons, List.findIdx?_append, hnone, Option.none_or, Option.map_eq_some_iff] at h
  obtain ⟨i, hi, rfl⟩ := h
  have hlt : i < 1 := (List.findIdx?_eq_some_iff_getElem.1 hi).1
  rw [List.length_cons, List.length_reverse]
  omega

end Traversal

/-- **Stopping a walk loses nothing.** If at some moment of a traversal the record of its callbacks shows
that the visitor stops it first in the `k`-th of them, counted from zero, no other callback follows: the
traversal has ended with `k + 1` callbacks. Its tree is the one that the visitor has that does the same up
to this callback and changes the node there in the same way, but then goes on and changes nothing. -/
theorem traverse_continued (v : Visitor σ ε) (t : Tree) (s : σ) (m k : ℕ)
    (h : (t.after v.recorded (s, []) m).state.2.reverse.findIdx? Exchange.halts = some k) :
    ∃ t' s' record, t.after v.recorded (s, []) m = .ended (.finished t' (s', record)) ∧
      record.length = k + 1 ∧ (∃ fuel, t.traverse v fuel s = some (.finished t' s')) ∧
        ∃ fuel b, t.traverse v.continued fuel (s, false) = some (.finished t' (s', b)) := by
  have hkeeps := keeps_after v t s m
  generalize hp : t.after v.recorded (s, []) m = p at hkeeps
  rw [hp] at h
  obtain ⟨x, hx, hhalts⟩ := exists_of_findIdx? h
  -- No exchange halts as long as the machine runs, nor in a walk that was completed.
  have hgoesOn : ∀ {record}, IsRecord v t record → x ∉ record := by
    intro record hrecord hmem
    have := hrecord.goesOn x hmem
    rw [Exchange.stops_of_halts hhalts] at this
    cases this
  cases hkeeps with
  | running hrecord hstack hlength => exact absurd hx (hgoesOn hrecord)
  | @ended r hend =>
      cases hend with
      | completed hr hrecord hopenings hroots =>
          subst hr
          exact absurd hx (hgoesOn hrecord)
      | stopped hr hrecord hfollows hstops htree =>
          change x ∈ r.state.2 at hx
          change r.state.2.reverse.findIdx? Exchange.halts = some k at h
          rw [hr] at hx h
          have hlatest := (List.mem_cons.1 hx).resolve_right (hgoesOn hrecord)
          obtain ⟨t', ⟨s', record⟩, rfl⟩ := htree (hlatest ▸ hhalts)
          have hv := Tree.traverse_of_recorded (Tree.traverse_eq_some_iff.2 hp)
          obtain ⟨b, hb⟩ := walk_continued ((exists_traverse_iff v t s _).1 ⟨m, hv⟩)
          obtain ⟨fuel, hcontinued⟩ := (exists_traverse_iff v.continued t (s, false) _).2 hb
          refine ⟨t', s', record, rfl, ?_, ⟨m, hv⟩, fuel, b, hcontinued⟩
          obtain rfl : record = _ := hr
          exact length_of_findIdx? hrecord.goesOn h

/-- A visitor that takes all texts out, and stops at the first code to make a text of it. -/
def Visitor.untilCode : Visitor Unit Empty where
  enter _ n s :=
    match n with
    | .leaf (.inlineCode value) span => ⟨.leaf (.text value) span, s, .ok .halt⟩
    | n => ⟨n, s, .ok .proceed⟩
  leave _ n s :=
    match n with
    | .leaf (.text _) _ => ⟨n, s, .ok .delete⟩
    | n => ⟨n, s, .ok .proceed⟩

/-- The visitor that stops at code is halted in the fifth callback, in the middle of a paragraph. -/
theorem traverse_continued_untilCode :
    let t : Tree := .node (.group .paragraph none [.group .bold none
      [.leaf (.text "a") none, .leaf (.inlineCode "b") none], .leaf (.text "c") none])
    let t' : Tree := .node (.group .paragraph none [.group .bold none
      [.leaf (.text "b") none], .leaf (.text "c") none])
    (∃ fuel, t.traverse Visitor.untilCode fuel () = some (.finished t' ())) ∧
      ∃ fuel b, t.traverse Visitor.untilCode.continued fuel ((), false)
        = some (.finished t' ((), b)) := by
  intro t t'
  obtain ⟨t'', s', record, -, -, hv, hcontinued⟩ :=
    traverse_continued Visitor.untilCode t () 4 4 rfl
  have hrun : t.traverse Visitor.untilCode.continued 8 ((), false)
      = some (.finished t' ((), true)) := rfl
  obtain ⟨fuel, b, h⟩ := hcontinued
  have hwalk := (exists_traverse_iff _ t ((), false) _).1 ⟨fuel, h⟩
  rw [(exists_traverse_iff _ t ((), false) _).1 ⟨8, hrun⟩] at hwalk
  cases hwalk
  exact ⟨hv, fuel, _, h⟩

end SpecDoc
