import SpecDoc.Proofs.Traversal.Machine

/-!
# Callbacks with their replies

The record of a traversal lists its callbacks with the replies of the visitor. It shows at every moment
how far the traversal has come, whether it ends or not.

* `Visitor.recorded` is the visitor with such a record, and `Tree.after` the machine after some steps;
* `leaveNode_recorded_cases` and `enterNode_recorded_cases`: what one callback adds to the record and how
  the machine goes on.
-/

namespace SpecDoc

/-- What the visitor was told. -/
def Callback.context : Callback → Context
  | .entered c _ => c
  | .left c _ => c

/-- A callback with the reply to it: the node as the visitor gave it back and its answer. -/
structure Exchange (ε : Type) where
  callback : Callback
  node : Node
  answer : Except ε Action

namespace Exchange

variable {ε : Type}

/-- The node that the walk goes below after an exchange. It does so when a node is entered, and the visitor
goes on or puts a single node in its place. -/
def below? : Exchange ε → Option Node
  | ⟨.entered _ _, m, .ok .proceed⟩ => some m
  | ⟨.entered _ _, _, .ok (.replace (.node m))⟩ => some m
  | _ => none

/-- Whether the visitor stops the walk. -/
def halts : Exchange ε → Bool
  | ⟨_, _, .ok .halt⟩ => true
  | _ => false

/-- Whether the walk is over after an exchange: the visitor stops it, or it fails. -/
def stops : Exchange ε → Bool
  | ⟨_, _, .error _⟩ => true
  | x => x.halts

/-- The walk is over when the visitor stops it. -/
theorem stops_of_halts {x : Exchange ε} (h : x.halts = true) : x.stops = true := by
  obtain ⟨callback, node, e | action⟩ := x
  · rfl
  · exact h

end Exchange

variable {σ ε : Type}

/-- What a visitor in a given state makes of a callback. -/
def Visitor.exchange (v : Visitor σ ε) (callback : Callback) (s : σ) : Exchange ε :=
  match callback with
  | .entered c n => ⟨callback, (v.enter c n s).node, (v.enter c n s).answer⟩
  | .left c n => ⟨callback, (v.leave c n s).node, (v.leave c n s).answer⟩

/-- The exchange on entering a node is what the visitor was told and what it made of it. -/
theorem Visitor.exchange_entered (v : Visitor σ ε) (c : Context) (n : Node) (s : σ) :
    v.exchange (.entered c n) s = ⟨.entered c n, (v.enter c n s).node, (v.enter c n s).answer⟩ := rfl

/-- The exchange on leaving a node is what the visitor was told and what it made of it. -/
theorem Visitor.exchange_left (v : Visitor σ ε) (c : Context) (n : Node) (s : σ) :
    v.exchange (.left c n) s = ⟨.left c n, (v.leave c n s).node, (v.leave c n s).answer⟩ := rfl

/-- The visitor that keeps a record of all callbacks with its replies, the latest first. -/
def Visitor.recorded (v : Visitor σ ε) : Visitor (σ × List (Exchange ε)) ε :=
  v.watched fun callback reply record => ⟨callback, reply.node, reply.answer⟩ :: record

namespace Traversal

/-- The state of the visitor at the end. -/
def Result.state : Result σ ε → σ
  | .finished _ s => s
  | .failed _ s => s

/-- The state of the visitor. -/
def Progress.state : Progress σ ε → σ
  | .running _ _ s => s
  | .ended r => r.state

end Traversal

open Traversal

/-- The machine that traverses a tree, after a number of steps. A result stays. -/
def Tree.after (v : Visitor σ ε) (t : Tree) (s : σ) (k : ℕ) : Progress σ ε :=
  (advance v)^[k] (.running [.root t] [] s)

/-- A traversal has the result that the machine has after as many steps as it may take. -/
theorem Tree.traverse_eq_some_iff {v : Visitor σ ε} {t : Tree} {s : σ} {fuel : ℕ} {r : Result σ ε} :
    t.traverse v fuel s = some r ↔ t.after v s fuel = .ended r :=
  run_eq_some_iff fuel [.root t] [] s r

/-- A visitor with a record has the results that it has without. -/
theorem Tree.traverse_of_recorded {v : Visitor σ ε} {t : Tree} {s : σ} {fuel : ℕ}
    {record : List (Exchange ε)} {r : Result (σ × List (Exchange ε)) ε}
    (h : t.traverse v.recorded fuel (s, record) = some r) :
    t.traverse v fuel s = some (r.mapState Prod.fst) := by
  have hrun := run_watched (v := v)
    (fun callback reply record => ⟨callback, reply.node, reply.answer⟩ :: record) fuel [.root t] []
    (s, record)
  rw [Tree.traverse, Visitor.recorded] at h
  rw [h] at hrun
  exact hrun.symm

namespace Traversal

variable {v : Visitor σ ε} {path : List Key} {stack : List Frame} {n : Node} {s : σ}
  {record : List (Exchange ε)}

/-- How the machine goes on after an exchange that does not lead below a node: with something in the place
of the node, and the path to the frame around it; or not at all. -/
inductive Settles (x : Exchange ε) (record : List (Exchange ε)) (stack : List Frame) (way : List Key) :
    Progress (σ × List (Exchange ε)) ε → Prop where
  | settled {t : Tree} {s : σ} (hbelow : x.below? = none) (hstops : x.stops = false) :
      Settles x record stack way (.running (settle stack t) way (s, x :: record))
  | halted {s : σ} (hhalts : x.halts = true) :
      Settles x record stack way
        (.ended (.finished (unwind (settle stack (.node x.node))) (s, x :: record)))
  | failed {e : ε} {s : σ} (hbelow : x.below? = none) (hstops : x.stops = true)
      (hhalts : x.halts = false) : Settles x record stack way (.ended (.failed e (s, x :: record)))

/-- When a node is left, the record grows by this exchange. -/
theorem leaveNode_recorded_cases (v : Visitor σ ε) (path : List Key) (keys : ℕ) (stack : List Frame)
    (n : Node) (s : σ) (record : List (Exchange ε)) :
    Settles (v.exchange (.left ⟨path, ancestors stack⟩ n) s) record stack (shorten path keys)
      (leaveNode v.recorded path keys stack n (s, record)) := by
  unfold leaveNode Visitor.recorded Visitor.watched Visitor.exchange
  dsimp only
  cases (v.leave ⟨path, ancestors stack⟩ n s).answer with
  | error e => exact .failed rfl rfl rfl
  | ok action =>
      cases action with
      | halt => exact .halted rfl
      | _ => exact .settled rfl rfl

/-- When a node is entered, the record grows by this exchange, and then the machine may go below a node. -/
theorem enterNode_recorded_cases (v : Visitor σ ε) (path : List Key) (keys : ℕ) (stack : List Frame)
    (n : Node) (s : σ) (record : List (Exchange ε)) :
    let x := v.exchange (.entered ⟨path, ancestors stack⟩ n) s
    Settles x record stack (shorten path keys) (enterNode v.recorded path keys stack n (s, record)) ∨
      ∃ n' s', x.below? = some n' ∧ x.stops = false ∧
        enterNode v.recorded path keys stack n (s, record)
          = descend v.recorded path keys stack n' (s', x :: record) := by
  unfold enterNode Visitor.recorded Visitor.watched Visitor.exchange
  dsimp only
  cases (v.enter ⟨path, ancestors stack⟩ n s).answer with
  | error e => exact .inl (.failed rfl rfl rfl)
  | ok action =>
      cases action with
      | proceed => exact .inr ⟨_, _, rfl, rfl, rfl⟩
      | halt => exact .inl (.halted rfl)
      | skip => exact .inl (.settled rfl rfl)
      | delete => exact .inl (.settled rfl rfl)
      | replace t =>
          cases t with
          | node m => exact .inr ⟨_, _, rfl, rfl, rfl⟩
          | sequence ns => exact .inl (.settled rfl rfl)

end Traversal

end SpecDoc
