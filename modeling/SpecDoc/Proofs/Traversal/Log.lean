import SpecDoc.Traversal

/-!
# Callbacks on record

A visitor can be made to keep a record of its callbacks. What is proved of all visitors is then also
proved of their records.

* `Visitor.watched` is the visitor with an observer, `Visitor.logged` the one with a list of its
  callbacks;
* `run_watched`: apart from what the observer notes, it makes no difference.
-/

namespace SpecDoc

/-- A callback: what the visitor was told, and the node it was shown. -/
inductive Callback where
  | entered (c : Context) (n : Node)
  | left (c : Context) (n : Node)

variable {σ τ ε : Type}

/-- The visitor with an observer, who notes every callback with the reply to it. -/
def Visitor.watched (v : Visitor σ ε) (note : Callback → Reply σ ε → τ → τ) :
    Visitor (σ × τ) ε where
  enter c n s :=
    let reply := v.enter c n s.1
    ⟨reply.node, (reply.state, note (.entered c n) reply s.2), reply.answer⟩
  leave c n s :=
    let reply := v.leave c n s.1
    ⟨reply.node, (reply.state, note (.left c n) reply s.2), reply.answer⟩

/-- The visitor that keeps a record of all callbacks, the latest first. -/
def Visitor.logged (v : Visitor σ ε) : Visitor (σ × List Callback) ε where
  enter c n s :=
    let reply := v.enter c n s.1
    ⟨reply.node, (reply.state, .entered c n :: s.2), reply.answer⟩
  leave c n s :=
    let reply := v.leave c n s.1
    ⟨reply.node, (reply.state, .left c n :: s.2), reply.answer⟩

namespace Traversal

/-- The result with another view of the state. -/
def Result.mapState {τ : Type} (f : σ → τ) : Result σ ε → Result τ ε
  | .finished t s => .finished t (f s)
  | .failed e s => .failed e (f s)

/-- The machine with another view of the state. -/
def Progress.mapState {τ : Type} (f : σ → τ) : Progress σ ε → Progress τ ε
  | .running stack path s => .running stack path (f s)
  | .ended r => .ended (r.mapState f)

variable {v : Visitor σ ε} (note : Callback → Reply σ ε → τ → τ)

/-- A node is left in the same way with an observer. -/
theorem leaveNode_watched (path : List Key) (keys : Nat) (stack : List Frame) (n : Node) (s : σ × τ) :
    (leaveNode (v.watched note) path keys stack n s).mapState Prod.fst
      = leaveNode v path keys stack n s.1 := by
  unfold leaveNode Visitor.watched
  dsimp only
  cases (v.leave ⟨path, ancestors stack⟩ n s.1).answer with
  | error e => rfl
  | ok action => cases action <;> rfl

/-- The walk goes below a node in the same way with an observer. -/
theorem descend_watched (path : List Key) (keys : Nat) (stack : List Frame) (n : Node) (s : σ × τ) :
    (descend (v.watched note) path keys stack n s).mapState Prod.fst
      = descend v path keys stack n s.1 := by
  cases n with
  | leaf l span => exact leaveNode_watched note path keys stack (.leaf l span) s
  | group g span contents => rfl
  | rule r span head body => rfl

/-- A node is entered in the same way with an observer. -/
theorem enterNode_watched (path : List Key) (keys : Nat) (stack : List Frame) (n : Node) (s : σ × τ) :
    (enterNode (v.watched note) path keys stack n s).mapState Prod.fst
      = enterNode v path keys stack n s.1 := by
  unfold enterNode Visitor.watched
  dsimp only
  cases (v.enter ⟨path, ancestors stack⟩ n s.1).answer with
  | error e => rfl
  | ok action =>
      cases action with
      | proceed => exact descend_watched note path keys stack _ _
      | skip => rfl
      | halt => rfl
      | delete => rfl
      | replace t =>
          cases t with
          | node m => exact descend_watched note path keys stack m _
          | sequence ns => rfl

/-- A step is the same with an observer. -/
theorem step_watched (stack : List Frame) (path : List Key) (s : σ × τ) :
    (step (v.watched note) stack path s).mapState Prod.fst = step v stack path s.1 := by
  cases stack with
  | nil => rfl
  | cons f fs =>
      obtain ⟨node, keys, done, slots⟩ := f
      unfold step
      dsimp only
      rcases Frame.nextChild done slots with ⟨done', _ | ⟨n, keys'⟩, slots'⟩
      · cases node with
        | none => cases fs <;> rfl
        | some shell =>
            cases fs with
            | nil => rfl
            | cons g gs => exact leaveNode_watched note path keys (g :: gs) _ s
      · exact enterNode_watched note _ _ _ n s

/-- A run is the same with an observer. -/
theorem run_watched (fuel : Nat) (stack : List Frame) (path : List Key) (s : σ × τ) :
    (run (v.watched note) fuel stack path s).map (Result.mapState Prod.fst)
      = run v fuel stack path s.1 := by
  induction fuel generalizing stack path s with
  | zero => rfl
  | succ fuel ih =>
      have hstep := step_watched (v := v) note stack path s
      unfold run
      rw [← hstep]
      cases step (v.watched note) stack path s with
      | running stack' path' s' => exact ih stack' path' s'
      | ended r => rfl

/-- A run is the same with a list of its callbacks. -/
theorem run_logged (fuel : Nat) (stack : List Frame) (path : List Key) (s : σ × List Callback) :
    (run v.logged fuel stack path s).map (Result.mapState Prod.fst) = run v fuel stack path s.1 :=
  run_watched (fun callback _ log => callback :: log) fuel stack path s

end Traversal

end SpecDoc
