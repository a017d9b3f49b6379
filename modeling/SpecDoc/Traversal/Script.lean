import SpecDoc.Traversal

/-!
# Scripted visitors

A script is a list of rules, each of which says at which callbacks and nodes it applies and what is then
done. At each callback the first rule that applies is used, and a log is kept of all callbacks.

* `Script.visitor` is the visitor that follows a script.
-/

namespace SpecDoc

/-- The two callbacks of a visitor. -/
inductive Phase where
  | enter
  | leave
deriving DecidableEq

/-- What a callback is told about the node above. -/
structure ParentView where
  kind : Kind
  label : Option String
  childCount : Nat

/-- A callback as it is logged. -/
structure VisitEvent where
  phase : Phase
  kind : Kind
  label : Option String
  path : List Key
  parent : Option ParentView
  ancestors : List Kind
  childCount : Nat

/-- What a rule makes of a node: an action or a failure. -/
abbrev Verdict := Except String Action

/-- A rule: at which callback it applies, and to which nodes, by the name of their kind, their label and
the way to them, where given; how often it may still be used, if there is a limit; what the node
becomes, if it changes; and what is done then. -/
structure ScriptRule where
  phase : Phase
  kind : Option String
  label : Option String
  path : Option String
  uses : Option Nat
  become : Option Node
  verdict : Verdict

/-- The rules with their remaining uses and the log, the latest callback first. -/
structure ScriptState where
  rules : List ScriptRule
  log : List VisitEvent

namespace Script

/-- The way to a node, with points between its keys. -/
def pathText (path : List Key) : String := ".".intercalate (path.map Key.toString)

/-- The log entry of a callback. -/
def event (phase : Phase) (c : Context) (n : Node) : VisitEvent where
  phase := phase
  kind := n.kind
  label := n.label?
  path := c.path
  parent := c.parent?.map fun p => ⟨p.kind, p.label?, p.children.length⟩
  ancestors := c.ancestors.map Node.kind
  childCount := n.children.length

/-- Whether a rule applies at a callback. -/
def applies (r : ScriptRule) (phase : Phase) (c : Context) (n : Node) : Bool :=
  r.phase == phase && r.kind.all (· == n.kind.name) && r.label.all (n.label? == some ·) &&
    r.path.all (· == pathText c.path) && r.uses != some 0

/-- The first rule that applies, and the rules with one use of it less. -/
def select? (phase : Phase) (c : Context) (n : Node) :
    List ScriptRule → Option (ScriptRule × List ScriptRule)
  | [] => none
  | r :: rs =>
    if applies r phase c n then some (r, { r with uses := r.uses.map (· - 1) } :: rs)
    else (select? phase c n rs).map fun p => (p.1, r :: p.2)

/-- A callback that follows the script. -/
def callback (phase : Phase) (c : Context) (n : Node) (s : ScriptState) :
    Reply ScriptState String :=
  let log := event phase c n :: s.log
  match select? phase c n s.rules with
  | none => ⟨n, { s with log }, .ok .proceed⟩
  | some (r, rules) => ⟨r.become.getD n, ⟨rules, log⟩, r.verdict⟩

/-- A callback that does nothing. -/
def idle (_ : Context) (n : Node) (s : ScriptState) : Reply ScriptState String :=
  ⟨n, s, .ok .proceed⟩

/-- The visitor that follows the script at the given callbacks. -/
def visitor (phases : List Phase) : Visitor ScriptState String where
  enter := if .enter ∈ phases then callback .enter else idle
  leave := if .leave ∈ phases then callback .leave else idle

end Script

end SpecDoc
