import SpecDoc.Text.Cut

/-!
# Paths

A path is absolute or relative and goes through a list of steps: into a named entry or up to the
parent. Empty steps and `.` have no meaning and are dropped when a path is read.

* `normalize` folds every step up into the named step before it;
* `join` follows one path from the end of another;
* `parent` is the directory that holds a file.
-/

namespace SpecDoc

/-- One step of a path. -/
inductive PathStep where
  /-- Up to the parent, written `..`. -/
  | up
  /-- Into the entry of that name. -/
  | into (name : String)
deriving DecidableEq

/-- A path, as the steps it takes from the root or from the current directory. -/
structure Path where
  absolute : Bool
  steps : List PathStep
deriving DecidableEq

namespace Path

/-- The step that a part between slashes stands for, if it has a meaning. -/
def stepOfPart (part : List Char) : Option PathStep :=
  if part = [] ∨ part = ['.'] then none
  else if part = ['.', '.'] then some .up
  else some (.into (String.ofList part))

/-- Reads a path. -/
def ofString (s : String) : Path :=
  let cs := s.toList
  ⟨cs.head? == some '/', (Text.cut (· == '/') cs).filterMap stepOfPart⟩

/-- The name of a step. -/
def stepName : PathStep → String
  | .up => ".."
  | .into name => name

/-- Writes a path, with one slash between steps. -/
def toString (p : Path) : String :=
  (if p.absolute then "/" else "") ++ "/".intercalate (p.steps.map stepName)

instance : ToString Path := ⟨Path.toString⟩

/-! ## Normal form -/

/-- One more step after normalized steps, which are listed last first. -/
def fold (absolute : Bool) (last : List PathStep) : PathStep → List PathStep
  | .into name => .into name :: last
  | .up =>
    match last with
    | .into _ :: r => r
    | _ => if absolute then last else .up :: last

/-- A path without detours: a step up undoes the named step before it, and there is nothing above the root. -/
def normalize (p : Path) : Path :=
  ⟨p.absolute, (p.steps.foldl (fold p.absolute) []).reverse⟩

/-! ## Joining -/

/-- The path `q` followed from the directory `p`. -/
def join (p q : Path) : Path :=
  if q.absolute then q else ⟨p.absolute, p.steps ++ q.steps⟩

/-- The directory that holds the file at `p`. The root has none, and then it is the current one. -/
def parent (p : Path) : Path :=
  if p.steps.isEmpty then ⟨false, []⟩ else ⟨p.absolute, p.steps.dropLast⟩

end Path

end SpecDoc
