/-!
# Positions and spans

Lines and columns count from one; columns count characters. A span includes both of its ends.
-/

namespace SpecDoc

/-- A place in a source. -/
structure Position where
  line : Nat
  column : Nat
deriving DecidableEq

namespace Position

/-- The first place of a source. -/
def origin : Position := ⟨1, 1⟩

/-- Whether `p` comes no later than `q`. -/
def le (p q : Position) : Bool :=
  p.line < q.line || (p.line == q.line && p.column ≤ q.column)

/-- The place as `line:column`. -/
def toString (p : Position) : String := s!"{p.line}:{p.column}"

instance : ToString Position := ⟨Position.toString⟩

end Position

/-- A stretch of a source, with the file it lies in if that is known. -/
structure Span where
  file : Option String
  start : Position
  finish : Position
deriving DecidableEq

namespace Span

/-- The span of an empty source. -/
def origin : Span := ⟨none, .origin, .origin⟩

/-- The whole lines from `first` to `last`, where the last one has `length` characters. -/
def lines (first last length : Nat) : Span := ⟨none, ⟨first, 1⟩, ⟨last, length + 1⟩⟩

/-- The span in a given file. -/
def inFile (s : Span) (file : String) : Span := { s with file := some file }

/-- Whether a place lies in the span. -/
def contains (s : Span) (p : Position) : Bool := s.start.le p && p.le s.finish

/-- The span as `file:start..end`. -/
def toString (s : Span) : String :=
  let range := s!"{s.start}..{s.finish}"
  match s.file with
  | some file => s!"{file}:{range}"
  | none => range

instance : ToString Span := ⟨Span.toString⟩

end Span

end SpecDoc
