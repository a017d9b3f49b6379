import SpecDoc.Annotation.Sweep
import SpecDoc.Error

/-!
# Section numbering

Every section gets an id: that of the section around it and one part of its own, which follows the part
of the section before it unless a token in its heading asks for another one.

* `SectionPart.resolve` is the part of a section, given the part before it and its token;
* `numberSections` numbers a document.
-/

namespace SpecDoc

open Text

namespace SectionPart

/-- The part of a section whose heading has no token. -/
def automatic? (previous : Option SectionPart) : Option SectionPart :=
  match previous with
  | none => some (.number 1)
  | some p => p.next?

/-- The last of the parts between the points of a token that is not empty. -/
def lastPart (token : String) : String :=
  String.ofList ((((cut (· == '.') token.toList).filter (!·.isEmpty)).getLast?).getD [])

/-- Why a part is no part for a section after another one, if it is none. Numbers and letters increase,
and after numbers the letters start at `A`. -/
def objection? (previous part : SectionPart) : Option NumberingProblem :=
  match previous, part with
  | .number _, .letters s => if s = "A" then none else some .numberToLetter
  | .letters _, .number _ => some .letterToNumber
  | _, _ => if part.compare? previous = some .gt then none else some .notIncreasing

/-- Parts of one kind are compared. -/
theorem objection?_of_kind {previous part : SectionPart}
    (h : previous.isLetters = part.isLetters) :
    objection? previous part
      = if part.compare? previous = some .gt then none else some .notIncreasing := by
  cases previous <;> cases part <;> first | rfl | cases h

/-- The part that a token asks for, or why it asks for none. -/
def ofToken (token : String) : Except NumberingProblem SectionPart :=
  let last := lastPart token
  match parse? last with
  | some part => .ok part
  | none => if (decimal? last.toList).isSome then .error .outOfRange else .error .unsupported

/-- The part of a section after another one, or after none, with a token or without. -/
def resolve (previous : Option SectionPart) (token : Option String) :
    Except NumberingProblem SectionPart :=
  match token with
  | none =>
    match automatic? previous with
    | some part => .ok part
    | none => .error .outOfRange
  | some token =>
    match ofToken token, previous with
    | .error problem, _ => .error problem
    | .ok part, none => .ok part
    | .ok part, some previous =>
      match objection? previous part with
      | none => .ok part
      | some problem => .error problem

/-- What is expected in the place of a part that is refused: the automatic one, unless it is this that
does not exist. -/
def expected? (previous : Option SectionPart) (token : Option String) : Option SectionPart :=
  token.bind fun _ => automatic? previous

end SectionPart

/-- The numbering at a place of the document: the parts of the sections around it, the innermost first,
and for each level the last part used there, the level of the place first. -/
structure NumberingState where
  around : List SectionPart
  lastUsed : List (Option SectionPart)

namespace NumberingState

/-- The numbering before the first section. -/
def start : NumberingState := ⟨[], [none]⟩

/-- The part of the section before the place, on the same level. -/
def previous (s : NumberingState) : Option SectionPart := (s.lastUsed.head?).join

/-- The id of the section around the place. -/
def secId (s : NumberingState) : SectionId := s.around.reverse

/-- Goes into a section with a given part. -/
def enter (s : NumberingState) (part : SectionPart) : NumberingState :=
  ⟨part :: s.around, none :: some part :: s.lastUsed.tail⟩

/-- Leaves the innermost section. -/
def leave (s : NumberingState) : NumberingState := ⟨s.around.tail, s.lastUsed.tail⟩

/-- The error for a section whose part is refused. -/
def error (s : NumberingState) (sec : Section) (span : Option Span) (problem : NumberingProblem) :
    NumberingError :=
  ⟨problem, sec.override.getD "", s.previous.map SectionPart.toString,
    (SectionPart.expected? s.previous sec.override).map SectionPart.toString, sec.title, span⟩

/-- Numbers a group: a section gets an id and a number, a subsection the id of its section. -/
def numberGroup (g : Group) (span : Option Span) (_ : List Node) (s : NumberingState) :
    Except NumberingError (Group × NumberingState) :=
  match g with
  | .numberedSection sec =>
    match SectionPart.resolve s.previous sec.override with
    | .error problem => .error (s.error sec span problem)
    | .ok part =>
      let s := s.enter part
      .ok (.numberedSection { sec with secId := s.secId, number := some s.secId.dotted }, s)
  | .subsection sub => .ok (.subsection { sub with secId := s.secId }, s)
  | g => .ok (g, s)

/-- Leaves a section where it ends. -/
def endGroup (g : Group) (s : NumberingState) : NumberingState :=
  match g with
  | .numberedSection _ => s.leave
  | _ => s

/-- The sweep that numbers sections. -/
def sweep : Sweep NumberingState NumberingError where
  leaf l s := .ok (l, s)
  group := numberGroup
  endGroup := endGroup
  rule r _ s := .ok (r, s)

end NumberingState

/-- Numbers the sections of a document. -/
def numberSections (d : Document) : Except NumberingError Document :=
  match NumberingState.sweep.run d .start with
  | .error e => .error e
  | .ok (d, _) => .ok d

end SpecDoc
