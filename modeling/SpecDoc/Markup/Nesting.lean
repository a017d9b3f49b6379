import SpecDoc.Error
import SpecDoc.Markup.Block

/-!
# Nesting

The blocks of a source are put into sections by the levels of their headings. A heading closes the
sections of its own and deeper levels, and it may lie at most one level below the section that is then
the innermost open one.

* `Nesting.place` takes one more block in;
* `Nesting.finish` closes everything.
-/

namespace SpecDoc

/-- Where a source stands: at the start of a document, which has a title and sections of the first
level, or in the place of an import, where the first heading may have any level. -/
inductive Start where
  | initial
  | imported
deriving DecidableEq

namespace Markup

/-- A subsection that is still open. -/
structure OpenSubsection where
  title : String
  span : Span
  contents : List Node

/-- What was read directly in a section or outside of all sections. -/
structure Layer where
  contents : List Node
  subsection : Option OpenSubsection

/-- A section that is still open. -/
structure OpenSection where
  level : Nat
  title : String
  override : Option String
  span : Span
  layer : Layer

/-- The open sections, the innermost first, and what was read outside of them. -/
structure Nesting where
  sections : List OpenSection
  root : Layer

namespace Layer

/-- The layer before anything is read. -/
def empty : Layer := ⟨[], none⟩

/-- The node of a subsection that is closed. -/
def subsectionNode (s : OpenSubsection) : Node :=
  .group (.subsection ⟨s.title, [], none⟩) (some s.span) s.contents

/-- The layer with its subsection closed. -/
def closeSubsection (l : Layer) : Layer :=
  match l.subsection with
  | none => l
  | some s => ⟨l.contents ++ [subsectionNode s], none⟩

/-- The layer with one more node, in its subsection if one is open. -/
def add (l : Layer) (n : Node) : Layer :=
  match l.subsection with
  | none => ⟨l.contents ++ [n], none⟩
  | some s => ⟨l.contents, some { s with contents := s.contents ++ [n] }⟩

/-- The layer with a new subsection. -/
def openSubsection (l : Layer) (title : String) (span : Span) : Layer :=
  { l.closeSubsection with subsection := some ⟨title, span, []⟩ }

end Layer

/-- The node of a section that is closed. -/
def OpenSection.node (s : OpenSection) : Node :=
  .group (.numberedSection ⟨s.title, s.override, [], none, none⟩) (some s.span)
    s.layer.closeSubsection.contents

namespace Nesting

/-- The state before the first block. -/
def empty : Nesting := ⟨[], .empty⟩

/-- A change to the innermost layer. -/
def mapLayer (f : Layer → Layer) (s : Nesting) : Nesting :=
  match s.sections with
  | [] => { s with root := f s.root }
  | o :: os => { s with sections := { o with layer := f o.layer } :: os }

/-- Closes the open sections of a level and of deeper ones. -/
def closeFrom (level : Nat) (root : Layer) : List OpenSection → Nesting
  | [] => ⟨[], root⟩
  | o :: os =>
    if o.level < level then ⟨o :: os, root⟩
    else
      match os with
      | [] => ⟨[], root.add o.node⟩
      | p :: ps => closeFrom level root ({ p with layer := p.layer.add o.node } :: ps)
termination_by os => os.length

/-- The deepest level that a heading may have here, if there is a bound. -/
def deepest? (start : Start) (s : Nesting) : Option Nat :=
  match s.sections, start with
  | o :: _, _ => some (o.level + 1)
  | [], .initial => some 1
  | [], .imported => none

/-- An import, or a section that is opened. -/
def addHeading (s : Nesting) (level : Nat) (text : List Char) (span : Span) : Nesting :=
  match importPath? text with
  | some path => s.mapLayer (·.add (.leaf (.importLink (String.ofList path)) (some span)))
  | none =>
    let (override, title) := match numberingToken? text with
      | some (token, title) => (some (String.ofList token), title)
      | none => (none, text)
    { s with sections := ⟨level, String.ofList title, override, span, .empty⟩ :: s.sections }

/-- A problem that lies at the start of a line. -/
def problemAt (file : Option String) (line : Nat) (problem : ParseProblem) : ParseError :=
  ⟨file, line, 1, problem, none, []⟩

/-- Takes one more block in. -/
def place (start : Start) (file : Option String) (s : Nesting) (item : Item) :
    Except ParseError Nesting :=
  match item.content with
  | .openFence => .error (problemAt file item.line .unterminatedCode)
  | .block node => .ok (s.mapLayer (·.add node))
  | .subsection title => .ok (s.mapLayer (·.openSubsection title item.span))
  | .heading level text =>
    let s := s.mapLayer (·.closeSubsection)
    let s := closeFrom level s.root s.sections
    match s.deepest? start with
    | none => .ok (s.addHeading level text item.span)
    | some deepest =>
      if deepest < level then .error (problemAt file item.line (.skippedLevel level deepest))
      else .ok (s.addHeading level text item.span)

/-- The nodes of the finished tree. -/
def finish (s : Nesting) : List Node :=
  let s := s.mapLayer (·.closeSubsection)
  (closeFrom 0 s.root s.sections).root.contents

/-- The tree of a sequence of blocks. -/
def ofItems (start : Start) (file : Option String) (items : List Item) :
    Except ParseError (List Node) :=
  (items.foldlM (place start file) empty).map finish

end Nesting

end Markup

end SpecDoc
