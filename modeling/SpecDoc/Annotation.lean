import SpecDoc.Annotation.Anchors
import SpecDoc.Annotation.Examples
import SpecDoc.Annotation.Numbering
import SpecDoc.Node.Descendants
import SpecDoc.Text.Blank

/-!
# Annotation

A resolved document is checked, its sections and examples are numbered, and its anchors are assigned.
Each of these is a stage; `annotate` runs all of them in order.

A computation that may fail, or have no answer because a search goes around in a circle, is a
`Compilation`: a value or an error, or nothing.
-/

namespace SpecDoc

/-- A value or an error; or nothing, where the search for a free anchor does not end with one. -/
abbrev Compilation (α : Type) := ExceptT CompileError Option α

/-- What an annotation may be told: how anchors are formed and whether a title is needed. -/
structure AnnotateOptions where
  anchors : AnchorOptions
  requireTitle : Bool

/-- The options that hold if no others are given. -/
def AnnotateOptions.standard : AnnotateOptions := ⟨.standard, true⟩

/-- A document on its way through the stages, with the anchors registered so far. -/
structure Annotated where
  document : Document
  biblio : Biblio

/-- Whether a document has a title that is not blank. -/
def Document.hasTitle (d : Document) : Bool := d.title.any fun t => !Text.allBlank t.toList

/-- The first import that is left in a document. -/
def Document.firstImport? (d : Document) : Option StructuralError :=
  d.descendants.findSome? fun
    | .leaf (.importLink path) span => some (.unresolvedImport path span)
    | _ => none

/-- Why a document cannot be annotated, if it cannot. -/
def checkStructure (requireTitle : Bool) (d : Document) : Except StructuralError Unit :=
  if requireTitle && !d.hasTitle then .error .missingTitle
  else
    match d.firstImport? with
    | some e => .error e
    | none => .ok ()

/-- The stages of an annotation. -/
inductive Stage where
  | check (requireTitle : Bool)
  | numberSections
  | numberExamples
  | assignAnchors (options : AnchorOptions)

namespace Stage

/-- Runs one stage. -/
def run (a : Annotated) : Stage → Compilation Annotated
  | .check requireTitle =>
    match checkStructure requireTitle a.document with
    | .error e => throw (.structural e)
    | .ok () => return a
  | .numberSections =>
    match SpecDoc.numberSections a.document with
    | .error e => throw (.numbering e)
    | .ok d => return { a with document := d }
  | .numberExamples => return { a with document := SpecDoc.numberExamples a.document }
  | .assignAnchors options => do
    let (document, biblio) ← ExceptT.lift (assignAnchors? options a.biblio a.document)
    return ⟨document, biblio⟩

/-- Runs stages one after the other. -/
def runAll (stages : List Stage) (a : Annotated) : Compilation Annotated := stages.foldlM run a

/-- The stages that check and number. -/
def numbering (o : AnnotateOptions) : List Stage :=
  [.check o.requireTitle, .numberSections, .numberExamples]

/-- All stages. -/
def all (o : AnnotateOptions) : List Stage := numbering o ++ [.assignAnchors o.anchors]

end Stage

/-- Annotates a document. -/
def annotate (o : AnnotateOptions) (a : Annotated) : Compilation Annotated :=
  Stage.runAll (Stage.all o) a

end SpecDoc
