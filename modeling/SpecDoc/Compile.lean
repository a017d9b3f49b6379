import SpecDoc.Annotation
import SpecDoc.Import.Resolve

/-!
# Compilation

A document is compiled by resolving its imports and annotating the result, with a biblio that starts
from the anchors of other documents.

* `compile` compiles the document at a path of a library;
* `compileSource` compiles a single source.
-/

namespace SpecDoc

/-- What a compilation may be told. Imports are resolved one after the other: that they may be resolved side by
side shows in no result (`Library.resolve_ofFiles_beside`). -/
structure CompileOptions where
  annotate : AnnotateOptions
  external : ExternalAnchors
  cancellation : Cancellation

/-- The options that hold if no others are given. -/
def CompileOptions.standard : CompileOptions := ⟨.standard, Table.empty, .never⟩

/-- Compiles the document at a path. -/
def compile (lib : Library) (o : CompileOptions) (entry : String) : Compilation Annotated := do
  let (resolved, _) ← ExceptT.lift (lib.resolve o.cancellation entry)
  let document ← ExceptT.mk (some resolved)
  SpecDoc.annotate o.annotate ⟨document, Biblio.seeded o.external⟩

/-- Compiles a source that is the only file of its library. -/
def compileSource (o : CompileOptions) (name source : String) : Compilation Annotated :=
  compile (Library.ofFiles [(name, .ok source)]) o name

end SpecDoc
