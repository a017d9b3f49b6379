import SpecDoc.Import.Resolve

/-!
# Loading

A single source is loaded from a text or a file and read on its own; its imports stay in the tree.
-/

namespace SpecDoc

/-- A source with the file it comes from, if it comes from one. -/
structure LoadedSource where
  text : String
  file : Option String

namespace LoadedSource

/-- Loads the file at a path. -/
def ofFile (a : FileAccess) (path : String) : Except ImportError LoadedSource :=
  match a.read path with
  | .ok text => .ok ⟨text, some path⟩
  | .error f => .error ⟨Resolution.problemOf f, path, [], none⟩

/-- Reads the document; an error shows the lines it lies in. -/
def parse (s : LoadedSource) (start : Start) : Except ParseError Document :=
  (Document.parse start s.file s.text).mapError (·.withSource s.text)

end LoadedSource

end SpecDoc
