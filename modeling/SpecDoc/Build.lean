import SpecDoc.Markup.LineForm
import SpecDoc.Node

/-!
# Building trees

Short constructors for trees without places, numbers and anchors, as they are before annotation.
-/

namespace SpecDoc.Build

/-- A document with a title. -/
def document (title : String) (contents : List Node) : Document := ⟨some title, contents, none⟩

/-- A document without a title, as it stands for an import. -/
def fragment (contents : List Node) : Document := ⟨none, contents, none⟩

/-- A section with a numbering token or without. -/
def numberedSection (override : Option String) (title : String) (contents : List Node) : Node :=
  .group (.numberedSection ⟨title, override, [], none, none⟩) none contents

/-- A subsection. -/
def subsection (title : String) (contents : List Node) : Node :=
  .group (.subsection ⟨title, [], none⟩) none contents

/-- An import. -/
def importLink (path : String) : Node := .leaf (.importLink path) none

/-- A text. -/
def text (value : String) : Node := .leaf (.text value) none

/-- A paragraph of one text. -/
def paragraph (value : String) : Node := .group .paragraph none [text value]

/-- A note of one paragraph. -/
def note (value : String) : Node := .group (.note none) none [paragraph value]

/-- An item of one text. -/
def listItem (value : String) : Node := .group .listItem none [text value]

/-- A list without numbers. -/
def list (items : List String) : Node := .group (.list false) none (items.map listItem)

/-- An example, or a counter-example. -/
def exampleCode (isCounter : Bool) (code : String) : Node :=
  .leaf (.code ⟨none, code, true, isCounter, none, none⟩) none

/-- An algorithm with its arguments and steps. -/
def algorithm (name : String) (args steps : List String) : Node :=
  .rule (.algorithm none) none (some (.leaf (.call name args) none)) (steps.map listItem)

/-- A symbol: a word that starts with a capital letter of ASCII is the name of a production. -/
def symbol (word : List Char) : Node :=
  if word.head?.any Char.isUpper then .leaf (.nonTerminal (String.ofList word)) none
  else .leaf (.terminal (String.ofList word)) none

/-- A production with a right-hand side for each alternative. -/
def production (name : String) (alternatives : List String) : Node :=
  .rule (.production 1 none) none (some (.leaf (.nonTerminal name) none))
    (alternatives.map fun a => .group .rhs none ((Text.words a.toList).map symbol))

/-- A definition of a term, which stands in front. -/
def definition (term rest : String) : Node :=
  .group .definitionParagraph none
    [.group (.definitionTerm term none) none [text term], text rest]

/-- Italic text. -/
def italic (value : String) : Node := .group .italic none [text value]

end SpecDoc.Build
