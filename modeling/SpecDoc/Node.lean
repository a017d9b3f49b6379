import SpecDoc.SectionId
import SpecDoc.Span

/-!
# The document tree

A node has one of three shapes. A *leaf* has no children, a *group* has a sequence of children, and a
*rule* has a head, which may be missing, and a sequence of children below it. What else belongs to a
node, its titles, texts, numbers and anchors, is in its `Leaf`, `Group` or `Rule` value.

* `Node.slots` lists the slots of a node, and `Node.children` the nodes right below it, a rule's head first.
-/

namespace SpecDoc

/-! ## Kinds -/

/-- The kinds of nodes. -/
inductive Kind where
  | document
  | importLink
  | numberedSection
  | subsection
  | paragraph
  | definitionParagraph
  | definitionTerm
  | note
  | todo
  | list
  | listItem
  | code
  | algorithm
  | call
  | production
  | oneOfProduction
  | rhs
  | nonTerminal
  | terminal
  | text
  | inlineCode
  | bold
  | italic
  | link
deriving DecidableEq

/-- The name of a kind. -/
def Kind.name : Kind → String
  | .document => "Document"
  | .importLink => "Import"
  | .numberedSection => "Section"
  | .subsection => "Subsection"
  | .paragraph => "Paragraph"
  | .definitionParagraph => "DefinitionParagraph"
  | .definitionTerm => "DefinitionTerm"
  | .note => "Note"
  | .todo => "Todo"
  | .list => "List"
  | .listItem => "ListItem"
  | .code => "Code"
  | .algorithm => "Algorithm"
  | .call => "Call"
  | .production => "Production"
  | .oneOfProduction => "OneOfProduction"
  | .rhs => "Rhs"
  | .nonTerminal => "NonTerminal"
  | .terminal => "Terminal"
  | .text => "Text"
  | .inlineCode => "InlineCode"
  | .bold => "Bold"
  | .italic => "Italic"
  | .link => "Link"

/-! ## What nodes hold -/

/-- A block of code. Only an example, which may be a counter-example, gets a number and an anchor. -/
structure Code where
  lang : Option String
  text : String
  isExample : Bool
  isCounter : Bool
  number : Option UInt32
  id : Option String
deriving DecidableEq

/-- A numbered section. The override is the numbering token written in its heading. -/
structure Section where
  title : String
  override : Option String
  secId : SectionId
  number : Option String
  id : Option String
deriving DecidableEq

/-- A titled part of a section, which has the section's id and an anchor of its own. -/
structure Subsection where
  title : String
  secId : SectionId
  id : Option String
deriving DecidableEq

/-- The nodes without children. -/
inductive Leaf where
  | importLink (path : String)
  | code (code : Code)
  | call (name : String) (args : List String)
  | nonTerminal (name : String)
  | terminal (value : String)
  | text (value : String)
  | inlineCode (value : String)
deriving DecidableEq

/-- The nodes with one sequence of children. -/
inductive Group where
  | document (title : Option String)
  | numberedSection (s : Section)
  | subsection (s : Subsection)
  | paragraph
  | definitionParagraph
  | definitionTerm (name : String) (id : Option String)
  | note (id : Option String)
  | todo
  | list (ordered : Bool)
  | listItem
  | rhs
  | bold
  | italic
  | link (url : String)
deriving DecidableEq

/-- The nodes with a head and a sequence of children: an algorithm has its call as head and steps below
it; a production has its token as head and right-hand sides or rows of terminals below it. -/
inductive Rule where
  | algorithm (id : Option String)
  | production (defType : UInt8) (id : Option String)
  | oneOfProduction (defType : UInt8) (id : Option String)
deriving DecidableEq

/-- A node of the document tree. -/
inductive Node where
  | leaf (l : Leaf) (span : Option Span)
  | group (g : Group) (span : Option Span) (contents : List Node)
  | rule (r : Rule) (span : Option Span) (head : Option Node) (body : List Node)

/-- A document: a title, if there is one, and its contents. -/
structure Document where
  title : Option String
  contents : List Node
  span : Option Span

namespace Leaf

/-- The kind of a leaf. -/
def kind : Leaf → Kind
  | .importLink _ => .importLink
  | .code _ => .code
  | .call _ _ => .call
  | .nonTerminal _ => .nonTerminal
  | .terminal _ => .terminal
  | .text _ => .text
  | .inlineCode _ => .inlineCode

/-- The anchor of a leaf, once it has one. -/
def id? : Leaf → Option String
  | .code c => c.id
  | _ => none

/-- What a leaf is called in outlines and messages. -/
def label? : Leaf → Option String
  | .importLink path => some path
  | .code c => c.lang
  | .call name _ => some name
  | .nonTerminal name => some name
  | .terminal value => some value
  | .text value => some value
  | .inlineCode value => some value

end Leaf

namespace Group

/-- The kind of a group. -/
def kind : Group → Kind
  | .document _ => .document
  | .numberedSection _ => .numberedSection
  | .subsection _ => .subsection
  | .paragraph => .paragraph
  | .definitionParagraph => .definitionParagraph
  | .definitionTerm _ _ => .definitionTerm
  | .note _ => .note
  | .todo => .todo
  | .list _ => .list
  | .listItem => .listItem
  | .rhs => .rhs
  | .bold => .bold
  | .italic => .italic
  | .link _ => .link

/-- The anchor of a group, once it has one. -/
def id? : Group → Option String
  | .numberedSection s => s.id
  | .subsection s => s.id
  | .definitionTerm _ id => id
  | .note id => id
  | _ => none

/-- What a group is called in outlines and messages. -/
def label? : Group → Option String
  | .document title => title
  | .numberedSection s => some s.title
  | .subsection s => some s.title
  | .definitionTerm name _ => some name
  | .link url => some url
  | _ => none

/-- The name of the slot that holds the children. -/
def slotName : Group → String
  | .list _ => "items"
  | .rhs => "tokens"
  | _ => "contents"

end Group

namespace Rule

/-- The kind of a rule. -/
def kind : Rule → Kind
  | .algorithm _ => .algorithm
  | .production _ _ => .production
  | .oneOfProduction _ _ => .oneOfProduction

/-- The anchor of a rule, once it has one. -/
def id? : Rule → Option String
  | .algorithm id => id
  | .production _ id => id
  | .oneOfProduction _ id => id

/-- The name of the slot that holds the head. -/
def headName : Rule → String
  | .algorithm _ => "call"
  | _ => "token"

/-- The name of the slot that holds the children below the head. -/
def bodyName : Rule → String
  | .algorithm _ => "steps"
  | .production _ _ => "rhs"
  | .oneOfProduction _ _ => "rows"

/-- The name that a head gives to a rule: an algorithm is named by a call, a production by a
non-terminal. -/
def name? : Rule → Option Node → Option String
  | .algorithm _, some (.leaf (.call name _) _) => some name
  | .production _ _, some (.leaf (.nonTerminal name) _) => some name
  | .oneOfProduction _ _, some (.leaf (.nonTerminal name) _) => some name
  | _, _ => none

/-- The name of a rule depends on its kind and its head. -/
theorem name?_eq_of_kind {r r' : Rule} (h : r'.kind = r.kind) (head : Option Node) :
    r'.name? head = r.name? head := by
  rcases head with _ | (⟨l, span⟩ | _ | _)
  · cases r <;> cases r' <;> rfl
  · cases l <;> cases r <;> cases r' <;> first | rfl | cases h
  · cases r <;> cases r' <;> rfl
  · cases r <;> cases r' <;> rfl

/-- What a rule with a given head is called in outlines and messages. -/
def label? (r : Rule) (head : Option Node) : Option String :=
  match r with
  | .algorithm _ => (r.name? head).map (· ++ "()")
  | _ => r.name? head

end Rule

/-- A slot for children: at most one node, or a sequence. -/
inductive Slot where
  | one (name : String) (node : Option Node)
  | sequence (name : String) (nodes : List Node)

namespace Slot

/-- The name of a slot. -/
def name : Slot → String
  | .one name _ => name
  | .sequence name _ => name

/-- Whether a slot holds at most one node. -/
def isOne : Slot → Bool
  | .one _ _ => true
  | .sequence _ _ => false

/-- The nodes in a slot. -/
def nodes : Slot → List Node
  | .one _ node => node.toList
  | .sequence _ nodes => nodes

end Slot

namespace Node

/-- The kind of a node. -/
def kind : Node → Kind
  | .leaf l _ => l.kind
  | .group g _ _ => g.kind
  | .rule r _ _ _ => r.kind

/-- Where a node was read, if that is known. -/
def span? : Node → Option Span
  | .leaf _ span => span
  | .group _ span _ => span
  | .rule _ span _ _ => span

/-- The anchor of a node, once it has one. -/
def id? : Node → Option String
  | .leaf l _ => l.id?
  | .group g _ _ => g.id?
  | .rule r _ _ _ => r.id?

/-- What a node is called in outlines and messages: a title, a name or the text of a leaf. -/
def label? : Node → Option String
  | .leaf l _ => l.label?
  | .group g _ _ => g.label?
  | .rule r _ head _ => r.label? head

/-- Whether a node is an import. -/
def isImport (n : Node) : Bool := n.kind == .importLink

/-- The slots of a node, in order. -/
def slots : Node → List Slot
  | .leaf _ _ => []
  | .group g _ contents => [.sequence g.slotName contents]
  | .rule r _ head body => [.one r.headName head, .sequence r.bodyName body]

/-- The nodes right below a node. -/
def children : Node → List Node
  | .leaf _ _ => []
  | .group _ _ contents => contents
  | .rule _ _ head body => head.toList ++ body

/-- Whether there is a node below a node. -/
def hasChildren (n : Node) : Bool := !n.children.isEmpty

/-- The node with empty slots. -/
def shell : Node → Node
  | .leaf l span => .leaf l span
  | .group g span _ => .group g span []
  | .rule r span _ _ => .rule r span none []

/-- The node with the given nodes in its slots, in their order; a head is the first of its nodes. -/
def withSlots (n : Node) (filled : List (List Node)) : Node :=
  match n, filled with
  | .group g span _, [contents] => .group g span contents
  | .rule r span _ _, [head, body] => .rule r span head.head? body
  | n, _ => n

end Node

namespace Document

/-- The document as a node. -/
def toNode (d : Document) : Node := .group (.document d.title) d.span d.contents

/-- The document that a node is, if it is one. -/
def ofNode? : Node → Option Document
  | .group (.document title) span contents => some ⟨title, contents, span⟩
  | _ => none

/-- A document is read back from its node. -/
@[simp]
theorem ofNode?_toNode (d : Document) : ofNode? d.toNode = some d := rfl

end Document

end SpecDoc
