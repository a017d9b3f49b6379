import SpecDoc.Node

/-!
# Plain text

The plain text of nodes is what a reader sees without markup. Inline nodes that stand next to each
other share a line; every other node has a line, or lines, of its own.
-/

namespace SpecDoc

/-- The kinds that stand inside a line of text. -/
def Kind.isInline : Kind → Bool
  | .text | .inlineCode | .bold | .italic | .link | .definitionTerm | .nonTerminal | .terminal
  | .call => true
  | _ => false

/-- The text of a leaf. -/
def Leaf.plainText : Leaf → String
  | .importLink path => path
  | .code c => c.text
  | .call name args => name ++ "(" ++ ", ".intercalate args ++ ")"
  | .nonTerminal name => name
  | .terminal value => value
  | .text value => value
  | .inlineCode value => value

/-- A title with the text below it, which may be empty. -/
def titled (title body : String) : String :=
  if body.isEmpty then title else title ++ "\n" ++ body

/-- A piece of text, which shares a line with its neighbours or not. -/
structure TextPiece where
  shares : Bool
  text : String

/-- The lines that pieces of text fill; `line` is the shared line that was begun, if one was. -/
def TextPiece.fill (line : Option String) : List TextPiece → List String
  | [] => line.toList
  | p :: ps =>
    if p.shares then fill (some (line.getD "" ++ p.text)) ps
    else line.toList ++ p.text :: fill none ps

/-- The text that pieces of text fill. -/
def TextPiece.layout (ps : List TextPiece) : String := "\n".intercalate (fill none ps)

namespace Node

mutual

/-- The text of one node as a piece. -/
def textPiece : Node → TextPiece
  | .leaf l _ => ⟨l.kind.isInline, l.plainText⟩
  | .group g _ contents =>
    let pieces := textPieces contents
    match g with
    | .rhs => ⟨false, " ".intercalate (pieces.map (·.text))⟩
    | .numberedSection s => ⟨false, titled s.title (TextPiece.layout pieces)⟩
    | .subsection s => ⟨false, titled s.title (TextPiece.layout pieces)⟩
    | .document (some title) => ⟨false, titled title (TextPiece.layout pieces)⟩
    | _ => ⟨g.kind.isInline, TextPiece.layout pieces⟩
  | .rule _ _ head body => ⟨false, TextPiece.layout (headPieces head ++ textPieces body)⟩

/-- The texts of a sequence of nodes as pieces. -/
def textPieces : List Node → List TextPiece
  | [] => []
  | n :: ns => n.textPiece :: textPieces ns

/-- The text of the head of a rule as a piece, if there is a head. -/
def headPieces : Option Node → List TextPiece
  | none => []
  | some n => [n.textPiece]

end

/-- The text of a head is that of a sequence of at most one node. -/
theorem headPieces_eq (head : Option Node) : headPieces head = textPieces head.toList := by
  cases head <;> simp [headPieces, textPieces]

/-- The text of a group depends on the texts of its contents. -/
theorem textPiece_group_congr {contents contents' : List Node}
    (h : textPieces contents = textPieces contents') (g : Group) (span span' : Option Span) :
    (group g span contents).textPiece = (group g span' contents').textPiece := by
  cases g with
  | document title => cases title <;> simp only [textPiece, h]
  | _ => simp only [textPiece, h]

/-- The plain text of a sequence of nodes. -/
def plainText (ns : List Node) : String := TextPiece.layout (textPieces ns)

end Node

end SpecDoc
