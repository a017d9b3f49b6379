import SpecDoc.Node

/-!
# Outlines

The outline of a document has one line per block: its kind, its number, its label in quotes and its
anchor after a number sign, each if there is one, indented by two spaces a level.
-/

namespace SpecDoc

/-- The kinds that have no line in an outline: they stand inside a block. -/
def Kind.isHidden : Kind → Bool
  | .text | .inlineCode | .bold | .italic | .link | .call | .rhs | .nonTerminal | .terminal => true
  | _ => false

namespace Node

/-- The number shown in an outline. -/
def outlineNumber? : Node → Option String
  | .leaf (.code c) _ => c.number.map fun n => Nat.repr n.toNat
  | .group (.numberedSection s) _ _ => s.number
  | _ => none

/-- A text behind a lead, if there is one. -/
def behind (lead : String) (text? : Option String) (close : String) : String :=
  match text? with
  | none => ""
  | some text => lead ++ text ++ close

/-- The line of a node, without its children. -/
def outlineLine (level : Nat) (n : Node) : String :=
  String.ofList (List.replicate (2 * level) ' ') ++ n.kind.name ++ behind " " n.outlineNumber? "" ++
    behind " \"" n.label? "\"" ++ behind " #" n.id? "" ++ "\n"

mutual

/-- The lines of a node and the nodes below it, inside `level` others. -/
def outlineAt (level : Nat) : Node → String
  | .leaf l span => if l.kind.isHidden then "" else outlineLine level (.leaf l span)
  | .group g span contents =>
    if g.kind.isHidden then ""
    else outlineLine level (.group g span contents) ++ outlineAll (level + 1) contents
  | .rule r span head body =>
    if r.kind.isHidden then ""
    else
      outlineLine level (.rule r span head body) ++ outlineHead (level + 1) head ++
        outlineAll (level + 1) body

/-- The lines of a sequence of nodes. -/
def outlineAll (level : Nat) : List Node → String
  | [] => ""
  | n :: ns => outlineAt level n ++ outlineAll level ns

/-- The lines of the head of a rule. -/
def outlineHead (level : Nat) : Option Node → String
  | none => ""
  | some n => outlineAt level n

end

end Node

/-- The outline of a document. -/
def Document.outline (d : Document) : String :=
  "Document" ++ Node.behind " \"" d.title "\"" ++ "\n" ++ Node.outlineAll 1 d.contents

end SpecDoc
