import SpecDoc.Markup.Nesting
import SpecDoc.Text.Line

/-!
# Sources of documents

`Document.parse` reads a document from its source: the lines, their blocks and the nesting of these.
-/

namespace SpecDoc

open Markup Text

/-- The title heading of a document: the title, the number of the next line and the lines from there.
Blank lines may stand before it. Without one the number of the line at fault is told. -/
def Markup.titleLine (n : Nat) : List (List Char) →
    Except Nat (List Char × Nat × List (List Char))
  | [] => .error 1
  | l :: ls =>
    if allBlank l then titleLine (n + 1) ls
    else
      match heading? l with
      | some (1, text) =>
        if text ≠ [] ∧ importPath? text = none then .ok (text, n + 1, ls) else .error n
      | _ => .error n

/-- The span of all lines of a source, if there are any. -/
def Markup.sourceSpan (file : Option String) : List (List Char) → Option Span
  | [] => none
  | l :: ls => some (linesSpan file 1 l ls)

/-- Reads a document. At the start of a run the first line that is not blank is its title; in the place
of an import there is no title. -/
def Document.parse (start : Start) (file : Option String) (source : String) :
    Except ParseError Document :=
  let ls := lines source.toList
  let titled : Except Nat (Option String × Nat × List (List Char)) :=
    match start with
    | .initial => (titleLine 1 ls).map fun (title, n, rest) => (some (String.ofList title), n, rest)
    | .imported => .ok (none, 1, ls)
  match titled with
  | .error n => .error (Nesting.problemAt file n .missingTitle)
  | .ok (title, n, rest) =>
    match Nesting.ofItems start file (items file n rest) with
    | .error e => .error e
    | .ok contents => .ok ⟨title, contents, sourceSpan file ls⟩

end SpecDoc
