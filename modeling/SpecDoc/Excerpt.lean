import SpecDoc.Text.Line

/-!
# Excerpts

An excerpt shows where an error lies in a source: the line before it, its own line and a caret below
its column, with line numbers in front.
-/

namespace SpecDoc

/-- A number at the right of three columns, or of as many as it needs. -/
def padNumber (n : Nat) : List Char :=
  let digits := (Nat.repr n).toList
  List.replicate (3 - digits.length) ' ' ++ digits

/-- A line of a source behind a mark and its number. -/
def quoteLine (mark : List Char) (number : Nat) (line : List Char) : List Char :=
  mark ++ padNumber number ++ [' ', '|', ' '] ++ line ++ ['\n']

/-- The line with the caret below a column. -/
def caretLine (column : Nat) : List Char := List.replicate (9 + (column - 1)) ' ' ++ ['^', '\n']

/-- The excerpt for a line and a column, both counted from one; nothing for a line that is not there. -/
def excerpt (source : String) (line column : Nat) : String :=
  let lines := Text.lines source.toList
  match line with
  | 0 => ""
  | above + 1 =>
    match lines[above]? with
    | none => ""
    | some text =>
      let before := match above with
        | 0 => []
        | n + 1 => quoteLine [' ', ' ', ' '] above (lines.getD n [])
      String.ofList (before ++ quoteLine ['>', '>', ' '] line text ++ caretLine column)

end SpecDoc
