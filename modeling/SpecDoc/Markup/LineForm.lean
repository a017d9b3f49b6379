import SpecDoc.Text.Blank
import SpecDoc.Text.Word

/-!
# Forms of lines

Most blocks are recognised by the form of their first line. There is one recogniser for each form; it
answers with the parts of the line that matter.

* `startsBlock` says whether a line cannot continue a paragraph.
-/

namespace SpecDoc.Markup

open Text

/-! ## Headings -/

/-- A heading is one to six number signs and blanks before a text: its level and the trimmed text. -/
def heading? (line : List Char) : Option (Nat × List Char) :=
  let level := (line.takeWhile (· == '#')).length
  match line.dropWhile (· == '#') with
  | [] => none
  | c :: r => if 1 ≤ level && level ≤ 6 && isBlank c then some (level, trim (c :: r)) else none

/-- The target in front of a closing parenthesis that ends the text; it is not empty and holds no such
parenthesis itself. -/
def closedTarget? (s : List Char) : Option (List Char) :=
  let target := s.dropLast
  if s.getLast? = some ')' ∧ target ≠ [] ∧ ')' ∉ target then some target else none

/-- The target behind the last `](` that is followed by a closed one. -/
def lastTarget? : List Char → Option (List Char)
  | [] => none
  | c :: r =>
    match lastTarget? r with
    | some target => some target
    | none =>
      match c, r with
      | ']', '(' :: t => closedTarget? t
      | _, _ => none

/-- A heading text is an import when it is a link: the path that it links to. -/
def importPath? (text : List Char) : Option (List Char) :=
  match text with
  | '[' :: r => lastTarget? r
  | _ => none

/-- The characters of a numbering token, points apart. -/
def isTokenChar (c : Char) : Bool := c.isDigit || c.isUpper || c == '*'

/-- The numbering token at the start of a heading text and the title behind it. A token has a point,
within it or at its end; the point at its end is dropped. -/
def numberingToken? (text : List Char) : Option (List Char × List Char) :=
  let run := text.takeWhile fun c => isTokenChar c || c == '.'
  let rest := text.dropWhile fun c => isTokenChar c || c == '.'
  let token := if run.getLast? = some '.' then run.dropLast else run
  let title := trimStart rest
  if '.' ∈ run ∧ (cut (· == '.') token).all (!·.isEmpty) ∧ title.length < rest.length ∧ title ≠ []
  then some (token, title)
  else none

/-! ## Blocks -/

/-- A fence is three backticks: the trimmed text behind them. -/
def fence? (line : List Char) : Option (List Char) :=
  match line with
  | '\x60' :: '\x60' :: '\x60' :: r => some (trim r)
  | _ => none

/-- A subsection is a title between pairs of asterisks: the trimmed title. -/
def subsection? (line : List Char) : Option (List Char) :=
  match line with
  | '*' :: '*' :: r =>
    let title := r.takeWhile (· != '*')
    match r.dropWhile (· != '*') with
    | '*' :: '*' :: t => if title ≠ [] ∧ allBlank t then some (trim title) else none
    | _ => none
  | _ => none

/-- A name starts with an ASCII letter or `_` and goes on with word characters: it and what follows. -/
def wordName? (s : List Char) : Option (List Char × List Char) :=
  match s with
  | [] => none
  | c :: r =>
    if c.isAlpha || c == '_' then some (c :: r.takeWhile isWordChar, r.dropWhile isWordChar) else none

/-- An algorithm is a name, arguments in parentheses and a colon: the name and the arguments. -/
def algorithm? (line : List Char) : Option (List Char × List Char) :=
  match wordName? line with
  | some (name, '(' :: r) =>
    match r.dropWhile (· != ')') with
    | ')' :: t =>
      match trimStart t with
      | ':' :: u => if allBlank u then some (name, r.takeWhile (· != ')')) else none
      | _ => none
    | _ => none
  | _ => none

/-- The characters of the name of a production after its first one. -/
def isNameChar (c : Char) : Bool := c.isAlphanum || c == '_'

/-- The name of a production starts with a capital letter: it and what follows. -/
def productionName? (s : List Char) : Option (List Char × List Char) :=
  match s with
  | [] => none
  | c :: r => if c.isUpper then some (c :: r.takeWhile isNameChar, r.dropWhile isNameChar) else none

/-- A production is a name, blanks, one to three colons and maybe a text behind blanks: the name, the
number of colons and the trimmed text. -/
def production? (line : List Char) : Option (List Char × Nat × List Char) :=
  match productionName? line with
  | some (name, c :: r) =>
    let colons := (trimStart r).takeWhile (· == ':')
    let rest := (trimStart r).dropWhile (· == ':')
    if isBlank c ∧ 1 ≤ colons.length ∧ colons.length ≤ 3 ∧ (rest.head?.all isBlank) then
      some (name, colons.length, trim rest)
    else none
  | _ => none

/-- Whether a token of a right-hand side is the name of a production. -/
def isNonTerminal (token : List Char) : Bool :=
  match productionName? token with
  | some (_, []) => true
  | _ => false

/-- The marker of a list item and what follows it: a dash, an asterisk, or a number and a point. The
marker says whether the list is ordered. -/
def listMarker? (s : List Char) : Option (Bool × List Char) :=
  match s with
  | [] => none
  | c :: r =>
    if c = '-' ∨ c = '*' then some (false, r)
    else if isDigit c then
      match r.dropWhile isDigit with
      | '.' :: t => some (true, t)
      | _ => none
    else none

/-- A list item is a marker, maybe behind blanks, and blanks before a text: whether its list is ordered
and the text. -/
def listItem? (line : List Char) : Option (Bool × List Char) :=
  match listMarker? (trimStart line) with
  | some (ordered, c :: r) => if isBlank c then some (ordered, trimStart r) else none
  | _ => none

/-- An alternative of a production is a dash between blanks before a text: the text. -/
def alternative? (line : List Char) : Option (List Char) :=
  match line with
  | b :: s =>
    match trimStart s with
    | '-' :: c :: r => if isBlank b && isBlank c then some (trimStart r) else none
    | _ => none
  | [] => none

/-- The two kinds of remarks. -/
inductive Remark where
  | note
  | todo
deriving DecidableEq

/-- A remark is a word and a colon before a text: its kind and the text. -/
def remark? (line : List Char) : Option (Remark × List Char) :=
  match line with
  | 'N' :: 'o' :: 't' :: 'e' :: ':' :: r => some (.note, trimStart r)
  | 'T' :: 'O' :: 'D' :: 'O' :: ':' :: r => some (.todo, trimStart r)
  | _ => none

/-- A definition starts with two colons: the text behind them. -/
def definition? (line : List Char) : Option (List Char) :=
  match line with
  | ':' :: ':' :: r => some r
  | _ => none

/-! ## Continuation -/

/-- Whether a line starts a block of its own and so ends a paragraph before it. A production does
not. -/
def startsBlock (line : List Char) : Bool :=
  (heading? line).isSome || (fence? line).isSome || (subsection? line).isSome ||
    (algorithm? line).isSome || (listItem? line).isSome || (remark? line).isSome ||
    (definition? line).isSome

/-- Whether a line continues the paragraph before it. -/
def continuesParagraph (line : List Char) : Bool := !allBlank line && !startsBlock line

/-- Whether a line is indented: it starts with a blank and is not blank. -/
def isIndented (line : List Char) : Bool := line.head?.any isBlank && !allBlank line

end SpecDoc.Markup
