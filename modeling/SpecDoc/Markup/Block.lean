import SpecDoc.Markup.Inline
import SpecDoc.Markup.LineForm
import SpecDoc.Node.PlainText

/-!
# Blocks

A block starts at a line that is not blank; the form of this line says what it is and how far it goes.
`readBlock` reads the block at a line, and `items` all blocks of a sequence of lines, each with the
number of its first line and the number of lines that follow it within the block.

* `length_tail_le`: a block ends within the lines that follow its first one.
-/

namespace SpecDoc.Markup

open Text

/-- What a block is to the sections around it. -/
inductive Content where
  /-- A heading of a level, with its text. -/
  | heading (level : Nat) (text : List Char)
  /-- The title of a subsection. -/
  | subsection (title : String)
  /-- A block that stands by itself. -/
  | block (node : Node)
  /-- A fence without a partner. -/
  | openFence

/-- A block with the number of its first line, counted from one, and what follows that line in it. -/
structure Item where
  line : Nat
  span : Span
  content : Content

/-- The span of whole lines, the first of which has the number `n`. -/
def linesSpan (file : Option String) (n : Nat) (first : List Char) (more : List (List Char)) :
    Span :=
  { Span.lines n (n + more.length) ((more.getLast?.getD first).length) with file }

/-! ## Text over several lines -/

/-- The trimmed lines of a paragraph with a space between them. -/
def flowText (first : List Char) (more : List (List Char)) : List Char :=
  trim first ++ more.flatMap fun l => ' ' :: trim l

/-- A group of inline nodes. -/
def inlineGroup (g : Group) (span : Option Span) (text : List Char) : Node :=
  .group g span (inlines text)

/-- Turns the first italic node into the term that is defined. -/
def markTerm : List Node → List Node
  | [] => []
  | .group .italic _ contents :: r =>
    .group (.definitionTerm (Node.plainText contents) none) none contents :: r
  | n :: r => n :: markTerm r

/-! ## Code -/

/-- The flags and the language behind a fence. -/
structure FenceInfo where
  lang : Option String
  isExample : Bool
  isCounter : Bool

/-- One more word behind a fence: a flag, or the language if there is none yet. -/
def FenceInfo.add (info : FenceInfo) (word : List Char) : FenceInfo :=
  if word = "example".toList then { info with isExample := true }
  else if word = "counter-example".toList then { info with isExample := true, isCounter := true }
  else if info.lang.isNone then { info with lang := some (String.ofList word) }
  else info

/-- What the words behind a fence say. -/
def FenceInfo.ofText (text : List Char) : FenceInfo := (words text).foldl add ⟨none, false, false⟩

/-- Whether a line closes a block of code. -/
def closesCode (line : List Char) : Bool := trim line == ['\x60', '\x60', '\x60']

/-- The block of code between a fence and the line that closes it. -/
def codeNode (span : Span) (info : List Char) (code : List (List Char)) : Node :=
  let f := FenceInfo.ofText info
  .leaf (.code ⟨f.lang, String.ofList (join ['\n'] code), f.isExample, f.isCounter, none, none⟩)
    (some span)

/-! ## Algorithms and productions -/

/-- The arguments between parentheses: the parts between commas that are not blank. -/
def arguments (text : List Char) : List String :=
  (((cut (· == ',') text).map trim).filter (!·.isEmpty)).map String.ofList

/-- The steps of an algorithm, one on each line of a list; `n` is the number of the first line. -/
def steps (file : Option String) (n : Nat) : List (List Char) → List Node
  | [] => []
  | l :: ls =>
    inlineGroup .listItem (some (linesSpan file n l [])) (((listItem? l).map (·.2)).getD []) ::
      steps file (n + 1) ls

/-- A terminal without the quotes and backticks around it, if there is something between them. -/
def unquote (token : List Char) : List Char :=
  let isQuote := fun c => c == '"' || c == '\x60'
  let bare := ((token.dropWhile isQuote).reverse.dropWhile isQuote).reverse
  if bare.isEmpty then token else bare

/-- One symbol of a right-hand side. -/
def symbol (token : List Char) : Node :=
  if isNonTerminal token then .leaf (.nonTerminal (String.ofList token)) none
  else .leaf (.terminal (String.ofList (unquote token))) none

/-- A right-hand side. -/
def rightHandSide (text : List Char) : Node := .group .rhs none ((words text).map symbol)

/-- A row of a production by enumeration: each of its words is a terminal. -/
def terminalRow (line : List Char) : Node :=
  .group .rhs none ((words line).map fun w => .leaf (.terminal (String.ofList w)) none)

/-- The token that a production defines. -/
def producedToken (name : List Char) : Node := .leaf (.nonTerminal (String.ofList name)) none

/-! ## Lists -/

/-- Whether a line belongs to a list that was begun: it is an item or continues one. -/
def continuesList (line : List Char) : Bool := (listItem? line).isSome || isIndented line

/-- An item of a list: its first line with its number, and its other lines. -/
structure ListEntry where
  start : Nat
  first : List Char
  more : List (List Char)

/-- The node of an item. -/
def ListEntry.node (file : Option String) (e : ListEntry) : Node :=
  inlineGroup .listItem (some (linesSpan file e.start e.first e.more))
    (((listItem? e.first).map (·.2)).getD [] ++ e.more.flatMap fun l => ' ' :: Text.trim l)

/-- The items on the lines of a list, where `e` was begun and `n` is the number of the next line. -/
def listEntries (n : Nat) (e : ListEntry) : List (List Char) → List ListEntry
  | [] => [e]
  | l :: ls =>
    if (listItem? l).isSome then e :: listEntries (n + 1) ⟨n, l, []⟩ ls
    else listEntries (n + 1) { e with more := e.more ++ [l] } ls

/-! ## Reading a block -/

/-- The lines after the first one that belong to the block: those up to the closing fence for code,
and a run of lines that continue it for the other blocks. -/
def blockTail (line : List Char) (rest : List (List Char)) : List (List Char) :=
  if (heading? line).isSome then []
  else if (fence? line).isSome then
    if rest.any closesCode then rest.take ((rest.takeWhile (!closesCode ·)).length + 1) else []
  else if (subsection? line).isSome then []
  else if (algorithm? line).isSome then rest.takeWhile fun l => (listItem? l).isSome
  else
    match production? line with
    | some (_, _, text) =>
      if text = "one of".toList then rest.takeWhile isIndented
      else rest.takeWhile fun l => (alternative? l).isSome
    | none =>
      if (listItem? line).isSome then rest.takeWhile continuesList
      else rest.takeWhile continuesParagraph

/-- The content of the block that starts at a line with the number `n` and goes on with `tail`. -/
def blockContent (file : Option String) (n : Nat) (line : List Char) (tail : List (List Char)) :
    Content :=
  let span := linesSpan file n line tail
  match heading? line with
  | some (level, text) => .heading level text
  | none =>
  match fence? line with
  | some info =>
    match tail with
    | [] => .openFence
    | _ => .block (codeNode span info tail.dropLast)
  | none =>
  match subsection? line with
  | some title => .subsection (String.ofList title)
  | none =>
  match algorithm? line with
  | some (name, args) =>
    .block (.rule (.algorithm none) (some span)
      (some (.leaf (.call (String.ofList name) (arguments args)) none)) (steps file (n + 1) tail))
  | none =>
  match production? line with
  | some (name, colons, text) =>
    if text = "one of".toList then
      .block (.rule (.oneOfProduction (UInt8.ofNat colons) none) (some span)
        (some (producedToken name)) (tail.map terminalRow))
    else
      .block (.rule (.production (UInt8.ofNat colons) none) (some span)
        (some (producedToken name))
        ((if text.isEmpty then [] else [rightHandSide text]) ++
          tail.map fun l => rightHandSide ((alternative? l).getD [])))
  | none =>
  match listItem? line with
  | some (ordered, _) =>
    .block (.group (.list ordered) (some span)
      ((listEntries (n + 1) ⟨n, line, []⟩ tail).map (·.node file)))
  | none =>
  match definition? line with
  | some text =>
    .block (.group .definitionParagraph (some span) (markTerm (inlines (flowText text tail))))
  | none =>
  match remark? line with
  | some (.note, text) =>
    .block (.group (.note none) (some span) [inlineGroup .paragraph none (flowText text tail)])
  | some (.todo, text) =>
    .block (.group .todo (some span) [inlineGroup .paragraph none (flowText text tail)])
  | none => .block (inlineGroup .paragraph (some span) (flowText line tail))

/-- The block that starts at a line. -/
def blockItem (file : Option String) (n : Nat) (line : List Char) (rest : List (List Char)) : Item :=
  let tail := blockTail line rest
  ⟨n, linesSpan file n line tail, blockContent file n line tail⟩

/-- A run of lines is not longer than the lines it is taken from. -/
theorem length_takeWhile_le_length {α : Type} (p : α → Bool) (l : List α) :
    (l.takeWhile p).length ≤ l.length := by
  induction l with
  | nil => simp
  | cons a l ih =>
    rw [List.takeWhile_cons]
    split <;> simp [ih]

/-- A block ends within the lines that follow its first one. -/
theorem length_tail_le (line : List Char) (rest : List (List Char)) :
    (blockTail line rest).length ≤ rest.length := by
  unfold blockTail
  repeat' split
  all_goals first
    | exact Nat.zero_le _
    | exact length_takeWhile_le_length _ _
    | simp only [List.length_take]; exact Nat.min_le_right _ _

/-- The blocks of a sequence of lines, the first of which has the number `n`. -/
def items (file : Option String) (n : Nat) (ls : List (List Char)) : List Item :=
  match ls with
  | [] => []
  | line :: rest =>
    if allBlank line then items file (n + 1) rest
    else
      let extent := (blockTail line rest).length
      blockItem file n line rest :: items file (n + 1 + extent) (rest.drop extent)
termination_by ls.length
decreasing_by
  · simp
  · simp only [List.length_drop, List.length_cons]; omega

end SpecDoc.Markup
