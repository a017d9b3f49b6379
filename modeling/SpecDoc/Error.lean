import SpecDoc.Excerpt
import SpecDoc.Span
import SpecDoc.Text.Blank

/-!
# Errors

What can go wrong on the way from a source to an annotated document, and how it is told.

* `ParseError`: a source is not well formed;
* `ImportError`: a file could not be had;
* `NumberingError`: a numbering token does not fit the sections before it;
* `StructuralError`: a document cannot be annotated.
-/

namespace SpecDoc

/-- The files whose imports led to a failure, the innermost first, one a line. -/
def chainText (chain : List String) : String :=
  String.join (chain.reverse.map fun file => "\n  imported from " ++ file)

/-- A span in front of a message, if it is known. -/
def spanText (span : Option Span) : String :=
  match span with
  | none => ""
  | some span => s!"{span}: "

/-! ## Sources that are not well formed -/

/-- What is wrong with a source. -/
inductive ParseProblem where
  /-- A document starts with something else than its title. -/
  | missingTitle
  /-- A heading lies more than one level below the section around it. -/
  | skippedLevel (found allowed : Nat)
  /-- A block of code has no end. -/
  | unterminatedCode
  /-- A problem that another reader tells in its own words. -/
  | other (message : String)
deriving DecidableEq

/-- The problem in words. -/
def ParseProblem.message : ParseProblem → String
  | .missingTitle => "Document must begin with a # Title"
  | .skippedLevel found allowed =>
    s!"Heading level skipped: found {found} '#' where at most {allowed} were expected"
  | .unterminatedCode => "Unterminated code block"
  | .other message => message

/-- A problem of a source and where it lies. The chain holds the files whose imports led there, the
outermost first. -/
structure ParseError where
  file : Option String
  line : Nat
  column : Nat
  problem : ParseProblem
  context : Option String
  chain : List String
deriving DecidableEq

namespace ParseError

/-- The error with an excerpt of its source. -/
def withSource (e : ParseError) (source : String) : ParseError :=
  { e with context := some (excerpt source e.line e.column) }

/-- The error in words. -/
def message (e : ParseError) : String :=
  let file := match e.file with
    | none => ""
    | some file => file ++ ":"
  let context := match e.context with
    | none => ""
    | some text => "\n\n" ++ String.ofList (Text.trimEnd text.toList)
  file ++ s!"{e.line}:{e.column}: " ++ e.problem.message ++ context ++ chainText e.chain

end ParseError

/-! ## Files that could not be had -/

/-- Why a file could not be had. -/
inductive ImportProblem where
  /-- There is no such file. -/
  | missing
  /-- The file is there and cannot be read. -/
  | unreadable (reason : String)
  /-- The file is one of those that led to it. -/
  | cycle
  /-- The run was cancelled before. -/
  | cancelled
deriving DecidableEq

/-- A file that could not be had, the files whose imports led to it, the outermost first, and where it
is imported. -/
structure ImportError where
  problem : ImportProblem
  path : String
  chain : List String
  span : Option Span
deriving DecidableEq

/-- The error in words. -/
def ImportError.message (e : ImportError) : String :=
  spanText e.span ++
    (match e.problem with
    | .missing => "Cannot import " ++ e.path ++ ": file not found"
    | .unreadable reason => "Cannot import " ++ e.path ++ ": " ++ reason
    | .cycle => "Cannot import " ++ e.path ++ ": import cycle"
    | .cancelled => "Import of " ++ e.path ++ " cancelled") ++
    chainText e.chain

/-! ## Numbering tokens that do not fit -/

/-- Why a section cannot have the number that its heading asks for. -/
inductive NumberingProblem where
  /-- The token is neither a number nor letters. -/
  | unsupported
  /-- A number after a lettered section. -/
  | letterToNumber
  /-- Letters other than `A` after a numbered section. -/
  | numberToLetter
  /-- A part that does not come after that of the section before. -/
  | notIncreasing
  /-- A number that is too great. -/
  | outOfRange
deriving DecidableEq

/-- A section whose number does not fit: its token as written, the part of the section before it, the
part it would have without a token, its title and where it stands. -/
structure NumberingError where
  problem : NumberingProblem
  found : String
  previous : Option String
  expected : Option String
  title : String
  span : Option Span
deriving DecidableEq

/-- The error in words. -/
def NumberingError.message (e : NumberingError) : String :=
  let previous := e.previous.getD "?"
  let expected := e.expected.getD "?"
  let reason := match e.problem with
    | .unsupported => "Section numbering '" ++ e.found ++ "' is not yet supported"
    | .letterToNumber =>
      "Cannot change to numbered section " ++ e.found ++ " after lettered section " ++ previous
    | .numberToLetter =>
      "Cannot change to lettered section " ++ e.found ++ " after numbered section " ++ previous ++
        ", lettered sections start at A"
    | .notIncreasing =>
      "Cannot change to section number " ++ e.found ++ " which would be earlier than " ++ expected
    | .outOfRange =>
      if e.found.isEmpty then
        "Cannot number the section after " ++ previous ++ ", the number is out of range"
      else "Section number " ++ e.found ++ " is out of range"
  spanText e.span ++ reason ++ " (in section \"" ++ e.title ++ "\")"

/-! ## Documents that cannot be annotated -/

/-- Why a document cannot be annotated. -/
inductive StructuralError where
  /-- The document has no title. -/
  | missingTitle
  /-- The document still holds an import. -/
  | unresolvedImport (path : String) (span : Option Span)
deriving DecidableEq

/-- The error in words. -/
def StructuralError.message : StructuralError → String
  | .missingTitle => "Document must begin with a # Title"
  | .unresolvedImport path span => spanText span ++ "Unresolved import of " ++ path

/-! ## All errors -/

/-- Any failure of a compilation. -/
inductive CompileError where
  | parse (e : ParseError)
  | importing (e : ImportError)
  | numbering (e : NumberingError)
  | structural (e : StructuralError)
deriving DecidableEq

namespace CompileError

/-- The failure in words, without its stage. -/
def reason : CompileError → String
  | .parse e => e.message
  | .importing e => e.message
  | .numbering e => e.message
  | .structural e => e.message

/-- The failure in words. -/
def message : CompileError → String
  | .parse e => "Parse error: " ++ e.message
  | .importing e => "Import error: " ++ e.message
  | .numbering e => "Numbering error: " ++ e.message
  | .structural e => "Invalid document: " ++ e.message

end CompileError

end SpecDoc
