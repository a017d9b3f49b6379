/-!
# Command lines

A command line names a document and may hold options, in any order: long ones with two dashes and short
ones with one, whose values follow as the next word or behind the option itself. Everything behind a
lone `--` is the document.

* `Arguments.parse` reads a command line.
-/

namespace SpecDoc

/-- What a command line asks for. -/
structure Arguments where
  path : String
  config : Option String
  format : Option String
  seeds : List String
  sequential : Bool
  verbosity : Nat

/-- The answer to a command line. -/
inductive Invocation where
  /-- Compile a document. -/
  | compile (arguments : Arguments)
  /-- Tell the version. -/
  | version
  /-- Tell what the options are. -/
  | help
  /-- The command line is not well formed. -/
  | usage

namespace Arguments

/-- An option that takes a value. -/
inductive ValueOption where
  | config
  | format
  | seed

/-- An option without a value. -/
inductive Flag where
  | sequential
  | verbose
  | version
  | help

/-- What was read so far. The path is there once it was read. -/
structure Draft where
  path : Option String
  config : Option String
  format : Option String
  seeds : List String
  sequential : Bool
  verbosity : Nat

/-- Nothing was read yet. -/
def Draft.empty : Draft := ⟨none, none, none, [], false, 0⟩

/-- Gives an option its value; only seeds may be given several times. -/
def setValue? (d : Draft) (o : ValueOption) (value : String) : Option Draft :=
  match o with
  | .config => if d.config.isSome then none else some { d with config := some value }
  | .format => if d.format.isSome then none else some { d with format := some value }
  | .seed => some { d with seeds := d.seeds ++ [value] }

/-- Takes a flag in, or answers at once. -/
def setFlag (d : Draft) (f : Flag) : Except Invocation Draft :=
  match f with
  | .sequential => if d.sequential then .error .usage else .ok { d with sequential := true }
  | .verbose => .ok { d with verbosity := d.verbosity + 1 }
  | .version => .error .version
  | .help => .error .help

/-- The option of a long name. -/
def long? (name : List Char) : Option (Sum ValueOption Flag) :=
  if name = "config".toList then some (.inl .config)
  else if name = "format".toList then some (.inl .format)
  else if name = "biblio".toList then some (.inl .seed)
  else if name = "sequential".toList then some (.inr .sequential)
  else if name = "verbose".toList then some (.inr .verbose)
  else if name = "version".toList then some (.inr .version)
  else if name = "help".toList then some (.inr .help)
  else none

/-- The option of a letter. -/
def short? (c : Char) : Option (Sum ValueOption Flag) :=
  if c = 'c' then some (.inl .config)
  else if c = 'f' then some (.inl .format)
  else if c = 'b' then some (.inl .seed)
  else if c = 'v' then some (.inr .verbose)
  else if c = 'V' then some (.inr .version)
  else if c = 'h' then some (.inr .help)
  else none

/-- Reads the document; there is only one. -/
def setPath (d : Draft) (path : String) : Except Invocation Draft :=
  if d.path.isSome then .error .usage else .ok { d with path := some path }

/-- Gives an option the value that stands behind it in the same word. -/
def attach (d : Draft) (o : ValueOption) (value : List Char) : Except Invocation Draft :=
  match setValue? d o (String.ofList value) with
  | none => .error .usage
  | some d => .ok d

/-- Reads a word of short options. The option at its end may wait for its value. -/
def readShort (d : Draft) : List Char → Except Invocation (Draft × Option ValueOption)
  | [] => .ok (d, none)
  | c :: r =>
    match short? c with
    | none => .error .usage
    | some (.inr f) =>
      match setFlag d f with
      | .error i => .error i
      | .ok d => readShort d r
    | some (.inl o) =>
      match r with
      | [] => .ok (d, some o)
      | '=' :: value => (attach d o value).map fun d => (d, none)
      | value => (attach d o value).map fun d => (d, none)

/-- Reads a long option, which may wait for its value. -/
def readLong (d : Draft) (word : List Char) : Except Invocation (Draft × Option ValueOption) :=
  let name := word.takeWhile (· != '=')
  match long? name, word.dropWhile (· != '=') with
  | none, _ => .error .usage
  | some (.inr f), [] => (setFlag d f).map fun d => (d, none)
  | some (.inr _), _ => .error .usage
  | some (.inl o), [] => .ok (d, some o)
  | some (.inl o), _ :: value => (attach d o value).map fun d => (d, none)

/-- Whether a word starts with a dash and is no lone dash. -/
def looksLikeOption (word : List Char) : Bool :=
  match word with
  | '-' :: _ :: _ => true
  | _ => false

/-- Reads the words of a command line; `awaiting` is an option that has no value yet. -/
def readWords (d : Draft) (awaiting : Option ValueOption) : List String → Except Invocation Draft
  | [] => if awaiting.isSome then .error .usage else .ok d
  | word :: words =>
    let cs := word.toList
    match awaiting with
    | some o =>
      if looksLikeOption cs then .error .usage
      else
        match attach d o cs with
        | .error i => .error i
        | .ok d => readWords d none words
    | none =>
      match cs with
      | ['-', '-'] => words.foldlM setPath d
      | '-' :: '-' :: name =>
        match readLong d name with
        | .error i => .error i
        | .ok (d, awaiting) => readWords d awaiting words
      | '-' :: c :: r =>
        match readShort d (c :: r) with
        | .error i => .error i
        | .ok (d, awaiting) => readWords d awaiting words
      | _ =>
        match setPath d word with
        | .error i => .error i
        | .ok d => readWords d none words

/-- Reads a command line. -/
def parse (words : List String) : Invocation :=
  match readWords .empty none words with
  | .error i => i
  | .ok d =>
    match d.path with
    | none => .usage
    | some path => .compile ⟨path, d.config, d.format, d.seeds, d.sequential, d.verbosity⟩

end Arguments

end SpecDoc
