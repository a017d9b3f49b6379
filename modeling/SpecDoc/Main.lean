import SpecDoc.Command

/-!
# The program

The program reads the files that its command line needs, runs the command on them and prints what it
leaves.
-/

namespace SpecDoc.Program

/-- Why a file could not be read. -/
def failureOf (e : IO.Error) : ReadFailure :=
  match e with
  | .noFileOrDirectory _ _ _ => .missing
  | .inappropriateType _ 20 _ => .notDirectory
  | .inappropriateType _ 21 _ => .directory
  | .permissionDenied _ code details => .other s!"{details} (os error {code})"
  | .invalidArgument _ code details => .other s!"{details} (os error {code})"
  | e => .other e.toString

/-- Reads the file at a path. -/
def readFile (path : String) : IO (Except ReadFailure String) := do
  if '\x00' ∈ path.toList then
    return .error .nulInPath
  try
    let handle ← IO.FS.Handle.mk path .read
    match String.fromUTF8? (← handle.readBinToEnd) with
    | some text => return .ok text
    | none => return .error .notText
  catch e => return .error (failureOf e)

/-- The files that were read, by their paths. -/
abbrev Files := List (String × Except ReadFailure String)

/-- Reads one more file. -/
def addFile (known : Files) (path : String) : IO Files := do
  if (known.lookup path).isSome then
    return known
  return (path, ← readFile path) :: known

/-- Reads a document and all files that it imports, directly or through others. -/
partial def addDocument (known : Files) (start : Start) (path : Path) : IO Files := do
  let name := path.toString
  if (known.lookup name).isSome then
    return known
  let contents ← readFile name
  let known := (name, contents) :: known
  match contents with
  | .error _ => return known
  | .ok source =>
    match Document.parse start (some name) source with
    | .error _ => return known
    | .ok d =>
      d.imports.foldlM (fun known i => addDocument known .imported (importTarget path i.1)) known

/-- The files that a command line names beside the document: the settings and the tables of anchors. -/
def namedFiles (args : Arguments) : List String :=
  args.config.toList ++ (args.config.bind Settings.withExtension?).toList ++ args.seeds

/-- Reads the files that a command line needs. -/
def filesFor (words : List String) : IO Files :=
  match Arguments.parse words with
  | .compile args => do
    let known ← addDocument [] .initial (Path.ofString args.path).normalize
    (namedFiles args).foldlM addFile known
  | _ => return []

end SpecDoc.Program

/-- Runs the command on the files that it needs. -/
def main (words : List String) : IO UInt32 := do
  let files ← SpecDoc.Program.filesFor words
  let outcome := SpecDoc.Command.run (SpecDoc.FileAccess.ofFiles files) words
  IO.print outcome.stdout
  IO.eprint outcome.stderr
  return UInt32.ofNat outcome.code
