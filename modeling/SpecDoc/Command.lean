import SpecDoc.Command.Arguments
import SpecDoc.Outline
import SpecDoc.Settings
import SpecDoc.Snapshot

/-!
# The command

The command compiles a document and prints the result as an outline, as a JSON snapshot or as the table
of its anchors.

* `Command.run` is the whole command, given its words and a way to read files.
-/

namespace SpecDoc.Command

/-- What a run of the command leaves: its exit code and what it printed. -/
structure Outcome where
  code : Nat
  stdout : String
  stderr : String

/-- Why a document is not compiled. -/
inductive Failure where
  /-- The settings cannot be had. -/
  | settings (e : SettingsError)
  /-- There is no such output format. -/
  | format (name : String)
  /-- A table of anchors of other documents cannot be read. -/
  | seed (path : String)
  /-- The compilation fails. -/
  | compile (e : CompileError)
  /-- The search for anchors does not end. -/
  | endless

/-- The failure in words. -/
def Failure.message : Failure → String
  | .settings e => "Configuration error: " ++ e.message
  | .format name =>
    "Format '" ++ name ++ "' not supported\nAvailable formats: outline, json, biblio"
  | .seed path => "Cannot load biblio " ++ path
  | .compile e => e.message
  | .endless => "No free anchor can be found"

/-- The exit code of a failure: one if the document is at fault, two if the command line is. -/
def Failure.code : Failure → Nat
  | .compile _ => 1
  | .endless => 1
  | _ => 2

/-- The anchors of other documents in a file. -/
def loadSeed (a : FileAccess) (path : String) : Except Failure ExternalAnchors :=
  match a.read path with
  | .error _ => .error (.seed path)
  | .ok text =>
    match (Json.parseWithin? Json.depthLimit text).bind (Json.table? (Json.table? Json.string?)) with
    | none => .error (.seed path)
    | some sites => .ok sites

/-- The anchors of other documents with those of more sites; the later ones of a site count. -/
def addSites (external more : ExternalAnchors) : ExternalAnchors :=
  more.entries.foldl (fun t s => t.insert s.1 (((t.find? s.1).getD Table.empty).merge s.2)) external

/-- What is printed for a compiled document. -/
def render (a : Annotated) : OutputFormat → String
  | .outline => a.document.outline
  | .json => a.document.snapshot.toJson.pretty ++ "\n"
  | .biblio => a.biblio.toJson.pretty ++ "\n"

/-- The settings that the arguments ask for. -/
def settings (a : FileAccess) (args : Arguments) : Except Failure Settings :=
  (Settings.load a (args.config.toList.map fun path => .file path true)).mapError .settings

/-- The output format that the arguments or the settings ask for. -/
def format (args : Arguments) (s : Settings) : Except Failure OutputFormat :=
  match args.format with
  | none => .ok s.format
  | some name =>
    match OutputFormat.ofName? name with
    | none => .error (.format name)
    | some f => .ok f

/-- Compiles the document that the arguments name and gives what is printed for it. -/
def compileText (a : FileAccess) (args : Arguments) : Except Failure String := do
  let s ← settings a args
  let format ← format args s
  let seeds ← args.seeds.mapM (loadSeed a)
  let options := { s.compileOptions with external := seeds.foldl addSites s.sites }
  match (compile a.library options args.path).run with
  | none => .error .endless
  | some (.error e) => .error (.compile e)
  | some (.ok annotated) => return render annotated format

/-- How the command is used. -/
def usage : String :=
  "Compile spec documents into a numbered, anchored tree\n\n" ++
    "Usage: specmd [OPTIONS] <path>\n\n" ++
    "Arguments:\n" ++
    "  <path>  Path to the top-level spec document\n\n" ++
    "Options:\n" ++
    "  -c, --config <config>  Configuration file layered over the built-in defaults\n" ++
    "  -f, --format <format>  Output format: outline, json or biblio (default from configuration)\n" ++
    "  -b, --biblio <biblio>  JSON file of external anchors (site URL -> id -> path suffix)\n" ++
    "      --sequential       Resolve imports one at a time\n" ++
    "  -v, --verbose...       Increase logging verbosity (repeatable)\n" ++
    "  -h, --help             Print help\n" ++
    "  -V, --version          Print version\n"

/-- Runs the command. -/
def run (a : FileAccess) (words : List String) : Outcome :=
  match Arguments.parse words with
  | .usage => ⟨2, "", usage⟩
  | .help => ⟨0, usage, ""⟩
  | .version => ⟨0, "specmd 0.1.0\n", ""⟩
  | .compile args =>
    match compileText a args with
    | .ok text => ⟨0, text, ""⟩
    | .error f => ⟨f.code, "", f.message ++ "\n"⟩

end SpecDoc.Command
