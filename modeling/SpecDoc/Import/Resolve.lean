import SpecDoc.Import.Library
import SpecDoc.Import.Splice
import SpecDoc.Markup
import SpecDoc.Node.Descendants
import SpecDoc.Text.Percent

/-!
# Import resolution

A document and all files that it imports, directly or through others, make one document. Every file is
read in the place of its import, its own imports are resolved first, and their contents are spliced in.
A file that imports itself through others is refused. Of several imports that fail the first one is
told.

* `importTarget` is the file that an import names;
* `Library.resolve` resolves the document at a path.
-/

namespace SpecDoc

/-- The file that an import names, seen from the file that holds it. The written path may be
percent-encoded. -/
def importTarget (importing : Path) (raw : String) : Path :=
  let decoded := String.ofList (Text.percentDecode raw.toList)
  (importing.parent.join (Path.ofString decoded)).normalize

/-- The imports of a document, in order: what they name and where they stand. -/
def Document.imports (d : Document) : List (String × Option Span) :=
  d.descendants.filterMap fun
    | .leaf (.importLink path) span => some (path, span)
    | _ => none

/-- When a run is cancelled: never, or as soon as a number of files was read. -/
structure Cancellation where
  afterReads : Option Nat

namespace Cancellation

/-- A run that is not cancelled. -/
def never : Cancellation := ⟨none⟩

/-- A run that is cancelled before it starts. -/
def beforehand : Cancellation := ⟨some 0⟩

/-- Whether the run is cancelled when so many files were read. -/
def isCancelled (c : Cancellation) (reads : Nat) : Bool := c.afterReads.any (· ≤ reads)

end Cancellation

/-- The result of a resolution and the number of files that were read up to then. -/
abbrev Resolution := Except CompileError Document × Nat

namespace Resolution

/-- Refuses a file. -/
def refuse (problem : ImportProblem) (path : Path) (chain : List Path) (reads : Nat) : Resolution :=
  (.error (.importing ⟨problem, path.toString, chain.map Path.toString, none⟩), reads)

/-- Tells where a file that could not be had is imported, unless that is known. -/
def locate (target : Path) (span : Option Span) (e : CompileError) : CompileError :=
  match e with
  | .importing i =>
    if i.span = none ∧ i.path = target.toString then .importing { i with span } else e
  | e => e

/-- Why a file could not be had that could not be read. -/
def problemOf : ReadFailure → ImportProblem
  | .missing => .missing
  | f => .unreadable f.reason

/-- Reads the document at a path, as one of a chain of files. -/
def parseFile (start : Start) (path : Path) (chain : List Path) (source : String) :
    Except CompileError Document :=
  match Document.parse start (some path.toString) source with
  | .ok d => .ok d
  | .error e => .error (.parse { e.withSource source with chain := chain.map Path.toString })

/-- The results for a sequence of imports, each started with the reads that were made before it; `none`
if one of them has no result. -/
def forEach (f : String × Option Span → Nat → Option Resolution) :
    List (String × Option Span) → Nat → Option (List (Except CompileError Document) × Nat)
  | [], reads => some ([], reads)
  | i :: is, reads =>
    match f i reads with
    | none => none
    | some (result, reads) => (forEach f is reads).map fun p => (result :: p.1, p.2)

end Resolution

namespace Library

open Resolution

/-- A file that is opened: how it is read, the files whose imports led to it, the outermost first, and the
number of files that were read before. -/
structure Call where
  path : Path
  start : Start
  chain : List Path
  reads : Nat

/-- Opens a file, where `resolve` resolves the files that it imports. -/
def openFile (lib : Library) (c : Cancellation) (resolve : Call → Option Resolution) (call : Call) :
    Option Resolution :=
  if c.isCancelled call.reads then some (refuse .cancelled call.path call.chain call.reads)
  else if call.path ∈ call.chain then some (refuse .cycle call.path call.chain call.reads)
  else
    match lib.read call.path with
    | .error f => some (refuse (problemOf f) call.path call.chain (call.reads + 1))
    | .ok source =>
      match parseFile call.start call.path call.chain source with
      | .error e => some (.error e, call.reads + 1)
      | .ok d =>
        let one := fun (i : String × Option Span) (reads : Nat) =>
          let target := importTarget call.path i.1
          (resolve ⟨target, .imported, call.chain ++ [call.path], reads⟩).map fun r =>
            (r.1.mapError (locate target i.2), r.2)
        match forEach one d.imports (call.reads + 1) with
        | none => none
        | some (results, reads) =>
          match results.mapM id with
          | .error e => some (.error e, reads)
          | .ok resolved => some (.ok (d.splice resolved), reads)

/-- Resolves the file at a normalized path, where `chain` are the files whose imports led to it, the
outermost first. The chain grows by one file at a time, and `fuel` bounds its growth. -/
def resolveFile (lib : Library) (c : Cancellation) :
    Nat → Path → Start → List Path → Nat → Option Resolution
  | 0, _, _, _, _ => none
  | fuel + 1, path, start, chain, reads =>
    lib.openFile c (fun call => resolveFile lib c fuel call.path call.start call.chain call.reads)
      ⟨path, start, chain, reads⟩

/-- Resolves the document at a path. A chain holds each file that can be read at most once, so the size
of the library bounds it. -/
def resolve (lib : Library) (c : Cancellation) (entry : String) : Option Resolution :=
  lib.resolveFile c (lib.size + 2) (Path.ofString entry).normalize .initial [] 0

end Library

end SpecDoc
