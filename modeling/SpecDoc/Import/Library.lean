import SpecDoc.Path

/-!
# Libraries of files

A library is where files are read from. It answers for every path with a text or with a reason why there
is none, and it knows how many files it holds at most.

* `Library.ofFiles` is a library of given files, known by their normalized paths.
* `FileAccess.library` is a library of files that are read at written paths.
-/

namespace SpecDoc

/-- Why a file cannot be read. -/
inductive ReadFailure where
  /-- There is no such file. -/
  | missing
  /-- There is a directory at the path. -/
  | directory
  /-- A file is used as a directory on the way to it. -/
  | notDirectory
  /-- The bytes of the file are no UTF-8. -/
  | notText
  /-- The path holds a NUL character. -/
  | nulInPath
  /-- The path, or a name in it, is too long. -/
  | nameTooLong
  /-- Any other reason. -/
  | other (reason : String)
deriving DecidableEq

/-- The failure in words. -/
def ReadFailure.reason : ReadFailure → String
  | .missing => "No such file or directory (os error 2)"
  | .directory => "Is a directory (os error 21)"
  | .notDirectory => "Not a directory (os error 20)"
  | .notText => "stream did not contain valid UTF-8"
  | .nulInPath => "file name contained an unexpected NUL byte"
  | .nameTooLong => "File name too long (os error 36)"
  | .other reason => reason

/-- A place to read files from, with a bound on the number of files that can be read. -/
structure Library where
  read : Path → Except ReadFailure String
  size : Nat

namespace Library

/-- The latest file with a path. -/
def findFile (files : List (Path × Except ReadFailure String)) (p : Path) :
    Except ReadFailure String :=
  (files.reverse.lookup p).getD (.error .missing)

/-- A library of files, each a text or a failure, known by their normalized paths. Of two files with one
path the later one counts. -/
def ofFiles (files : List (String × Except ReadFailure String)) : Library :=
  let entries := files.map fun f => ((Path.ofString f.1).normalize, f.2)
  ⟨fun p => findFile entries p.normalize, entries.length⟩

end Library

/-- A way to read files at paths as they are written, with a bound on the number of files. -/
structure FileAccess where
  read : String → Except ReadFailure String
  size : Nat

namespace FileAccess

/-- Access to given files, each a text or a failure. -/
def ofFiles (files : List (String × Except ReadFailure String)) : FileAccess :=
  ⟨fun path => (files.lookup path).getD (.error .missing), files.length⟩

/-- Whether there is a file at a path, with a text or not. -/
def isFile (a : FileAccess) (path : String) : Bool :=
  match a.read path with
  | .ok _ => true
  | .error .notText => true
  | .error _ => false

/-- The library of the files that can be read. -/
def library (a : FileAccess) : Library := ⟨fun p => a.read p.toString, a.size⟩

end FileAccess

end SpecDoc
