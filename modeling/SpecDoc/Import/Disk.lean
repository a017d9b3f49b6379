import SpecDoc.Import.Library
import SpecDoc.Text.Utf8

/-!
# Files below a directory

A disk is the tree of files and directories below the current directory. Paths are followed step by step
as they are written: every step but the last must lead to a directory, and a slash at the end asks for
one, too. Nothing is known of what lies outside, except that there are directories above.

* `Disk.read` reads the file at a written path.
-/

namespace SpecDoc

/-- What is at a place of a disk. -/
inductive DiskEntry where
  | directory
  | text (contents : String)
  /-- A file whose bytes are no UTF-8. -/
  | binary

/-- The entry of a file with the given bytes. -/
def DiskEntry.ofBytes (bytes : List UInt8) : DiskEntry :=
  match Text.Utf8.decode? bytes with
  | some cs => .text (String.ofList cs)
  | none => .binary

/-- The files and directories below the current directory, by the names on the way to them. Directories
on the way to an entry need no entry of their own. -/
structure Disk where
  entries : List (List String × DiskEntry)

namespace Disk

/-- The names on the way to the entry of a written path. -/
def namesOf (path : String) : List String :=
  (Path.ofString path).normalize.steps.filterMap fun
    | .into name => some name
    | .up => none

/-- A disk with entries at written paths. -/
def ofFiles (files : List (String × DiskEntry)) : Disk :=
  ⟨files.map fun f => (namesOf f.1, f.2)⟩

/-- The entry with the given names on the way to it. -/
def find? (d : Disk) (names : List String) : Option DiskEntry :=
  match d.entries.reverse.lookup names with
  | some e => some e
  | none => if d.entries.any fun e => names.isPrefixOf e.1 then some .directory else none

/-- A directory: below the current one, with the names on the way to it, or elsewhere. -/
inductive Place where
  | below (names : List String)
  | elsewhere

/-- The directory above. -/
def Place.up : Place → Place
  | .below [] => .elsewhere
  | .below names => .below names.dropLast
  | .elsewhere => .elsewhere

/-- The entry of a name in a directory. -/
def step (d : Disk) (place : Place) (name : String) : Option DiskEntry :=
  match place with
  | .below names => d.find? (names ++ [name])
  | .elsewhere => none

/-- The greatest number of bytes of a name. -/
def maxNameBytes : Nat := 255

/-- The greatest number of bytes of a path. -/
def maxPathBytes : Nat := 4095

/-- Follows the parts of a path from a directory. -/
def follow (d : Disk) (place : Place) : List (List Char) → Except ReadFailure String
  | [] => .error .directory
  | part :: parts =>
    if part = [] ∨ part = ['.'] then follow d place parts
    else if part = ['.', '.'] then follow d place.up parts
    else
      let name := String.ofList part
      if maxNameBytes < name.utf8ByteSize then .error .nameTooLong
      else
        match d.step place name, parts with
        | none, _ => .error .missing
        | some .directory, _ =>
          match place with
          | .below names => follow d (.below (names ++ [name])) parts
          | .elsewhere => .error .missing
        | some (.text contents), [] => .ok contents
        | some .binary, [] => .error .notText
        | some _, _ => .error .notDirectory

/-- Reads the file at a path as it is written. -/
def read (d : Disk) (path : String) : Except ReadFailure String :=
  let cs := path.toList
  if '\x00' ∈ cs then .error .nulInPath
  else if maxPathBytes < path.utf8ByteSize then .error .nameTooLong
  else if cs = [] then .error .missing
  else
    let start : Place := if cs.head? = some '/' then .elsewhere else .below []
    d.follow start (Text.cut (· == '/') cs)

/-- Reading from the disk. -/
def access (d : Disk) : FileAccess := ⟨d.read, d.entries.length⟩

end Disk

end SpecDoc
