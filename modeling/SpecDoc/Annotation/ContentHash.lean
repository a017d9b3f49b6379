import SpecDoc.Text.Blank
import SpecDoc.Text.Line
import SpecDoc.Text.Sha256

/-!
# Content hashes

Examples and notes are known by a digest of their content, so that their anchors survive edits
elsewhere. Blanks at the ends of lines and the kind of line break do not matter to it.
-/

namespace SpecDoc.ContentHash

open Text

/-- The trimmed lines joined by a separator. -/
def normalize (separator text : List Char) : List Char := join separator ((breaks text).map trim)

/-- The form of a block of code that is hashed: its trimmed lines. -/
def normalizeCode (text : String) : String := String.ofList (normalize ['\n'] text.toList)

/-- The form of prose that is hashed: its trimmed lines in one line. -/
def normalizeProse (text : String) : String := String.ofList (normalize [' '] text.toList)

/-- The digest of a normalized text. -/
def digest (normalized : String) : String := String.ofList (Sha256.digest normalized.toList)

/-- The digest that is tried after another one is taken. -/
def rehash (previous normalized : String) : String := digest (previous ++ normalized)

/-- The number of characters of a digest. -/
def digestLength : Nat := 64

/-- Every digest has as many characters as `digestLength` says. -/
theorem length_digest (s : String) : (digest s).length = digestLength := by
  simp [digest, Sha256.digest_length, digestLength]

end SpecDoc.ContentHash
