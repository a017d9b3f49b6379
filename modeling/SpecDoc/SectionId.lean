import SpecDoc.Text.Decimal
import SpecDoc.Text.Utf8

/-!
# Section ids

A section id has one part for each level of nesting, the outermost first. A part is a number or a run
of letters, which counts `A`, `B`, …, `Z`, `AA`, `AB`, …: twenty-six digits without a zero.

* `SectionPart.next?` is the part that follows when nothing else is asked for;
* `SectionPart.compare?` orders the parts of one kind;
* `SectionId.dotted` is how an id is shown.
-/

namespace SpecDoc

/-- One level of a section id. -/
inductive SectionPart where
  | number (n : UInt32)
  | letters (s : String)
deriving DecidableEq

/-- The parts of an id, the outermost first. -/
abbrev SectionId := List SectionPart

namespace SectionPart

/-- The part that a token writes: digits are a number, as long as it fits, and capital letters of ASCII
are letters. -/
def parse? (token : String) : Option SectionPart :=
  match Text.decimal? token.toList with
  | some n => if n < UInt32.size then some (.number (UInt32.ofNat n)) else none
  | none =>
    if token.isEmpty || !token.toList.all Char.isUpper then none else some (.letters token)

/-- Whether a part consists of letters. -/
def isLetters : SectionPart → Bool
  | .number _ => false
  | .letters _ => true

/-- Counts up a numeral given by its bytes, the last first: `Z` turns over to `A` and carries, and what
carries out of the first place becomes a new `A` in front. -/
def countUp : List UInt8 → List UInt8
  | [] => [65]
  | b :: r => if b = 90 then 65 :: countUp r else (b + 1) :: r

/-- The letters after the given ones. Letters other than `A` to `Z` may leave no text, and then the
answer is empty. -/
def nextLetters (s : String) : String :=
  String.ofList ((Text.Utf8.decode? (countUp (Text.Utf8.encode s.toList).reverse).reverse).getD [])

/-- The part after a part; there is none after the greatest number. -/
def next? : SectionPart → Option SectionPart
  | .number n => if n = UInt32.ofNat (UInt32.size - 1) then none else some (.number (n + 1))
  | .letters s => some (.letters (nextLetters s))

/-- The order of two parts of one kind: numbers by value, letters by length and then alphabet. -/
def compare? : SectionPart → SectionPart → Option Ordering
  | .number m, .number n => some (compare m n)
  | .letters s, .letters t =>
    some ((compare s.utf8ByteSize t.utf8ByteSize).then (compare s t))
  | _, _ => none

/-- The part as it is shown. -/
def toString : SectionPart → String
  | .number n => Nat.repr n.toNat
  | .letters s => s

instance : ToString SectionPart := ⟨SectionPart.toString⟩

end SectionPart

/-- The parts of an id with points between them. -/
def SectionId.dotted (id : SectionId) : String := ".".intercalate (id.map SectionPart.toString)

end SpecDoc
