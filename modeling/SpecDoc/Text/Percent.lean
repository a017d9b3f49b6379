import SpecDoc.Text.Hex
import SpecDoc.Text.Utf8

/-!
# Percent-decoding

A percent sign and two hexadecimal digits stand for one byte; every other character stands for its
own bytes. The bytes are read as UTF-8.
-/

namespace SpecDoc.Text

/-- The value of a byte that is a hexadecimal digit. -/
def hexByte? (b : UInt8) : Option Nat := hexValue? (Char.ofNat b.toNat)

/-- The bytes that an encoded text stands for. -/
def percentBytes : List UInt8 → List UInt8
  | [] => []
  | 0x25 :: h :: l :: r =>
    match hexByte? h, hexByte? l with
    | some x, some y => UInt8.ofNat (16 * x + y) :: percentBytes r
    | _, _ => 0x25 :: percentBytes (h :: l :: r)
  | b :: r => b :: percentBytes r

/-- The text that an encoded text stands for, with U+FFFD where the bytes are no UTF-8. -/
def percentDecode (s : List Char) : List Char :=
  Utf8.decodeLossy (percentBytes (Utf8.encode s))

end SpecDoc.Text
