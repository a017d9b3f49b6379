/-!
# UTF-8

Bytes are read as a sequence of characters and faults. A fault is the longest run of bytes that
starts a character without finishing it, or one byte that starts none.

* `decode?` accepts the bytes without a fault;
* `decodeLossy` puts U+FFFD in the place of every fault.
-/

namespace SpecDoc.Text.Utf8

/-- The UTF-8 bytes of a text. -/
def encode (s : List Char) : List UInt8 := s.flatMap String.utf8EncodeChar

/-- Whether a byte continues a character. -/
def isContinuation (b : UInt8) : Bool := 0x80 ≤ b && b ≤ 0xBF

/-- The six low bits of a continuation byte. -/
def payload (b : UInt8) : Nat := b.toNat % 64

/-- What a byte announces that is not ASCII. -/
inductive Lead where
  /-- The byte starts no character. -/
  | none
  /-- A character of two bytes. -/
  | two
  /-- A character of three bytes, the second between the two bounds. -/
  | three (low high : UInt8)
  /-- A character of four bytes, the second between the two bounds. -/
  | four (low high : UInt8)

/-- The bounds keep out overlong forms, surrogates and values above U+10FFFF. -/
def Lead.of (b : UInt8) : Lead :=
  if b < 0xC2 then .none
  else if b ≤ 0xDF then .two
  else if b = 0xE0 then .three 0xA0 0xBF
  else if b = 0xED then .three 0x80 0x9F
  else if b ≤ 0xEF then .three 0x80 0xBF
  else if b = 0xF0 then .four 0x90 0xBF
  else if b ≤ 0xF3 then .four 0x80 0xBF
  else if b = 0xF4 then .four 0x80 0x8F
  else .none

/-- The characters and the faults (`none`) in the order of the bytes. -/
def read : List UInt8 → List (Option Char)
  | [] => []
  | b :: t =>
    if b < 0x80 then some (Char.ofNat b.toNat) :: read t
    else
      match Lead.of b with
      | .none => none :: read t
      | .two =>
        match t with
        | [] => [none]
        | c :: u =>
          if isContinuation c then
            some (Char.ofNat (b.toNat % 32 * 64 + payload c)) :: read u
          else none :: read (c :: u)
      | .three low high =>
        match t with
        | [] => [none]
        | c :: u =>
          if low ≤ c && c ≤ high then
            match u with
            | [] => [none]
            | d :: v =>
              if isContinuation d then
                some (Char.ofNat ((b.toNat % 16 * 64 + payload c) * 64 + payload d)) :: read v
              else none :: read (d :: v)
          else none :: read (c :: u)
      | .four low high =>
        match t with
        | [] => [none]
        | c :: u =>
          if low ≤ c && c ≤ high then
            match u with
            | [] => [none]
            | d :: v =>
              if isContinuation d then
                match v with
                | [] => [none]
                | e :: w =>
                  if isContinuation e then
                    some (Char.ofNat
                      (((b.toNat % 8 * 64 + payload c) * 64 + payload d) * 64 + payload e)) ::
                      read w
                  else none :: read (e :: w)
              else none :: read (d :: v)
          else none :: read (c :: u)

/-- The text, if the bytes have no fault. -/
def decode? (bytes : List UInt8) : Option (List Char) := (read bytes).mapM id

/-- The text with U+FFFD for every fault. -/
def decodeLossy (bytes : List UInt8) : List Char := (read bytes).map (·.getD '\uFFFD')

end SpecDoc.Text.Utf8
