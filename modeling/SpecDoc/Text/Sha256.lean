import SpecDoc.Text.Hex
import SpecDoc.Text.Utf8

/-!
# SHA-256

The digest of a text is the SHA-256 value of its UTF-8 bytes, written as 64 lowercase hexadecimal
digits.

* `digest_length`: a digest has 64 characters;
* `isHexDigit_of_mem_digest`: each of them is a hexadecimal digit.
-/

namespace SpecDoc.Text.Sha256

/-! ## The compression function -/

/-- The eight words of the running value. -/
structure Words where
  a : UInt32
  b : UInt32
  c : UInt32
  d : UInt32
  e : UInt32
  f : UInt32
  g : UInt32
  h : UInt32

/-- The value before the first block. -/
def start : Words :=
  ⟨0x6a09e667, 0xbb67ae85, 0x3c6ef372, 0xa54ff53a, 0x510e527f, 0x9b05688c, 0x1f83d9ab, 0x5be0cd19⟩

/-- The constants of the 64 rounds. -/
def roundConstants : List UInt32 :=
  [0x428a2f98, 0x71374491, 0xb5c0fbcf, 0xe9b5dba5, 0x3956c25b, 0x59f111f1, 0x923f82a4, 0xab1c5ed5,
   0xd807aa98, 0x12835b01, 0x243185be, 0x550c7dc3, 0x72be5d74, 0x80deb1fe, 0x9bdc06a7, 0xc19bf174,
   0xe49b69c1, 0xefbe4786, 0x0fc19dc6, 0x240ca1cc, 0x2de92c6f, 0x4a7484aa, 0x5cb0a9dc, 0x76f988da,
   0x983e5152, 0xa831c66d, 0xb00327c8, 0xbf597fc7, 0xc6e00bf3, 0xd5a79147, 0x06ca6351, 0x14292967,
   0x27b70a85, 0x2e1b2138, 0x4d2c6dfc, 0x53380d13, 0x650a7354, 0x766a0abb, 0x81c2c92e, 0x92722c85,
   0xa2bfe8a1, 0xa81a664b, 0xc24b8b70, 0xc76c51a3, 0xd192e819, 0xd6990624, 0xf40e3585, 0x106aa070,
   0x19a4c116, 0x1e376c08, 0x2748774c, 0x34b0bcb5, 0x391c0cb3, 0x4ed8aa4a, 0x5b9cca4f, 0x682e6ff3,
   0x748f82ee, 0x78a5636f, 0x84c87814, 0x8cc70208, 0x90befffa, 0xa4506ceb, 0xbef9a3f7, 0xc67178f2]

/-- A word turned right by `n` bits. -/
def rotate (x : UInt32) (n : UInt32) : UInt32 := (x >>> n) ||| (x <<< (32 - n))

/-- The next word of the schedule, from the sixteen before it with the latest first. -/
def nextWord (latest : List UInt32) : UInt32 :=
  let w16 := latest.getD 15 0
  let w15 := latest.getD 14 0
  let w7 := latest.getD 6 0
  let w2 := latest.getD 1 0
  let s0 := rotate w15 7 ^^^ rotate w15 18 ^^^ (w15 >>> 3)
  let s1 := rotate w2 17 ^^^ rotate w2 19 ^^^ (w2 >>> 10)
  w16 + s0 + w7 + s1

/-- `n` more words of the schedule, the latest first. -/
def extend : Nat → List UInt32 → List UInt32
  | 0, ws => ws
  | n + 1, ws => extend n (nextWord ws :: ws)

/-- One round, with its constant and its word of the schedule. -/
def round (v : Words) (kw : UInt32 × UInt32) : Words :=
  let s1 := rotate v.e 6 ^^^ rotate v.e 11 ^^^ rotate v.e 25
  let ch := (v.e &&& v.f) ^^^ (~~~v.e &&& v.g)
  let t1 := v.h + s1 + ch + kw.1 + kw.2
  let s0 := rotate v.a 2 ^^^ rotate v.a 13 ^^^ rotate v.a 22
  let maj := (v.a &&& v.b) ^^^ (v.a &&& v.c) ^^^ (v.b &&& v.c)
  let t2 := s0 + maj
  ⟨t1 + t2, v.a, v.b, v.c, v.d + t1, v.e, v.f, v.g⟩

/-- The running value after a block of sixteen words. -/
def absorb (v : Words) (block : List UInt32) : Words :=
  let schedule := (extend 48 block.reverse).reverse
  let w := (roundConstants.zip schedule).foldl round v
  ⟨v.a + w.a, v.b + w.b, v.c + w.c, v.d + w.d, v.e + w.e, v.f + w.f, v.g + w.g, v.h + w.h⟩

/-! ## Padding and blocks -/

/-- The eight bytes of a number, the highest first. -/
def bytes64 (n : Nat) : List UInt8 :=
  [56, 48, 40, 32, 24, 16, 8, 0].map fun k => UInt8.ofNat (n >>> k)

/-- The bytes with a one bit, zeros and their length in bits behind them, a multiple of 64 long. -/
def pad (bytes : List UInt8) : List UInt8 :=
  let n := bytes.length
  bytes ++ 0x80 :: List.replicate ((119 - n % 64) % 64) 0 ++ bytes64 (8 * n)

/-- Words of four bytes each, the highest first. -/
def words : List UInt8 → List UInt32
  | a :: b :: c :: d :: r =>
    ((a.toUInt32 <<< 24) ||| (b.toUInt32 <<< 16) ||| (c.toUInt32 <<< 8) ||| d.toUInt32) :: words r
  | _ => []

/-- Absorbs `n` blocks of sixteen words. -/
def absorbAll : Nat → Words → List UInt32 → Words
  | 0, v, _ => v
  | n + 1, v, ws => absorbAll n (absorb v (ws.take 16)) (ws.drop 16)

/-- The final value for the given bytes. -/
def value (bytes : List UInt8) : Words :=
  let padded := pad bytes
  absorbAll (padded.length / 64) start (words padded)

/-! ## The written digest -/

/-- The eight hexadecimal digits of a word. -/
def hex (x : UInt32) : List Char :=
  [28, 24, 20, 16, 12, 8, 4, 0].map fun k => hexDigit ((x.toNat >>> k) % 16)

/-- The digits of a running value. -/
def Words.digits (v : Words) : List Char :=
  [v.a, v.b, v.c, v.d, v.e, v.f, v.g, v.h].flatMap hex

/-- The digest of a text. -/
def digest (s : List Char) : List Char := (value (Utf8.encode s)).digits

/-- A digest has 64 characters. -/
theorem digest_length (s : List Char) : (digest s).length = 64 := by
  simp [digest, Words.digits, hex]

/-- A digest holds hexadecimal digits only. -/
theorem isHexDigit_of_mem_digest {s : List Char} {c : Char} (h : c ∈ digest s) :
    isHexDigit c = true := by
  simp only [digest, Words.digits, List.mem_flatMap] at h
  obtain ⟨x, -, hx⟩ := h
  simp only [hex, List.mem_map] at hx
  obtain ⟨k, -, rfl⟩ := hx
  exact isHexDigit_hexDigit _ (Nat.mod_lt _ (by decide))

end SpecDoc.Text.Sha256
