import Mathlib.Data.Nat.Notation
import SpecDoc.Text.Percent

/-!
# Texts as bytes

The bytes of a character are a first one, which announces how many follow, and those that continue
it. What they announce is always kept to, so the bytes of a text are read back as the text.

* `read_encode`: the bytes of a text have no faults, and they are read as its characters;
* `decode?_encode` and `decodeLossy_encode`: so a text is what its bytes are decoded to;
* `encode_of_ascii`: a text in ASCII has one byte for each character;
* `percentDecode_eq_self`: a text without percent signs stands for itself.
-/

namespace SpecDoc.Text

namespace Utf8

/-! ## The bytes of a character -/

/-- A byte that is given by its value has this value. -/
theorem toNat_ofNat_of_lt {n : ℕ} (h : n < 256) : (UInt8.ofNat n).toNat = n :=
  UInt8.toNat_ofNat_of_lt' h

/-- Whether a byte lies within bounds is said of its value. -/
theorem inBounds_ofNat {low high : UInt8} {n : ℕ} (h : low.toNat ≤ n) (h' : n ≤ high.toNat) :
    (decide (low ≤ UInt8.ofNat n) && decide (UInt8.ofNat n ≤ high)) = true := by
  have hhigh : high.toNat < 256 := high.toNat_lt
  rw [Bool.and_eq_true, decide_eq_true_eq, decide_eq_true_eq, UInt8.le_iff_toNat_le,
    UInt8.le_iff_toNat_le, toNat_ofNat_of_lt (by omega)]
  exact ⟨h, h'⟩

/-- A byte from 128 on is not in ASCII. -/
theorem not_lt_ofNat {n : ℕ} (h : 128 ≤ n) (h' : n < 256) : ¬UInt8.ofNat n < 0x80 := by
  rw [UInt8.lt_iff_toNat_lt, toNat_ofNat_of_lt h']
  exact Nat.not_lt.2 h

/-- Six bits behind the mark of a continuation make a byte that continues a character. -/
theorem isContinuation_ofNat {m : ℕ} (h : m < 64) :
    isContinuation (UInt8.ofNat (m + 128)) = true :=
  inBounds_ofNat (show 128 ≤ m + 128 by omega) (show m + 128 ≤ 191 by omega)

/-- A byte that continues a character gives its six low bits. -/
theorem payload_ofNat {m : ℕ} (h : m < 64) : payload (UInt8.ofNat (m + 128)) = m := by
  rw [payload, toNat_ofNat_of_lt (by omega)]
  omega

section Lead

variable {n m : ℕ}

/-- Five bits behind the mark of a character of two bytes make its first byte. -/
theorem lead_two (h : 2 ≤ n) (h' : n < 32) : Lead.of (UInt8.ofNat (n + 192)) = .two := by
  have hbyte : (UInt8.ofNat (n + 192)).toNat = n + 192 := toNat_ofNat_of_lt (by omega)
  simp only [Lead.of, UInt8.lt_iff_toNat_lt, UInt8.le_iff_toNat_le, hbyte]
  rw [if_neg, if_pos] <;> simp <;> omega

/-- Four bits behind the mark of a character of three bytes make its first byte, which bounds the second one. -/
theorem lead_three (h : n < 16) (hm : m < 64) (hlow : n = 0 → 32 ≤ m) (hhigh : n = 13 → m < 32) :
    ∃ low high : UInt8, Lead.of (UInt8.ofNat (n + 224)) = .three low high ∧
      low.toNat ≤ m + 128 ∧ m + 128 ≤ high.toNat := by
  by_cases h0 : n = 0
  · subst h0
    have hle : 32 ≤ m := hlow rfl
    exact ⟨0xA0, 0xBF, rfl, show 160 ≤ m + 128 by omega, show m + 128 ≤ 191 by omega⟩
  by_cases h13 : n = 13
  · subst h13
    have hlt : m < 32 := hhigh rfl
    exact ⟨0x80, 0x9F, rfl, show 128 ≤ m + 128 by omega, show m + 128 ≤ 159 by omega⟩
  · refine ⟨0x80, 0xBF, ?_, show 128 ≤ m + 128 by omega, show m + 128 ≤ 191 by omega⟩
    have hbyte : (UInt8.ofNat (n + 224)).toNat = n + 224 := toNat_ofNat_of_lt (by omega)
    simp only [Lead.of, UInt8.lt_iff_toNat_lt, UInt8.le_iff_toNat_le, ← UInt8.toNat_inj, hbyte]
    rw [if_neg, if_neg, if_neg, if_neg, if_pos] <;> simp <;> omega

/-- Three bits behind the mark of a character of four bytes make its first byte, which bounds the second one. -/
theorem lead_four (h : n < 5) (hm : m < 64) (hlow : n = 0 → 16 ≤ m) (hhigh : n = 4 → m < 16) :
    ∃ low high : UInt8, Lead.of (UInt8.ofNat (n + 240)) = .four low high ∧
      low.toNat ≤ m + 128 ∧ m + 128 ≤ high.toNat := by
  by_cases h0 : n = 0
  · subst h0
    have hle : 16 ≤ m := hlow rfl
    exact ⟨0x90, 0xBF, rfl, show 144 ≤ m + 128 by omega, show m + 128 ≤ 191 by omega⟩
  by_cases h4 : n = 4
  · subst h4
    have hlt : m < 16 := hhigh rfl
    exact ⟨0x80, 0x8F, rfl, show 128 ≤ m + 128 by omega, show m + 128 ≤ 143 by omega⟩
  · refine ⟨0x80, 0xBF, ?_, show 128 ≤ m + 128 by omega, show m + 128 ≤ 191 by omega⟩
    have hbyte : (UInt8.ofNat (n + 240)).toNat = n + 240 := toNat_ofNat_of_lt (by omega)
    simp only [Lead.of, UInt8.lt_iff_toNat_lt, UInt8.le_iff_toNat_le, ← UInt8.toNat_inj, hbyte]
    rw [if_neg, if_neg, if_neg, if_neg, if_neg, if_neg, if_pos] <;> simp <;> omega

end Lead

/-! ## Reading -/

section Read

variable {n m k l : ℕ} (t : List UInt8)

/-- A byte of ASCII is read as a character of its own. -/
theorem read_cons_of_lt {b : UInt8} (h : b < 0x80) :
    read (b :: t) = some (Char.ofNat b.toNat) :: read t := by
  rw [read.eq_def]
  simp only [h, if_true]

/-- Two bytes are read as the character of their bits. -/
theorem read_two (hn : 2 ≤ n) (hn' : n < 32) (hm : m < 64) :
    read (UInt8.ofNat (n + 192) :: UInt8.ofNat (m + 128) :: t)
      = some (Char.ofNat (n * 64 + m)) :: read t := by
  have hfirst : ¬UInt8.ofNat (n + 192) < 0x80 := not_lt_ofNat (by omega) (by omega)
  have hbits : (UInt8.ofNat (n + 192)).toNat % 32 = n := by
    rw [toNat_ofNat_of_lt (by omega)]
    omega
  rw [read.eq_def]
  simp only [hfirst, lead_two hn hn', isContinuation_ofNat hm, hbits, payload_ofNat hm, if_true,
    if_false]

/-- Three bytes are read as the character of their bits. -/
theorem read_three (hn : n < 16) (hm : m < 64) (hk : k < 64) (hlow : n = 0 → 32 ≤ m)
    (hhigh : n = 13 → m < 32) :
    read (UInt8.ofNat (n + 224) :: UInt8.ofNat (m + 128) :: UInt8.ofNat (k + 128) :: t)
      = some (Char.ofNat ((n * 64 + m) * 64 + k)) :: read t := by
  obtain ⟨low, high, hlead, hle, hle'⟩ := lead_three hn hm hlow hhigh
  have hfirst : ¬UInt8.ofNat (n + 224) < 0x80 := not_lt_ofNat (by omega) (by omega)
  have hbits : (UInt8.ofNat (n + 224)).toNat % 16 = n := by
    rw [toNat_ofNat_of_lt (by omega)]
    omega
  rw [read.eq_def]
  simp only [hfirst, hlead, inBounds_ofNat hle hle', isContinuation_ofNat hk, hbits,
    payload_ofNat hm, payload_ofNat hk, if_true, if_false]

/-- Four bytes are read as the character of their bits. -/
theorem read_four (hn : n < 5) (hm : m < 64) (hk : k < 64) (hl : l < 64) (hlow : n = 0 → 16 ≤ m)
    (hhigh : n = 4 → m < 16) :
    read (UInt8.ofNat (n + 240) :: UInt8.ofNat (m + 128) :: UInt8.ofNat (k + 128) ::
        UInt8.ofNat (l + 128) :: t)
      = some (Char.ofNat (((n * 64 + m) * 64 + k) * 64 + l)) :: read t := by
  obtain ⟨low, high, hlead, hle, hle'⟩ := lead_four hn hm hlow hhigh
  have hfirst : ¬UInt8.ofNat (n + 240) < 0x80 := not_lt_ofNat (by omega) (by omega)
  have hbits : (UInt8.ofNat (n + 240)).toNat % 8 = n := by
    rw [toNat_ofNat_of_lt (by omega)]
    omega
  rw [read.eq_def]
  simp only [hfirst, hlead, inBounds_ofNat hle hle', isContinuation_ofNat hk,
    isContinuation_ofNat hl, hbits, payload_ofNat hm, payload_ofNat hk, payload_ofNat hl, if_true,
    if_false]

/-- The bytes of a character are read as this character, whatever follows them. -/
theorem read_utf8EncodeChar_append (c : Char) :
    read (String.utf8EncodeChar c ++ t) = some c :: read t := by
  -- The values that are no characters are those that the bounds on second bytes keep out.
  have hvalid : c.toNat < 55296 ∨ 57343 < c.toNat ∧ c.toNat < 1114112 := c.valid
  have hchar : ∀ v, v = c.toNat → Char.ofNat v = c := by
    rintro v rfl
    exact Char.ofNat_toNat c
  unfold String.utf8EncodeChar
  rw [Char.toNat_val]
  dsimp only
  split
  · have hlt : UInt8.ofNat c.toNat < 0x80 := by
      rw [UInt8.lt_iff_toNat_lt, toNat_ofNat_of_lt (by omega)]
      exact Nat.lt_succ_of_le ‹_›
    rw [List.cons_append, List.nil_append, read_cons_of_lt t hlt, toNat_ofNat_of_lt (by omega),
      hchar _ rfl]
  split
  · rw [List.cons_append, List.cons_append, List.nil_append,
      read_two t (by omega) (by omega) (by omega), hchar]
    omega
  split
  · rw [List.cons_append, List.cons_append, List.cons_append, List.nil_append,
      read_three t (by omega) (by omega) (by omega) (by omega) (by omega), hchar]
    omega
  · rw [List.cons_append, List.cons_append, List.cons_append, List.cons_append, List.nil_append,
      read_four t (by omega) (by omega) (by omega) (by omega) (by omega) (by omega), hchar]
    omega

end Read

/-- The bytes of a text are read back without a fault. -/
theorem read_encode (cs : List Char) : read (encode cs) = cs.map some := by
  induction cs with
  | nil => rw [encode, List.flatMap_nil, read, List.map_nil]
  | cons c cs ih =>
      rw [encode, List.flatMap_cons, read_utf8EncodeChar_append, ← encode, ih, List.map_cons]

/-- A text is what its bytes are decoded to. -/
theorem decode?_encode (cs : List Char) : decode? (encode cs) = some cs := by
  rw [decode?, read_encode]
  induction cs with
  | nil => rfl
  | cons c cs ih =>
      rw [List.map_cons, List.mapM_cons, ih]
      rfl

/-- There is no fault to replace in the bytes of a text. -/
theorem decodeLossy_encode (cs : List Char) : decodeLossy (encode cs) = cs := by
  rw [decodeLossy, read_encode, List.map_map]
  exact List.map_id cs

end Utf8

/-! ## ASCII -/

/-- Whether all characters of a text are in ASCII. -/
def IsAscii (cs : List Char) : Prop := ∀ c ∈ cs, c.toNat < 128

/-- A character of ASCII is one byte. -/
theorem utf8EncodeChar_of_lt {c : Char} (h : c.toNat < 128) :
    String.utf8EncodeChar c = [c.toUInt8] := by
  have hle : c.val ≤ 127 := by
    rw [UInt32.le_iff_toNat_le, Char.toNat_val]
    simp
    omega
  have hsize : c.utf8Size = 1 := by simp [Char.utf8Size, hle]
  rw [String.utf8EncodeChar_eq_singleton hsize]
  rfl

/-- The byte of a character of ASCII has the value of the character. -/
theorem toNat_toUInt8_of_lt {c : Char} (h : c.toNat < 128) : c.toUInt8.toNat = c.toNat := by
  have hbyte : c.toUInt8.toNat = c.toNat % 256 := by
    rw [← Char.toUInt8_val]
    exact UInt32.toNat_toUInt8 c.val
  omega

/-- The bytes of a text in ASCII are those of its characters. -/
theorem encode_of_ascii {cs : List Char} (h : IsAscii cs) :
    Utf8.encode cs = cs.map Char.toUInt8 := by
  induction cs with
  | nil => rfl
  | cons c cs ih =>
      obtain ⟨hc, hcs⟩ := List.forall_mem_cons.1 h
      rw [Utf8.encode, List.flatMap_cons, utf8EncodeChar_of_lt hc, List.map_cons, ← ih hcs]
      rfl

/-! ## Percent signs -/

/-- A byte of ASCII among those of a character is this character. -/
theorem toNat_eq_of_mem_utf8EncodeChar {c : Char} {b : UInt8}
    (hmem : b ∈ String.utf8EncodeChar c) (hb : b.toNat < 128) : c.toNat = b.toNat := by
  have hvalid : c.toNat < 55296 ∨ 57343 < c.toNat ∧ c.toNat < 1114112 := c.valid
  have hbyte : ∀ n, 128 ≤ n → n < 256 → b ≠ UInt8.ofNat n := by
    rintro n hn hn' rfl
    rw [Utf8.toNat_ofNat_of_lt hn'] at hb
    omega
  unfold String.utf8EncodeChar at hmem
  rw [Char.toNat_val] at hmem
  dsimp only at hmem
  split at hmem
  · rw [List.mem_singleton.1 hmem, Utf8.toNat_ofNat_of_lt (by omega)]
  -- All bytes of the longer forms are at least 128.
  split at hmem
  · simp only [List.mem_cons, List.not_mem_nil, or_false] at hmem
    rcases hmem with h | h <;> exact absurd h (hbyte _ (by omega) (by omega))
  split at hmem
  · simp only [List.mem_cons, List.not_mem_nil, or_false] at hmem
    rcases hmem with h | h | h <;> exact absurd h (hbyte _ (by omega) (by omega))
  · simp only [List.mem_cons, List.not_mem_nil, or_false] at hmem
    rcases hmem with h | h | h | h <;> exact absurd h (hbyte _ (by omega) (by omega))

/-- Bytes without percent signs stand for themselves. -/
theorem percentBytes_eq_self {bytes : List UInt8} (h : ∀ b ∈ bytes, b ≠ 0x25) :
    percentBytes bytes = bytes := by
  induction bytes with
  | nil => rw [percentBytes]
  | cons b bytes ih =>
      obtain ⟨hb, hbytes⟩ := List.forall_mem_cons.1 h
      rw [percentBytes.eq_def]
      split
      · next heq => cases heq
      · next heq =>
        cases heq
        exact absurd rfl hb
      · next heq =>
        cases heq
        rw [ih hbytes]

/-- A text without percent signs stands for itself. -/
theorem percentDecode_eq_self {cs : List Char} (h : '%' ∉ cs) : percentDecode cs = cs := by
  have hbytes : ∀ b ∈ Utf8.encode cs, b ≠ 0x25 := by
    rintro b hb rfl
    obtain ⟨c, hc, hmem⟩ := List.mem_flatMap.1 hb
    have hvalue : c.toNat = 37 := toNat_eq_of_mem_utf8EncodeChar hmem (by decide)
    have hpercent : c = '%' := Char.toNat_inj.1 hvalue
    exact h (hpercent ▸ hc)
  rw [percentDecode, percentBytes_eq_self hbytes, Utf8.decodeLossy_encode]

end SpecDoc.Text
