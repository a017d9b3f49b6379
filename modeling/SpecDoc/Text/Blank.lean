import SpecDoc.Text.Cut

/-!
# Blank characters

The blank characters are those with the Unicode property White_Space. Lines are trimmed and cut into
words at them.

* `trim` takes the blanks off both ends;
* `words` are the longest runs without blanks.
-/

namespace SpecDoc.Text

/-- A blank character is one with the Unicode property White_Space. -/
def isBlank (c : Char) : Bool :=
  let n := c.toNat
  (9 ≤ n && n ≤ 13) || n == 0x20 || n == 0x85 || n == 0xA0 || n == 0x1680 ||
    (0x2000 ≤ n && n ≤ 0x200A) || n == 0x2028 || n == 0x2029 || n == 0x202F || n == 0x205F ||
    n == 0x3000

/-- Every character that core calls whitespace is blank. -/
theorem isBlank_of_isWhitespace {c : Char} (h : c.isWhitespace = true) : isBlank c = true := by
  simp only [Char.isWhitespace, Bool.or_eq_true, decide_eq_true_eq] at h
  rcases h with ((rfl | rfl) | rfl) | rfl <;> decide

/-! ## Trimming -/

/-- The text without the blanks at its start. -/
def trimStart (s : List Char) : List Char := s.dropWhile isBlank

/-- The text without the blanks at its end. -/
def trimEnd : List Char → List Char
  | [] => []
  | c :: r =>
    match trimEnd r with
    | [] => if isBlank c then [] else [c]
    | d :: t => c :: d :: t

/-- The text without the blanks at either end. -/
def trim (s : List Char) : List Char := trimEnd (trimStart s)

/-- A text is blank when it has no other characters. -/
def allBlank (s : List Char) : Bool := s.all isBlank

/-- The text does not start with a blank any more. -/
theorem trimStart_head {s r : List Char} {c : Char} (h : trimStart s = c :: r) :
    isBlank c = false := by
  induction s with
  | nil => simp [trimStart] at h
  | cons d s ih =>
    rw [trimStart, List.dropWhile_cons] at h
    split at h
    · exact ih h
    · next hd => cases h; simpa using hd

/-- Only a blank text is trimmed to nothing. -/
theorem trimEnd_eq_nil_iff {s : List Char} : trimEnd s = [] ↔ allBlank s = true := by
  induction s with
  | nil => simp [trimEnd, allBlank]
  | cons c r ih =>
    rw [trimEnd]
    cases h : trimEnd r <;> cases hc : isBlank c <;> simp_all [allBlank]

/-! ## Words -/

/-- The words of a text: its longest runs without blanks, in order. -/
def words (s : List Char) : List (List Char) := (cut isBlank s).filter fun w => !w.isEmpty

/-- No word holds a blank. -/
theorem isBlank_eq_false_of_mem_words {s w : List Char} {c : Char} (h : w ∈ words s)
    (hc : c ∈ w) : isBlank c = false :=
  eq_false_of_mem_cut (List.mem_filter.1 h).1 hc

end SpecDoc.Text
