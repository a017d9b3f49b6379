/-!
# Sets of characters

A set of characters is given by closed ranges of code points, in ascending order and apart from each
other. The properties of characters in this library follow version 16 of the Unicode standard.
-/

namespace SpecDoc.Text

/-- Closed ranges of code points, each with its first and its last. -/
abbrev Ranges := List (Nat × Nat)

namespace Ranges

/-- Whether a character lies in one of the ranges. -/
def holds (rs : Ranges) (c : Char) : Bool := rs.any fun r => r.1 ≤ c.toNat && c.toNat ≤ r.2

/-- Whether the ranges ascend, none is empty and no two touch. -/
def ascend : Ranges → Bool
  | [] => true
  | [r] => r.1 ≤ r.2
  | r :: s :: rs => r.1 ≤ r.2 && r.2 + 1 < s.1 && ascend (s :: rs)

/-- How many code points ascending ranges hold. -/
def size (rs : Ranges) : Nat := rs.foldr (fun r n => r.2 + 1 - r.1 + n) 0

end Ranges

end SpecDoc.Text
