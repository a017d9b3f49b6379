/-!
# Decimal numerals

The value of a run of ASCII digits. Leading zeros do not count.
-/

namespace SpecDoc.Text

/-- The value of one digit. -/
def digitValue (c : Char) : Nat := c.toNat - 48

/-- The value of digits, the highest first. -/
def decimalValue (ds : List Char) : Nat := ds.foldl (fun n c => 10 * n + digitValue c) 0

/-- The value of a text of ASCII digits, at least one. -/
def decimal? (s : List Char) : Option Nat :=
  if s.isEmpty || !s.all Char.isDigit then none else some (decimalValue s)

end SpecDoc.Text
