import SpecDoc.Json
import SpecDoc.Table

/-!
# Reading JSON

`Json.parse?` accepts the texts of the JSON grammar and nothing else: blanks are spaces, tabs, line
feeds and carriage returns; a string holds no bare control character and no half of a surrogate pair. It
reads values of any depth, and `Json.parseWithin?` only those within a limit.
-/

namespace SpecDoc.Json

/-- The blanks between tokens. -/
def isGap (c : Char) : Bool := c == ' ' || c == '\t' || c == '\n' || c == '\r'

/-- The text without the blanks at its start. -/
def skipGap (s : List Char) : List Char := s.dropWhile isGap

/-! ## Strings -/

/-- The value of four hexadecimal digits. -/
def hexValue4? (a b c d : Char) : Option Nat := do
  let w ← Text.hexValue? a
  let x ← Text.hexValue? b
  let y ← Text.hexValue? c
  let z ← Text.hexValue? d
  return ((w * 16 + x) * 16 + y) * 16 + z

/-- The character that a single letter after a backslash stands for. -/
def shortEscape? (c : Char) : Option Char :=
  if c = '"' then some '"'
  else if c = '\\' then some '\\'
  else if c = '/' then some '/'
  else if c = 'b' then some '\x08'
  else if c = 'f' then some '\x0c'
  else if c = 'n' then some '\n'
  else if c = 'r' then some '\r'
  else if c = 't' then some '\t'
  else none

/-- The rest of a string after its opening quote: its characters and what follows the closing one. -/
def readString : List Char → Option (List Char × List Char)
  | [] => none
  | '"' :: r => some ([], r)
  | '\\' :: 'u' :: a :: b :: c :: d :: r =>
    match hexValue4? a b c d with
    | none => none
    | some n =>
      if 0xD800 ≤ n && n ≤ 0xDBFF then
        match r with
        | '\\' :: 'u' :: e :: f :: g :: h :: t =>
          match hexValue4? e f g h with
          | none => none
          | some m =>
            if 0xDC00 ≤ m && m ≤ 0xDFFF then
              (readString t).map fun p =>
                (Char.ofNat (0x10000 + (n - 0xD800) * 0x400 + (m - 0xDC00)) :: p.1, p.2)
            else none
        | _ => none
      else if 0xDC00 ≤ n && n ≤ 0xDFFF then none
      else (readString r).map fun p => (Char.ofNat n :: p.1, p.2)
  | '\\' :: c :: r =>
    match shortEscape? c with
    | none => none
    | some x => (readString r).map fun p => (x :: p.1, p.2)
  | c :: r =>
    if c.toNat < 0x20 ∨ c = '\\' then none
    else (readString r).map fun p => (c :: p.1, p.2)

/-! ## Numbers -/

/-- A run of at least one digit and what follows it. -/
def readDigits? (s : List Char) : Option (List Char × List Char) :=
  let ds := s.takeWhile Char.isDigit
  if ds.isEmpty then none else some (ds, s.dropWhile Char.isDigit)

/-- The integer part of a number: one zero, or digits that do not start with zero. -/
def readWhole? (s : List Char) : Option (List Char × List Char) :=
  match s with
  | '0' :: r => some (['0'], r)
  | _ => readDigits? s

/-- The fraction of a number, if there is a point. -/
def readFraction? (s : List Char) : Option (List Char × List Char) :=
  match s with
  | '.' :: r => (readDigits? r).map fun p => ('.' :: p.1, p.2)
  | _ => some ([], s)

/-- The exponent of a number, if there is a letter e. -/
def readExponent? (s : List Char) : Option (List Char × List Char) :=
  match s with
  | [] => some ([], s)
  | e :: r =>
    if e = 'e' ∨ e = 'E' then
      match r with
      | [] => none
      | sign :: t =>
        if sign = '+' ∨ sign = '-' then (readDigits? t).map fun p => (e :: sign :: p.1, p.2)
        else (readDigits? r).map fun p => (e :: p.1, p.2)
    else some ([], s)

/-- A number and what follows it. -/
def readNumber? (s : List Char) : Option (Json × List Char) := do
  let (sign, s) := match s with
    | '-' :: r => (['-'], r)
    | _ => ([], s)
  let (whole, s) ← readWhole? s
  let (fraction, s) ← readFraction? s
  let (exponent, s) ← readExponent? s
  return (.number (String.ofList (sign ++ whole ++ fraction ++ exponent)), s)

/-! ## Values -/

/-- What follows a word at the start of the text. -/
def afterWord? (word s : List Char) : Option (List Char) :=
  if s.take word.length = word then some (s.drop word.length) else none

mutual

/-- A value and what follows it. Each step down takes one unit of `fuel`. -/
def readValue (fuel : Nat) (s : List Char) : Option (Json × List Char) :=
  match fuel with
  | 0 => none
  | fuel + 1 =>
    match skipGap s with
    | [] => none
    | '"' :: r => (readString r).map fun p => (.string (String.ofList p.1), p.2)
    | '[' :: r =>
      match skipGap r with
      | ']' :: t => some (.array [], t)
      | t => (readItems fuel t).map fun p => (.array p.1, p.2)
    | '\x7b' :: r =>
      match skipGap r with
      | '\x7d' :: t => some (.object [], t)
      | t => (readFields fuel t).map fun p => (.object p.1, p.2)
    | 'n' :: r => (afterWord? ['u', 'l', 'l'] r).map fun t => (.null, t)
    | 't' :: r => (afterWord? ['r', 'u', 'e'] r).map fun t => (.bool true, t)
    | 'f' :: r => (afterWord? ['a', 'l', 's', 'e'] r).map fun t => (.bool false, t)
    | t => readNumber? t

/-- The items of an array that has some, up to its closing bracket. -/
def readItems (fuel : Nat) (s : List Char) : Option (List Json × List Char) :=
  match fuel with
  | 0 => none
  | fuel + 1 =>
    match readValue fuel s with
    | none => none
    | some (j, r) =>
      match skipGap r with
      | ',' :: t => (readItems fuel t).map fun p => (j :: p.1, p.2)
      | ']' :: t => some ([j], t)
      | _ => none

/-- The fields of an object that has some, up to its closing brace. -/
def readFields (fuel : Nat) (s : List Char) : Option (List (String × Json) × List Char) :=
  match fuel with
  | 0 => none
  | fuel + 1 =>
    match skipGap s with
    | '"' :: r =>
      match readString r with
      | none => none
      | some (k, r) =>
        match skipGap r with
        | ':' :: r =>
          match readValue fuel r with
          | none => none
          | some (j, r) =>
            match skipGap r with
            | ',' :: t => (readFields fuel t).map fun p => ((String.ofList k, j) :: p.1, p.2)
            | '\x7d' :: t => some ([(String.ofList k, j)], t)
            | _ => none
        | _ => none
    | _ => none

end

/-- The value that a text writes. Every unit of fuel reads a character, so its length is enough. -/
def parse? (s : String) : Option Json :=
  let cs := s.toList
  match readValue (2 * cs.length + 1) cs with
  | some (j, r) => if (skipGap r).isEmpty then some j else none
  | none => none

/-- The value that a text writes, where no more than `limit` brackets may be open at once. -/
def parseWithin? (limit : Nat) (s : String) : Option Json := (parse? s).filter fun j => j.depth ≤ limit

/-- The limit of the reader that files are read with. -/
def depthLimit : Nat := 127

/-! ## Typed contents -/

/-- The text of a string value. -/
def string? : Json → Option String
  | .string s => some s
  | _ => none

/-- The table that an object writes, when `value?` reads each of its values. The last field of a name
counts. -/
def table? {α : Type} (value? : Json → Option α) : Json → Option (Table α)
  | .object fields =>
    (fields.mapM fun f => (value? f.2).map fun v => (f.1, v)).map Table.ofList
  | _ => none

end SpecDoc.Json
