import SpecDoc.Settings.Value
import SpecDoc.Text.Decimal
import SpecDoc.Text.Hex
import SpecDoc.Text.Line

/-!
# Settings files

Settings files are written in TOML, of which tables with headers, dotted and quoted keys, strings on one
line, integers and booleans are read. Each line holds one statement: a header, or a key with a value.

A table may be begun by a header only once, and a key may be given a value only once; keys with points
make tables of their own, which no header may begin and which are not mixed with others. A key has a
limited number of parts.

* `Toml.parse?` reads a settings file as a table of values.
-/

namespace SpecDoc.Toml

/-! ## Tables under construction -/

/-- An entry of a table: a value, or a table. A table is implied until a header begins it, and dotted if
a key with points made it. -/
inductive Item where
  | value (v : SettingValue)
  | table (implied dotted : Bool) (entries : List (String × Item))

/-- The entries of a table under construction. -/
abbrev Entries := List (String × Item)

/-- Puts an entry in the place of the one of its name, or behind the others. -/
def put (name : String) (item : Item) : Entries → Entries
  | [] => [(name, item)]
  | e :: es => if e.1 = name then (name, item) :: es else e :: put name item es

/-- Begins the table that a header names. -/
def begin? : List String → Entries → Option Entries
  | [], _ => none
  | [name], es =>
    match es.lookup name with
    | none => some (put name (.table false false []) es)
    | some (.table true false inner) => some (put name (.table false false inner) es)
    | some _ => none
  | name :: names, es =>
    match es.lookup name with
    | none => (begin? names []).map fun inner => put name (.table true false inner) es
    | some (.table implied dotted inner) =>
      (begin? names inner).map fun inner => put name (.table implied dotted inner) es
    | some (.value _) => none

/-- Gives a value to a key in a table. -/
def assign? (v : SettingValue) : List String → Entries → Option Entries
  | [], _ => none
  | [name], es => if (es.lookup name).isSome then none else some (put name (.value v) es)
  | name :: names, es =>
    match es.lookup name with
    | none => (assign? v names []).map fun inner => put name (.table true true inner) es
    | some (.table implied dotted inner) =>
      if !implied || (names.length == 1 && !dotted) then none
      else (assign? v names inner).map fun inner => put name (.table implied dotted inner) es
    | some (.value _) => none

/-- Changes the table at the end of a path of tables. -/
def within? (f : Entries → Option Entries) : List String → Entries → Option Entries
  | [], es => f es
  | name :: names, es =>
    match es.lookup name with
    | some (.table implied dotted inner) =>
      (within? f names inner).map fun inner => put name (.table implied dotted inner) es
    | _ => none

/-! ## Statements -/

/-- The gaps between the parts of a statement. -/
def skipGap (s : List Char) : List Char := s.dropWhile fun c => c == ' ' || c == '\t'

/-- Whether a character may stand as itself in strings and comments. -/
def isPrintable (c : Char) : Bool := c == '\t' || (c.toNat ≥ 0x20 && c.toNat ≠ 0x7F)

/-- Whether nothing but a comment is left of a line. -/
def isRest (s : List Char) : Bool :=
  match skipGap s with
  | [] => true
  | c :: r => c == '#' && r.all isPrintable

/-- The number that hexadecimal digits write. -/
def hexNumber? (ds : List Char) : Option Nat :=
  ds.foldl (fun n d => n.bind fun n => (Text.hexValue? d).map (16 * n + ·)) (some 0)

/-- The character with a number, unless it is a surrogate or too great. -/
def scalar? (n : Nat) : Option Char :=
  if n < 0xD800 ∨ (0xE000 ≤ n ∧ n < 0x110000) then some (Char.ofNat n) else none

/-- The character that a single letter behind a backslash stands for. -/
def shortEscape? (c : Char) : Option Char :=
  if c = 'b' then some '\x08'
  else if c = 't' then some '\t'
  else if c = 'n' then some '\n'
  else if c = 'f' then some '\x0c'
  else if c = 'r' then some '\r'
  else if c = '"' then some '"'
  else if c = '\\' then some '\\'
  else none

/-- The rest of a string in double quotes: its characters and what follows the closing quote. -/
def readBasic : List Char → Option (List Char × List Char)
  | [] => none
  | '"' :: r => some ([], r)
  | '\\' :: 'u' :: a :: b :: c :: d :: r =>
    match (hexNumber? [a, b, c, d]).bind scalar? with
    | none => none
    | some x => (readBasic r).map fun p => (x :: p.1, p.2)
  | '\\' :: 'U' :: a :: b :: c :: d :: e :: f :: g :: h :: r =>
    match (hexNumber? [a, b, c, d, e, f, g, h]).bind scalar? with
    | none => none
    | some x => (readBasic r).map fun p => (x :: p.1, p.2)
  | '\\' :: c :: r =>
    match shortEscape? c with
    | none => none
    | some x => (readBasic r).map fun p => (x :: p.1, p.2)
  | c :: r =>
    if c = '\\' ∨ !isPrintable c then none
    else (readBasic r).map fun p => (c :: p.1, p.2)

/-- The rest of a string in single quotes. -/
def readLiteral : List Char → Option (List Char × List Char)
  | [] => none
  | c :: r =>
    if c = '\'' then some ([], r)
    else if !isPrintable c then none
    else (readLiteral r).map fun p => (c :: p.1, p.2)

/-- The characters of a key without quotes. -/
def isBareChar (c : Char) : Bool := c.isAlphanum || c == '_' || c == '-'

/-- One part of a key and what follows it. -/
def readPart? (s : List Char) : Option (String × List Char) :=
  match s with
  | '"' :: r => (readBasic r).map fun p => (String.ofList p.1, p.2)
  | '\'' :: r => (readLiteral r).map fun p => (String.ofList p.1, p.2)
  | s =>
    let bare := s.takeWhile isBareChar
    if bare.isEmpty then none else some (String.ofList bare, s.dropWhile isBareChar)

/-- The parts of a key with points between them and what follows. Each part takes at least one
character. -/
def readKey? : Nat → List Char → Option (List String × List Char)
  | 0, _ => none
  | fuel + 1, s =>
    match readPart? (skipGap s) with
    | none => none
    | some (part, r) =>
      match skipGap r with
      | '.' :: t => (readKey? fuel t).map fun p => (part :: p.1, p.2)
      | t => some ([part], t)

/-- A key has fewer parts than this. -/
def keyLimit : Nat := 80

/-- A key of a header or a statement and what follows it; a key with too many parts is refused. -/
def key? (s : List Char) : Option (List String × List Char) :=
  (readKey? s.length s).filter fun p => p.1.length < keyLimit

/-- The digits of a numeral whose underscores stand between digits. -/
def digits? (isDigit : Char → Bool) (s : List Char) : Option (List Char) :=
  let groups := Text.cut (· == '_') s
  if groups.all fun g => !g.isEmpty && g.all isDigit then some groups.flatten else none

/-- The value of digits of a base. -/
def valueIn (base : Nat) (ds : List Char) : Nat :=
  ds.foldl (fun n d => base * n + (Text.hexValue? d).getD 0) 0

/-- The integer that a word writes. -/
def integer? (word : List Char) : Option Int :=
  let bound := Int.ofNat SettingValue.integerBound
  let inRange := fun (n : Int) => if -bound ≤ n ∧ n < bound then some n else none
  match word with
  | '0' :: 'x' :: r =>
    (digits? (fun c => (Text.hexValue? c).isSome) r).bind fun ds => inRange (valueIn 16 ds)
  | '0' :: 'o' :: r =>
    (digits? (fun c => '0' ≤ c && c ≤ '7') r).bind fun ds => inRange (valueIn 8 ds)
  | '0' :: 'b' :: r =>
    (digits? (fun c => c == '0' || c == '1') r).bind fun ds => inRange (valueIn 2 ds)
  | word =>
    let (sign, r) := match word with
      | '-' :: r => ((-1 : Int), r)
      | '+' :: r => (1, r)
      | r => (1, r)
    if r.head? = some '0' ∧ r.length ≠ 1 then none
    else (digits? Char.isDigit r).bind fun ds => inRange (sign * valueIn 10 ds)

/-- A value without quotes. -/
def word? (word : List Char) : Option SettingValue :=
  if word = "true".toList then some (.bool true)
  else if word = "false".toList then some (.bool false)
  else (integer? word).map SettingValue.integer

/-- A value and what follows it. -/
def readValue? (s : List Char) : Option (SettingValue × List Char) :=
  match s with
  | '"' :: r => (readBasic r).map fun p => (.text (String.ofList p.1), p.2)
  | '\'' :: r => (readLiteral r).map fun p => (.text (String.ofList p.1), p.2)
  | s =>
    let isEnd := fun c => c == ' ' || c == '\t' || c == '#'
    (word? (s.takeWhile (!isEnd ·))).map fun v => (v, s.dropWhile (!isEnd ·))

/-! ## Files -/

/-- What was read so far: the entries of the file and the table that the last header names. -/
structure Draft where
  entries : Entries
  current : List String

/-- Reads one line. -/
def readLine? (d : Draft) (line : List Char) : Option Draft :=
  match skipGap line with
  | '[' :: r =>
    match key? r with
    | some (names, ']' :: t) =>
      if isRest t then (begin? names d.entries).map fun entries => ⟨entries, names⟩ else none
    | _ => none
  | s =>
    if isRest s then some d
    else
      match key? s with
      | some (names, '=' :: t) =>
        match readValue? (skipGap t) with
        | none => none
        | some (v, r) =>
          if isRest r then
            (within? (assign? v names) d.current d.entries).map fun entries => { d with entries }
          else none
      | _ => none

mutual

/-- The value of an entry, with the names in it in lower case. -/
def Item.toValue : Item → SettingValue
  | .value v => v
  | .table _ _ entries => .table (entryValues entries)

/-- The values of entries. -/
def entryValues : List (String × Item) → List (String × SettingValue)
  | [] => []
  | (name, item) :: es => (Text.lower name, item.toValue) :: entryValues es

end

/-- Reads a settings file: its entries in order, with their names as they are written at the top and in
lower case below. A byte order mark at its start does not count. -/
def parse? (s : String) : Option (List (String × SettingValue)) :=
  let cs := s.toList
  let cs := if cs.head? = some '\uFEFF' then cs.tail else cs
  let ls := Text.closeLines (Text.cut (· == '\n') cs)
  (ls.foldlM readLine? ⟨[], []⟩).map fun d => d.entries.map fun e => (e.1, e.2.toValue)

end SpecDoc.Toml
