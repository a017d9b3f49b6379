import SpecDoc.Text.Case
import SpecDoc.Text.Decimal

/-!
# Setting values

Settings are given as a tree of tables. A setting is named by a key, which goes from table to table and
may pick a position of a list. Names are in lower case throughout.

* `SettingKey.parse?` reads a key;
* `SettingKey.set` sets what a key names: a table is merged into the one that is there, and anything
  else replaces what is there.
-/

namespace SpecDoc

/-- The value of a setting. -/
inductive SettingValue where
  | nothing
  | bool (value : Bool)
  | integer (value : Int)
  | text (value : String)
  /-- Any other scalar, such as a fraction: what it is as a truth value, a number and a text. -/
  | other (truth : Option Bool) (number : Option Nat) (writing : Option String)
  | list (items : List SettingValue)
  | table (entries : List (String × SettingValue))

/-- What names a setting: a name, a name in a table, or a position in a list. -/
inductive SettingKey where
  | top (name : String)
  | child (key : SettingKey) (name : String)
  | item (key : SettingKey) (position : Int)
deriving DecidableEq

namespace SettingValue

/-- Whole numbers have 64 bits: they lie below this bound and not below its negative. -/
def integerBound : Nat := 9223372036854775808

/-- The entries of a table; anything else has none. -/
def entries : SettingValue → List (String × SettingValue)
  | .table entries => entries
  | _ => []

/-- The items of a list; anything else has none. -/
def items : SettingValue → List SettingValue
  | .list items => items
  | _ => []

/-- Changes the value of a name, or puts a new one behind the others. -/
def alter (name : String) (f : Option SettingValue → SettingValue) :
    List (String × SettingValue) → List (String × SettingValue)
  | [] => [(name, f none)]
  | e :: es => if e.1 = name then (name, f (some e.2)) :: es else e :: alter name f es

mutual

/-- What becomes of the value of a name, which may not be there, when a value is set. -/
def overlay (old : Option SettingValue) : SettingValue → SettingValue
  | .table entries => overlayEntries (old.getD (.table [])) entries
  | v => v

/-- What becomes of a value when the entries of a table are set in it. -/
def overlayEntries (old : SettingValue) : List (String × SettingValue) → SettingValue
  | [] => old
  | (name, v) :: es =>
    overlayEntries (.table (alter name (fun old => overlay old v) old.entries)) es

end

/-- Sets the value of a name in a table; anything else becomes a table first. -/
def setName (root : SettingValue) (name : String) (v : SettingValue) : SettingValue :=
  .table (alter name (fun old => overlay old v) root.entries)

/-- The index that a position stands for in a list of a length; negative ones count from its end. -/
def index? (length : Nat) (position : Int) : Option Nat :=
  if 0 ≤ position then some position.toNat
  else if position.natAbs ≤ length then some (length - position.natAbs)
  else none

/-- Changes a position of a list, which grows as needed. -/
def alterItem (items : List SettingValue) (position : Int) (f : SettingValue → SettingValue) :
    List SettingValue :=
  match index? items.length position with
  | none => items
  | some i =>
    let items := items ++ List.replicate (i + 1 - items.length) .nothing
    items.modify i f

end SettingValue

namespace SettingKey

open SettingValue

/-- Changes the value that a key names. What is not there, or has another shape, is made on the way. -/
def alter (f : SettingValue → SettingValue) : SettingKey → SettingValue → SettingValue
  | .top name, root => .table (SettingValue.alter name (fun old => f (old.getD .nothing)) root.entries)
  | .child key name, root =>
    alter (fun v =>
      .table (SettingValue.alter name (fun old => f (old.getD .nothing)) v.entries)) key root
  | .item key position, root => alter (fun v => .list (alterItem v.items position f)) key root

/-- Sets the value that a key names. -/
def set (key : SettingKey) (root v : SettingValue) : SettingValue :=
  match key with
  | .top name => setName root name v
  | .child key name => key.alter (fun parent => setName parent name v) root
  | .item key position => key.alter (fun parent => .list (alterItem parent.items position fun _ => v)) root

/-! ## Reading a key -/

/-- The characters of a name in a key. -/
def isNameChar (c : Char) : Bool := c.isAlphanum || c == ' ' || c == '_' || c == '-'

/-- The lower case of a name. -/
def nameOf (cs : List Char) : String := Text.lower (String.ofList cs)

/-- A position between brackets, with spaces and tabs around it, and what follows it. -/
def readPosition? (s : List Char) : Option (Int × List Char) :=
  let isGap := fun c => c == ' ' || c == '\t'
  let s := s.dropWhile isGap
  let (negative, s) := match s with
    | '-' :: r => (true, r)
    | _ => (false, s)
  let digits := s.takeWhile Char.isDigit
  match (s.dropWhile Char.isDigit).dropWhile isGap with
  | ']' :: r =>
    let n := Text.decimalValue digits
    if digits.isEmpty || n ≥ SettingValue.integerBound then none
    else some (if negative then -Int.ofNat n else Int.ofNat n, r)
  | _ => none

/-- Reads the rest of a key behind a part of it. Each step takes at least one character. -/
def readMore? (key : SettingKey) : Nat → List Char → Option SettingKey
  | _, [] => some key
  | 0, _ => none
  | fuel + 1, '.' :: r =>
    let name := r.takeWhile isNameChar
    if name.isEmpty then none
    else readMore? (.child key (nameOf name)) fuel (r.dropWhile isNameChar)
  | fuel + 1, '[' :: r =>
    match readPosition? r with
    | none => none
    | some (position, t) => readMore? (.item key position) fuel t
  | _ + 1, _ => none

/-- Reads a key: a name, then names behind points and positions in brackets. -/
def parse? (s : String) : Option SettingKey :=
  let cs := s.toList
  let name := cs.takeWhile isNameChar
  if name.isEmpty then none
  else readMore? (.top (nameOf name)) cs.length (cs.dropWhile isNameChar)

end SettingKey

end SpecDoc
