import Mathlib.Data.List.DropRight
import Mathlib.Data.List.Forall2
import SpecDoc.Json.Reader
import SpecDoc.Proofs.Text.Lines

/-!
# JSON texts are read back

Both writers put the same tokens down; they differ in the blanks between them, and these are skipped by the
reader. `Reads` says that a text is read as a value whatever follows it, and there is one lemma for each way
to put a text together from others.

* `readString_escape`: every text is read back from between its quotes;
* `reads_array` and `reads_object`: arrays and objects, with blanks in front of their parts;
* `parse?_compact` and `parse?_pretty`: a value without numbers is read back from what either of the two
  writes;
* `parseWithin?_compact_iff` and `parseWithin?_pretty_iff`: under a limit, it is if it is no deeper than that;
* `parseWithin?_bind_table?`: no limit above one hides a table of tables of texts.
-/

namespace SpecDoc.Json

open Text

/-! ## Strings -/

/-- A letter behind a backslash, `u` apart, stands for one character. -/
theorem readString_short {e c : Char} (he : e ≠ 'u') (h : shortEscape? e = some c)
    (s : List Char) :
    readString ('\\' :: e :: s) = (readString s).map fun p => (c :: p.1, p.2) := by
  rw [readString]
  · rw [h]
  · exact fun _ _ _ _ _ hu _ => he hu

/-- Four digits of a number below the surrogates stand for the character of this number. -/
theorem readString_unicode {a b c d : Char} {n : ℕ} (h : hexValue4? a b c d = some n)
    (hn : n < 0xD800) (s : List Char) :
    readString ('\\' :: 'u' :: a :: b :: c :: d :: s)
      = (readString s).map fun p => (Char.ofNat n :: p.1, p.2) := by
  rw [readString, h]
  dsimp only
  rw [if_neg (by simp; omega), if_neg (by simp; omega)]

/-- Any other character stands for itself. -/
theorem readString_plain {c : Char} (hquote : c ≠ '"') (hslash : c ≠ '\\')
    (hc : ¬c.toNat < 0x20) (s : List Char) :
    readString (c :: s) = (readString s).map fun p => (c :: p.1, p.2) := by
  rw [readString]
  · rw [if_neg (not_or.2 ⟨hc, hslash⟩)]
  · exact hquote
  · exact fun _ _ _ _ _ h _ => hslash h
  · exact fun _ _ h _ => hslash h

/-- The digits of a control character write its number. -/
theorem hexValue4?_of_lt {n : ℕ} (hn : n < 0x20) :
    hexValue4? '0' '0' (hexDigit (n / 16)) (hexDigit (n % 16)) = some n := by
  have hhigh := hexValue?_hexDigit (n / 16) (by omega)
  have hlow := hexValue?_hexDigit (n % 16) (by omega)
  have hzero : hexValue? '0' = some 0 := by decide
  simp only [hexValue4?, hhigh, hlow, hzero, Option.bind_eq_bind, Option.bind_some, Option.pure_def,
    Option.some.injEq]
  omega

/-- A character is read back from what is written for it. -/
theorem readString_escapeChar (c : Char) (s : List Char) :
    readString (escapeChar c ++ s) = (readString s).map fun p => (c :: p.1, p.2) := by
  by_cases hshort : c ∈ ['"', '\\', '\x08', '\t', '\n', '\x0c', '\r']
  · -- A short escape ends with a letter of its own.
    simp only [List.mem_cons, List.not_mem_nil, or_false] at hshort
    rcases hshort with rfl | rfl | rfl | rfl | rfl | rfl | rfl <;>
      exact readString_short (by decide) (by decide) s
  · simp only [List.mem_cons, List.not_mem_nil, or_false, not_or] at hshort
    obtain ⟨hquote, hslash, hback, htab, hline, hfeed, hreturn⟩ := hshort
    unfold escapeChar
    rw [if_neg hquote, if_neg hslash, if_neg hback, if_neg htab, if_neg hline, if_neg hfeed,
      if_neg hreturn]
    by_cases hc : c.toNat < 0x20
    · have hread := readString_unicode (hexValue4?_of_lt hc) (by omega) s
      rw [Char.ofNat_toNat] at hread
      rw [if_pos hc]
      exact hread
    · rw [if_neg hc]
      exact readString_plain hquote hslash hc s

/-- Every text is read back from between its quotes. -/
theorem readString_escape (cs rest : List Char) :
    readString (cs.flatMap escapeChar ++ '"' :: rest) = some (cs, rest) := by
  induction cs with
  | nil => simp [readString]
  | cons c cs ih =>
      rw [List.flatMap_cons, List.append_assoc, readString_escapeChar, ih]
      rfl

/-! ## Blanks -/

/-- Blanks in front of a text are skipped. -/
theorem skipGap_append {g : List Char} (hg : ∀ c ∈ g, isGap c = true) (s : List Char) :
    skipGap (g ++ s) = skipGap s :=
  List.dropWhile_append_of_pos hg

/-- A text that starts with another character has nothing to skip. -/
theorem skipGap_cons {c : Char} (hc : isGap c = false) (s : List Char) :
    skipGap (c :: s) = c :: s :=
  List.dropWhile_cons_of_neg (by simp [hc])

/-- There is nothing to skip behind blanks that were skipped. -/
theorem skipGap_skipGap (s : List Char) : skipGap (skipGap s) = skipGap s :=
  List.dropWhile_idempotent isGap s

/-- How a value is read does not depend on the blanks in front of it. -/
theorem readValue_congr {s t : List Char} (h : skipGap s = skipGap t) (fuel : ℕ) :
    readValue fuel s = readValue fuel t := by
  cases fuel with
  | zero => simp only [readValue]
  | succ fuel => rw [readValue, readValue, h]

/-- How the items of an array are read does not depend on the blanks in front of them. -/
theorem readItems_skipGap (fuel : ℕ) (s : List Char) :
    readItems fuel (skipGap s) = readItems fuel s := by
  cases fuel with
  | zero => simp only [readItems]
  | succ fuel => rw [readItems, readItems, readValue_congr (skipGap_skipGap s)]

/-- How the fields of an object are read does not depend on the blanks in front of them. -/
theorem readFields_skipGap (fuel : ℕ) (s : List Char) :
    readFields fuel (skipGap s) = readFields fuel s := by
  cases fuel with
  | zero => simp only [readFields]
  | succ fuel => rw [readFields, readFields, skipGap_skipGap]

/-! ## Texts of values -/

/-- Whether a text is read as a value, whatever follows it. Two units of fuel for each character are
enough. -/
def Reads (text : List Char) (j : Json) : Prop :=
  ∀ (fuel : ℕ) (rest : List Char), 2 * text.length ≤ fuel →
    readValue fuel (text ++ rest) = some (j, rest)

/-- Blanks may be put in front of the text of a value. -/
theorem Reads.append_left {text : List Char} {j : Json} (h : Reads text j) {g : List Char}
    (hg : ∀ c ∈ g, isGap c = true) : Reads (g ++ text) j := by
  intro fuel rest hfuel
  rw [List.length_append] at hfuel
  rw [List.append_assoc, readValue_congr (skipGap_append hg _)]
  exact h fuel rest (by omega)

/-- No value starts with a closing bracket. -/
theorem Reads.skipGap_ne {text : List Char} {j : Json} (h : Reads text j)
    (rest t : List Char) : skipGap (text ++ rest) ≠ ']' :: t := by
  intro hskip
  have hread := h (2 * text.length + 1) rest (by omega)
  rw [readValue, hskip] at hread
  simp [readNumber?, readWhole?, readDigits?] at hread

/-- A text in quotes is read as this text. -/
theorem reads_quote (s : String) : Reads (quote s).toList (.string s) := by
  intro fuel rest hfuel
  have hquote : (quote s).toList ++ rest = '"' :: (s.toList.flatMap escapeChar ++ '"' :: rest) := by
    simp [quote]
  obtain ⟨fuel, rfl⟩ : ∃ m, fuel = m + 1 := ⟨fuel - 1, by simp [quote] at hfuel; omega⟩
  rw [hquote, readValue, skipGap_cons (by decide)]
  simp only [readString_escape, Option.map_some, String.ofList_toList]

/-! ## Arrays and objects -/

/-- Behind an item and a comma there are more items. -/
theorem Reads.readItems_comma {text : List Char} {j : Json} (h : Reads text j) {fuel : ℕ}
    (hfuel : 2 * text.length ≤ fuel) {s t : List Char} (hskip : skipGap s = ',' :: t) :
    readItems (fuel + 1) (text ++ s) = (readItems fuel t).map fun p => (j :: p.1, p.2) := by
  simp only [readItems, h fuel s hfuel, hskip]

/-- A bracket ends the items. -/
theorem Reads.readItems_bracket {text : List Char} {j : Json} (h : Reads text j) {fuel : ℕ}
    (hfuel : 2 * text.length ≤ fuel) {s t : List Char} (hskip : skipGap s = ']' :: t) :
    readItems (fuel + 1) (text ++ s) = some ([j], t) := by
  simp only [readItems, h fuel s hfuel, hskip]

/-- Items are read if commas stand between their texts and blanks behind the last one. -/
theorem readItems_join {texts : List (List Char)} {js : List Json}
    (h : List.Forall₂ Reads texts js) (hne : texts ≠ []) {g : List Char}
    (hg : ∀ c ∈ g, isGap c = true) (rest : List Char) {fuel : ℕ}
    (hfuel : 2 * (join [','] texts).length + 1 ≤ fuel) :
    readItems fuel (join [','] texts ++ g ++ ']' :: rest) = some (js, rest) := by
  induction h generalizing fuel with
  | nil => exact absurd rfl hne
  | @cons text j texts js hread hrest ih =>
      obtain ⟨fuel, rfl⟩ : ∃ m, fuel = m + 1 := ⟨fuel - 1, by omega⟩
      cases hrest with
      | nil =>
          have hclose : skipGap (g ++ ']' :: rest) = ']' :: rest := by
            rw [skipGap_append hg, skipGap_cons (by decide)]
          rw [join] at hfuel
          rw [join, List.append_assoc, hread.readItems_bracket (by omega) hclose]
      | @cons text' j' texts js _ _ =>
          rw [join_cons_cons, List.length_append, List.length_cons] at hfuel
          rw [join_cons_cons, List.append_assoc, List.append_assoc, List.cons_append,
            hread.readItems_comma (by omega) (skipGap_cons (by decide) _), ← List.append_assoc,
            ih (List.cons_ne_nil _ _) (show _ ≤ fuel by omega), Option.map_some]

/-- Whether a text is a name in quotes, a colon and the text of a value, with blanks before the name. -/
def ReadsField (text : List Char) (field : String × Json) : Prop :=
  ∃ g value, text = g ++ ((quote field.1).toList ++ ':' :: value) ∧ (∀ c ∈ g, isGap c = true) ∧
    Reads value field.2

/-- A field and what follows it. -/
theorem ReadsField.exists_readString {text : List Char} {field : String × Json}
    (h : ReadsField text field) (s : List Char) :
    ∃ r value, skipGap (text ++ s) = '"' :: r ∧
      readString r = some (field.1.toList, ':' :: (value ++ s)) ∧
      value.length < text.length ∧ Reads value field.2 := by
  obtain ⟨g, value, rfl, hg, hvalue⟩ := h
  refine ⟨field.1.toList.flatMap escapeChar ++ '"' :: ':' :: (value ++ s), value, ?_,
    readString_escape _ _, ?_, hvalue⟩
  · rw [List.append_assoc, skipGap_append hg]
    simp [quote, skipGap_cons (show isGap '"' = false by decide)]
  · simp only [List.length_append, List.length_cons]
    omega

/-- A field is read up to what is behind its value. -/
theorem ReadsField.exists_readValue {text : List Char} {field : String × Json}
    (h : ReadsField text field) {fuel : ℕ} (hfuel : 2 * text.length ≤ fuel) (s : List Char) :
    ∃ r value, skipGap (text ++ s) = '"' :: r ∧
      readString r = some (field.1.toList, ':' :: (value ++ s)) ∧
      skipGap (':' :: (value ++ s)) = ':' :: (value ++ s) ∧
      readValue fuel (value ++ s) = some (field.2, s) := by
  obtain ⟨r, value, hskip, hname, hlength, hread⟩ := h.exists_readString s
  exact ⟨r, value, hskip, hname, skipGap_cons (by decide) _, hread fuel s (by omega)⟩

/-- Behind a field and a comma there are more fields. -/
theorem ReadsField.readFields_comma {text : List Char} {field : String × Json}
    (h : ReadsField text field) {fuel : ℕ} (hfuel : 2 * text.length ≤ fuel) {s t : List Char}
    (hbehind : skipGap s = ',' :: t) :
    readFields (fuel + 1) (text ++ s) = (readFields fuel t).map fun p => (field :: p.1, p.2) := by
  obtain ⟨r, value, hskip, hname, hcolon, hvalue⟩ := h.exists_readValue hfuel s
  rw [readFields, hskip]
  simp only [hname, hcolon, hvalue, hbehind, String.ofList_toList]

/-- A brace ends the fields. -/
theorem ReadsField.readFields_brace {text : List Char} {field : String × Json}
    (h : ReadsField text field) {fuel : ℕ} (hfuel : 2 * text.length ≤ fuel) {s t : List Char}
    (hbehind : skipGap s = '\x7d' :: t) : readFields (fuel + 1) (text ++ s) = some ([field], t) := by
  obtain ⟨r, value, hskip, hname, hcolon, hvalue⟩ := h.exists_readValue hfuel s
  rw [readFields, hskip]
  simp only [hname, hcolon, hvalue, hbehind, String.ofList_toList]

/-- Fields are read if commas stand between their texts and blanks behind the last one. -/
theorem readFields_join {texts : List (List Char)} {fields : List (String × Json)}
    (h : List.Forall₂ ReadsField texts fields) (hne : texts ≠ []) {g : List Char}
    (hg : ∀ c ∈ g, isGap c = true) (rest : List Char) {fuel : ℕ}
    (hfuel : 2 * (join [','] texts).length + 1 ≤ fuel) :
    readFields fuel (join [','] texts ++ g ++ '\x7d' :: rest) = some (fields, rest) := by
  induction h generalizing fuel with
  | nil => exact absurd rfl hne
  | @cons text field texts fields hfield hrest ih =>
      obtain ⟨fuel, rfl⟩ : ∃ m, fuel = m + 1 := ⟨fuel - 1, by omega⟩
      cases hrest with
      | nil =>
          have hclose : skipGap (g ++ '\x7d' :: rest) = '\x7d' :: rest := by
            rw [skipGap_append hg, skipGap_cons (by decide)]
          rw [join] at hfuel
          rw [join, List.append_assoc, hfield.readFields_brace (by omega) hclose]
      | @cons text' field' texts fields _ _ =>
          rw [join_cons_cons, List.length_append, List.length_cons] at hfuel
          rw [join_cons_cons, List.append_assoc, List.append_assoc, List.cons_append,
            hfield.readFields_comma (by omega) (skipGap_cons (by decide) _), ← List.append_assoc,
            ih (List.cons_ne_nil _ _) (show _ ≤ fuel by omega), Option.map_some]

/-- An opening bracket starts an array. -/
theorem readValue_bracket (fuel : ℕ) (s : List Char) :
    readValue (fuel + 1) ('[' :: s) =
      match skipGap s with
      | ']' :: t => some (.array [], t)
      | t => (readItems fuel t).map fun p => (.array p.1, p.2) := by
  rw [readValue, skipGap_cons (by decide)]
  rfl

/-- An opening brace starts an object. -/
theorem readValue_brace (fuel : ℕ) (s : List Char) :
    readValue (fuel + 1) ('\x7b' :: s) =
      match skipGap s with
      | '\x7d' :: t => some (.object [], t)
      | t => (readFields fuel t).map fun p => (.object p.1, p.2) := by
  rw [readValue, skipGap_cons (by decide)]
  rfl

/-- An array is read if commas stand between the texts of its items and blanks behind the last one. -/
theorem reads_array {texts : List (List Char)} {js : List Json}
    (h : List.Forall₂ Reads texts js) {g : List Char} (hg : ∀ c ∈ g, isGap c = true) :
    Reads ('[' :: (join [','] texts ++ g ++ [']'])) (.array js) := by
  intro fuel rest hfuel
  simp only [List.length_cons, List.length_append] at hfuel
  obtain ⟨fuel, rfl⟩ : ∃ m, fuel = m + 1 := ⟨fuel - 1, by omega⟩
  have htext : '[' :: (join [','] texts ++ g ++ [']']) ++ rest
      = '[' :: (join [','] texts ++ g ++ ']' :: rest) := by
    simp
  rw [htext, readValue_bracket]
  cases h with
  | nil =>
      have hclose : skipGap (g ++ ']' :: rest) = ']' :: rest := by
        rw [skipGap_append hg, skipGap_cons (by decide)]
      rw [join, List.nil_append, hclose]
      rfl
  | @cons text j texts js hread hrest =>
      have hitems := readItems_join (.cons hread hrest) (List.cons_ne_nil _ _) hg rest
        (show 2 * (join [','] (text :: texts)).length + 1 ≤ fuel by omega)
      obtain ⟨s, hs⟩ := exists_join_cons ',' text texts
      split
      · next t hskip =>
          rw [hs, List.append_assoc, List.append_assoc] at hskip
          exact absurd hskip (hread.skipGap_ne _ t)
      · rw [readItems_skipGap, hitems]
        rfl

/-- An object is read if commas stand between the texts of its fields and blanks behind the last one. -/
theorem reads_object {texts : List (List Char)} {fields : List (String × Json)}
    (h : List.Forall₂ ReadsField texts fields) {g : List Char} (hg : ∀ c ∈ g, isGap c = true) :
    Reads ('\x7b' :: (join [','] texts ++ g ++ ['\x7d'])) (.object fields) := by
  intro fuel rest hfuel
  simp only [List.length_cons, List.length_append] at hfuel
  obtain ⟨fuel, rfl⟩ : ∃ m, fuel = m + 1 := ⟨fuel - 1, by omega⟩
  have htext : '\x7b' :: (join [','] texts ++ g ++ ['\x7d']) ++ rest
      = '\x7b' :: (join [','] texts ++ g ++ '\x7d' :: rest) := by
    simp
  rw [htext, readValue_brace]
  cases h with
  | nil =>
      have hclose : skipGap (g ++ '\x7d' :: rest) = '\x7d' :: rest := by
        rw [skipGap_append hg, skipGap_cons (by decide)]
      rw [join, List.nil_append, hclose]
      rfl
  | @cons text field texts fields hfield hrest =>
      have hfields := readFields_join (.cons hfield hrest) (List.cons_ne_nil _ _) hg rest
        (show 2 * (join [','] (text :: texts)).length + 1 ≤ fuel by omega)
      obtain ⟨s, hs⟩ := exists_join_cons ',' text texts
      split
      · next t hskip =>
          obtain ⟨r, value, hquote, -⟩ := hfield.exists_readString (s ++ (g ++ '\x7d' :: rest))
          rw [hs, List.append_assoc, List.append_assoc, hquote] at hskip
          simp at hskip
      · rw [readFields_skipGap, hfields]
        rfl

/-! ## Whole values -/

mutual

/-- Whether a value holds no numbers. -/
def NumberFree : Json → Prop
  | .number _ => False
  | .array items => NumberFreeItems items
  | .object fields => NumberFreeFields fields
  | _ => True

/-- Whether the items of an array hold no numbers. -/
def NumberFreeItems : List Json → Prop
  | [] => True
  | j :: js => j.NumberFree ∧ NumberFreeItems js

/-- Whether the fields of an object hold no numbers. -/
def NumberFreeFields : List (String × Json) → Prop
  | [] => True
  | (_, j) :: fs => j.NumberFree ∧ NumberFreeFields fs

end

/-- The word of an absent value is read. -/
theorem reads_null : Reads "null".toList .null := by
  intro fuel rest hfuel
  obtain ⟨fuel, rfl⟩ : ∃ m, fuel = m + 1 := ⟨fuel - 1, by simp at hfuel; omega⟩
  have hword : "null".toList ++ rest = 'n' :: (['u', 'l', 'l'] ++ rest) := by simp
  rw [hword, readValue, skipGap_cons (by decide)]
  simp [afterWord?]

/-- The words of the two truth values are read. -/
theorem reads_bool (b : Bool) : Reads (if b then "true" else "false").toList (.bool b) := by
  intro fuel rest hfuel
  cases b with
  | true =>
      obtain ⟨fuel, rfl⟩ : ∃ m, fuel = m + 1 := ⟨fuel - 1, by simp at hfuel; omega⟩
      have hword : "true".toList ++ rest = 't' :: (['r', 'u', 'e'] ++ rest) := by simp
      rw [if_pos rfl, hword, readValue, skipGap_cons (by decide)]
      simp [afterWord?]
  | false =>
      obtain ⟨fuel, rfl⟩ : ∃ m, fuel = m + 1 := ⟨fuel - 1, by simp at hfuel; omega⟩
      have hword : "false".toList ++ rest = 'f' :: (['a', 'l', 's', 'e'] ++ rest) := by simp
      rw [if_neg Bool.false_ne_true, hword, readValue, skipGap_cons (by decide)]
      simp [afterWord?]

/-- A name, a colon and a value make a field. -/
theorem readsField_quote (name : String) {value : String} {j : Json} (h : Reads value.toList j)
    {g : List Char} (hg : ∀ c ∈ g, isGap c = true) {colon : String}
    (hcolon : colon.toList = ':' :: g) :
    ReadsField (quote name ++ colon ++ value).toList (name, j) := by
  refine ⟨[], g ++ value.toList, ?_, by simp, h.append_left hg⟩
  simp [hcolon]

mutual

/-- A value without numbers is read back from one line. -/
theorem reads_compact (j : Json) (h : j.NumberFree) : Reads j.compact.toList j := by
  cases j with
  | null => exact reads_null
  | bool b => exact reads_bool b
  | number n => exact h.elim
  | string s => exact reads_quote s
  | array items =>
      rw [NumberFree] at h
      have hitems := List.forall₂_map_left_iff.2 (reads_compactItems items h)
      have hread := reads_array hitems (g := []) (by simp)
      simpa [compact, intercalate_eq_join] using hread
  | object fields =>
      rw [NumberFree] at h
      have hfields := List.forall₂_map_left_iff.2 (reads_compactFields fields h)
      have hread := reads_object hfields (g := []) (by simp)
      simpa [compact, intercalate_eq_join] using hread

/-- The items of an array are each read back from one line. -/
theorem reads_compactItems (js : List Json) (h : NumberFreeItems js) :
    List.Forall₂ (fun text j => Reads text.toList j) (compactItems js) js := by
  cases js with
  | nil => exact .nil
  | cons j js =>
      rw [NumberFreeItems] at h
      exact .cons (reads_compact j h.1) (reads_compactItems js h.2)

/-- The fields of an object are each read back from one line. -/
theorem reads_compactFields (fields : List (String × Json)) (h : NumberFreeFields fields) :
    List.Forall₂ (fun text field => ReadsField text.toList field) (compactFields fields) fields := by
  cases fields with
  | nil => exact .nil
  | cons field fields =>
      obtain ⟨name, j⟩ := field
      rw [NumberFreeFields] at h
      exact .cons (readsField_quote name (reads_compact j h.1) (by simp) rfl)
        (reads_compactFields fields h.2)

end

/-- A line break and an indentation are blanks. -/
theorem isGap_of_mem_newline (level : ℕ) {c : Char} (hc : c ∈ (newline level).toList) :
    isGap c = true := by
  simp only [newline, String.toList_ofList, List.mem_cons, List.mem_replicate] at hc
  rcases hc with rfl | ⟨-, rfl⟩ <;> rfl

/-- The indentation between the parts may be counted to the part behind it. -/
theorem append_join_eq_join_map (g : List Char) {ws : List (List Char)} (hne : ws ≠ []) :
    g ++ join (',' :: g) ws = join [','] (ws.map fun w => g ++ w) := by
  induction ws with
  | nil => exact absurd rfl hne
  | cons w ws ih =>
      cases ws with
      | nil => rfl
      | cons v vs =>
          have hrest := ih (List.cons_ne_nil v vs)
          rw [List.map_cons, List.map_cons, join_cons_cons, ← List.map_cons, ← hrest]
          simp [join]

/-- Parts between brackets have blanks before each of them and behind the last one. -/
theorem exists_toList_bracket (opening closing : Char) (level : ℕ) (parts : List String) :
    ∃ g, (∀ c ∈ g, isGap c = true) ∧
      (bracket (String.singleton opening) (String.singleton closing) level parts).toList
        = opening :: (join [','] (parts.map fun part =>
            (newline (level + 1)).toList ++ part.toList) ++ g ++ [closing]) := by
  cases parts with
  | nil => exact ⟨[], by simp, by simp [bracket, join]⟩
  | cons part parts =>
      refine ⟨(newline level).toList, fun c hc => isGap_of_mem_newline level hc, ?_⟩
      have htext : (bracket (String.singleton opening) (String.singleton closing) level
            (part :: parts)).toList
          = opening :: ((newline (level + 1)).toList
              ++ join (',' :: (newline (level + 1)).toList) ((part :: parts).map String.toList)
              ++ (newline level).toList ++ [closing]) := by
        rw [bracket, if_neg (by simp)]
        simp [intercalate_eq_join]
      rw [htext, append_join_eq_join_map _ (by simp), List.map_map]
      rfl

/-- Blanks may be put in front of a field. -/
theorem ReadsField.append_left {text : List Char} {field : String × Json}
    (h : ReadsField text field) {g : List Char} (hg : ∀ c ∈ g, isGap c = true) :
    ReadsField (g ++ text) field := by
  obtain ⟨g', value, rfl, hg', hvalue⟩ := h
  refine ⟨g ++ g', value, by simp, fun c hc => ?_, hvalue⟩
  rcases List.mem_append.1 hc with hc | hc
  · exact hg c hc
  · exact hg' c hc

mutual

/-- A value without numbers is read back from several lines. -/
theorem reads_prettyAt (level : ℕ) (j : Json) (h : j.NumberFree) :
    Reads (prettyAt level j).toList j := by
  cases j with
  | null => exact reads_null
  | bool b => exact reads_bool b
  | number n => exact h.elim
  | string s => exact reads_quote s
  | array items =>
      rw [NumberFree] at h
      obtain ⟨g, hg, htext⟩ := exists_toList_bracket '[' ']' level (prettyItems level items)
      have hitems := (reads_prettyItems level items h).imp fun text j hread =>
        hread.append_left fun c hc => isGap_of_mem_newline (level + 1) hc
      have hread := reads_array (List.forall₂_map_left_iff.2 hitems) hg
      exact htext ▸ hread
  | object fields =>
      rw [NumberFree] at h
      obtain ⟨g, hg, htext⟩ := exists_toList_bracket '\x7b' '\x7d' level (prettyFields level fields)
      have hfields := (reads_prettyFields level fields h).imp fun text field hread =>
        hread.append_left fun c hc => isGap_of_mem_newline (level + 1) hc
      have hread := reads_object (List.forall₂_map_left_iff.2 hfields) hg
      exact htext ▸ hread

/-- The items of an array inside `level` brackets are read back. -/
theorem reads_prettyItems (level : ℕ) (js : List Json) (h : NumberFreeItems js) :
    List.Forall₂ (fun text j => Reads text.toList j) (prettyItems level js) js := by
  cases js with
  | nil => exact .nil
  | cons j js =>
      rw [NumberFreeItems] at h
      exact .cons (reads_prettyAt (level + 1) j h.1) (reads_prettyItems level js h.2)

/-- The fields of an object inside `level` brackets are read back. -/
theorem reads_prettyFields (level : ℕ) (fields : List (String × Json))
    (h : NumberFreeFields fields) :
    List.Forall₂ (fun text field => ReadsField text.toList field) (prettyFields level fields)
      fields := by
  cases fields with
  | nil => exact .nil
  | cons field fields =>
      obtain ⟨name, j⟩ := field
      rw [NumberFreeFields] at h
      exact .cons (readsField_quote name (reads_prettyAt (level + 1) j h.1) (by simp; decide) rfl)
        (reads_prettyFields level fields h.2)

end

/-- The reader takes a text that is read as a value. -/
theorem parse?_of_reads {text : String} {j : Json} (h : Reads text.toList j) :
    parse? text = some j := by
  have hread := h (2 * text.toList.length + 1) [] (by omega)
  rw [List.append_nil] at hread
  simp [parse?, hread, skipGap]

/-- What is written on one line is read back. -/
theorem parse?_compact {j : Json} (h : j.NumberFree) : parse? j.compact = some j :=
  parse?_of_reads (reads_compact j h)

/-- What is written over several lines is read back. -/
theorem parse?_pretty {j : Json} (h : j.NumberFree) : parse? j.pretty = some j :=
  parse?_of_reads (reads_prettyAt 0 j h)

/-! ## Limits of the depth -/

/-- A limit refuses the values that are deeper, and no others. -/
theorem parseWithin?_eq_some_iff {limit : ℕ} {text : String} {j : Json} :
    parseWithin? limit text = some j ↔ parse? text = some j ∧ j.depth ≤ limit := by
  rw [parseWithin?, Option.filter_eq_some_iff, decide_eq_true_iff]

/-- Under a limit, what is written on one line is read back if it is no deeper. -/
theorem parseWithin?_compact_iff {j : Json} (h : j.NumberFree) (limit : ℕ) :
    parseWithin? limit j.compact = some j ↔ j.depth ≤ limit := by
  rw [parseWithin?_eq_some_iff, and_iff_right (parse?_compact h)]

/-- Under a limit, what is written over several lines is read back if it is no deeper. -/
theorem parseWithin?_pretty_iff {j : Json} (h : j.NumberFree) (limit : ℕ) :
    parseWithin? limit j.pretty = some j ↔ j.depth ≤ limit := by
  rw [parseWithin?_eq_some_iff, and_iff_right (parse?_pretty h)]

/-- A text is no bracket. -/
theorem depth_le_of_string? {j : Json} {s : String} (h : j.string? = some s) : j.depth ≤ 0 := by
  cases j with
  | string s => exact le_rfl
  | _ => cases h

/-- A table is one bracket deeper than its values. -/
theorem depth_le_of_table? {α : Type} {value? : Json → Option α} {k : ℕ}
    (hvalue : ∀ j v, value? j = some v → j.depth ≤ k) {j : Json} {t : Table α}
    (h : j.table? value? = some t) : j.depth ≤ k + 1 := by
  cases j with
  | object fields =>
      rw [table?, Option.map_eq_some_iff] at h
      obtain ⟨entries, hentries, -⟩ := h
      show depthOfFields fields + 1 ≤ k + 1
      apply Nat.succ_le_succ
      induction fields generalizing entries with
      | nil => exact Nat.zero_le k
      | cons field fields ih =>
          rw [List.mapM_cons, Option.bind_eq_bind, Option.bind_eq_some_iff] at hentries
          obtain ⟨entry, hentry, hrest⟩ := hentries
          rw [Option.bind_eq_bind, Option.bind_eq_some_iff] at hrest
          obtain ⟨rest, hrest, -⟩ := hrest
          obtain ⟨v, hv, -⟩ := Option.map_eq_some_iff.1 hentry
          exact max_le (hvalue field.2 v hv) (ih rest hrest)
  | _ => cases h

/-- **Tables under a limit.** A table of tables of texts is two brackets deep, so a limit that is not below two hides
none. -/
theorem parseWithin?_bind_table? {limit : ℕ} (h : 2 ≤ limit) (text : String) :
    (parseWithin? limit text).bind (table? (table? string?)) = (parse? text).bind (table? (table? string?)) := by
  cases hread : parse? text with
  | none => rw [parseWithin?, hread, Option.filter_none]
  | some j =>
      by_cases hdepth : j.depth ≤ limit
      · rw [parseWithin?_eq_some_iff.2 ⟨hread, hdepth⟩]
      · -- What is deeper than the limit is no such table.
        have hnone : j.table? (table? string?) = none := by
          rw [Option.eq_none_iff_forall_ne_some]
          intro t ht
          have htwo := depth_le_of_table? (fun _ _ => depth_le_of_table? fun _ _ => depth_le_of_string?) ht
          omega
        rw [parseWithin?, hread, Option.filter_some_neg (by simpa using hdepth), Option.bind_some, hnone,
          Option.bind_none]

end SpecDoc.Json
