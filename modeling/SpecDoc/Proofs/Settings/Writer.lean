import SpecDoc.Proofs.Settings.Written
import SpecDoc.Proofs.Text.Lines

/-!
# Anchors of other documents are written

Every table of anchors can be written as a settings file: a header for the table of sites, one for each site, and
behind it a line for each of its anchors, with all names and texts in double quotes.

* `readPart?_quote`: every text is read back from between its quotes;
* `foldlM_readLine?_siteLines`: what the lines of sites add to what was read before;
* `sites?_ofSites`: the anchors are read back from the file;
* `exists_load_ofSites`: and it is a settings file.
-/

namespace SpecDoc.Toml

/-! ## The file -/

/-- How a character is written in double quotes: quotes, backslashes and control characters by their number. -/
def escapeChar (c : Char) : List Char :=
  if isPrintable c = true ∧ c ≠ '"' ∧ c ≠ '\\' then [c]
  else ['\\', 'u', '0', '0', Text.hexDigit (c.toNat / 16), Text.hexDigit (c.toNat % 16)]

/-- A text in double quotes. -/
def quote (s : String) : List Char := '"' :: (s.toList.flatMap escapeChar ++ ['"'])

/-- The header of the table of sites. -/
def sitesLine : List Char := "[biblio.sites]".toList

/-- The header of a site. -/
def siteLine (site : String) : List Char := "[biblio.sites.".toList ++ quote site ++ [']']

/-- The line of an anchor. -/
def anchorLine (e : String × String) : List Char := quote e.1 ++ " = ".toList ++ quote e.2

/-- The lines of a site. -/
def siteLines (s : String × Table String) : List (List Char) := siteLine s.1 :: s.2.entries.map anchorLine

/-- The file that writes anchors of other documents. -/
def ofSites (sites : ExternalAnchors) : String :=
  String.ofList ((sitesLine :: sites.entries.flatMap siteLines).flatMap fun l => l ++ ['\n'])

/-! ## Quotes -/

/-- A character that is not written as itself has a small number. -/
theorem toNat_lt_of_escaped {c : Char} (h : ¬(isPrintable c = true ∧ c ≠ '"' ∧ c ≠ '\\')) :
    c.toNat < 0x80 := by
  by_contra hc
  refine h ⟨?_, ?_, ?_⟩
  · simp only [isPrintable, Bool.or_eq_true, Bool.and_eq_true, decide_eq_true_eq]
    exact .inr ⟨by omega, by omega⟩
  · rintro rfl
    exact hc (by decide)
  · rintro rfl
    exact hc (by decide)

/-- A character of ASCII is read from four hexadecimal digits. -/
theorem hexNumber?_of_lt {n : Nat} (hn : n < 0x80) :
    hexNumber? ['0', '0', Text.hexDigit (n / 16), Text.hexDigit (n % 16)] = some n := by
  have hhigh := Text.hexValue?_hexDigit (n / 16) (by omega)
  have hlow := Text.hexValue?_hexDigit (n % 16) (by omega)
  have hzero : Text.hexValue? '0' = some 0 := by decide
  simp only [hexNumber?, List.foldl_cons, List.foldl_nil, Option.bind_some, hhigh, hlow, hzero, Option.map_some,
    Option.some.injEq]
  omega

/-- Four digits stand for the character of their number. -/
theorem readBasic_unicode {a b c d x : Char} (h : (hexNumber? [a, b, c, d]).bind scalar? = some x) (s : List Char) :
    readBasic ('\\' :: 'u' :: a :: b :: c :: d :: s) = (readBasic s).map fun p => (x :: p.1, p.2) := by
  rw [readBasic.eq_def]
  simp only [h]

/-- A printable character stands for itself, unless it is a quote or a backslash. -/
theorem readBasic_plain {c : Char} (hquote : c ≠ '"') (hslash : c ≠ '\\') (hc : isPrintable c = true)
    (s : List Char) : readBasic (c :: s) = (readBasic s).map fun p => (c :: p.1, p.2) := by
  rw [readBasic.eq_def]
  split
  · next h => cases h
  · next h =>
      cases h
      exact absurd rfl hquote
  -- The next three ways to start begin with a backslash.
  · next h =>
      cases h
      exact absurd rfl hslash
  · next h =>
      cases h
      exact absurd rfl hslash
  · next h =>
      cases h
      exact absurd rfl hslash
  · next h =>
      cases h
      rw [if_neg (by simp [hslash, hc])]

/-- A character is read back from what is written for it. -/
theorem readBasic_escapeChar (c : Char) (s : List Char) :
    readBasic (escapeChar c ++ s) = (readBasic s).map fun p => (c :: p.1, p.2) := by
  unfold escapeChar
  split
  · next h => exact readBasic_plain h.2.1 h.2.2 h.1 s
  · next h =>
      have hc := toNat_lt_of_escaped h
      have hnumber : (hexNumber? ['0', '0', Text.hexDigit (c.toNat / 16), Text.hexDigit (c.toNat % 16)]).bind scalar?
          = some c := by
        rw [hexNumber?_of_lt hc, Option.bind_some, scalar?, if_pos (.inl (by omega)), Char.ofNat_toNat]
      exact readBasic_unicode hnumber s

/-- Every text is read back from between its quotes. -/
theorem readBasic_quote (s : String) (rest : List Char) :
    readBasic (s.toList.flatMap escapeChar ++ '"' :: rest) = some (s.toList, rest) := by
  induction s.toList with
  | nil => rfl
  | cons c cs ih =>
      rw [List.flatMap_cons, List.append_assoc, readBasic_escapeChar, ih]
      rfl

/-- Every text in quotes is read back as a part of a key. -/
theorem readPart?_quote (s : String) (rest : List Char) : readPart? (quote s ++ rest) = some (s, rest) := by
  have hquote : quote s ++ rest = '"' :: (s.toList.flatMap escapeChar ++ '"' :: rest) := by simp [quote]
  rw [hquote, readPart?, readBasic_quote, Option.map_some, String.ofList_toList]

/-- Every text in quotes is read back as a value. -/
theorem readValue?_quote (s : String) (rest : List Char) :
    readValue? (quote s ++ rest) = some (.text s, rest) := by
  have hquote : quote s ++ rest = '"' :: (s.toList.flatMap escapeChar ++ '"' :: rest) := by simp [quote]
  rw [hquote, readValue?, readBasic_quote, Option.map_some, String.ofList_toList]

/-! ## Lines -/

/-- A text that starts with no gap has nothing to skip. -/
theorem skipGap_cons {c : Char} (hspace : c ≠ ' ') (htab : c ≠ '\t') (s : List Char) : skipGap (c :: s) = c :: s :=
  List.dropWhile_cons_of_neg (by simp [hspace, htab])

/-- A name without quotes is a part of a key. -/
theorem readPart?_bare {name : String} (hne : name.toList ≠ []) (hall : name.toList.all isBareChar = true)
    {c : Char} (hc : isBareChar c = false) (r : List Char) :
    readPart? (skipGap (name.toList ++ c :: r)) = some (name, c :: r) := by
  have hname : ∀ c ∈ name.toList, isBareChar c = true := List.all_eq_true.1 hall
  have htake : (name.toList ++ c :: r).takeWhile isBareChar = name.toList := by
    rw [List.takeWhile_append_of_pos hname, List.takeWhile_cons_of_neg (by simp [hc]), List.append_nil]
  have hdrop : (name.toList ++ c :: r).dropWhile isBareChar = c :: r := by
    rw [List.dropWhile_append_of_pos hname, List.dropWhile_cons_of_neg (by simp [hc])]
  obtain ⟨d, w, hw⟩ := List.exists_cons_of_ne_nil hne
  have hd : isBareChar d = true := hname d (hw ▸ List.mem_cons_self)
  have hother : ∀ q, isBareChar q = false → d ≠ q := fun q hq heq => by rw [← heq, hd] at hq; cases hq
  have hskip : skipGap (name.toList ++ c :: r) = name.toList ++ c :: r := by
    rw [hw, List.cons_append]
    exact skipGap_cons (hother ' ' (by decide)) (hother '\t' (by decide)) _
  have hstart : ∀ q, isBareChar q = false → ∀ s, name.toList ++ c :: r ≠ q :: s := by
    intro q hq s h
    rw [hw, List.cons_append] at h
    exact hother q hq (List.cons.inj h).1
  rw [hskip, readPart?]
  · rw [htake, hdrop, if_neg (by simpa using hne), String.ofList_toList]
  · exact hstart '"' (by decide)
  · exact hstart '\'' (by decide)

/-- A point behind a part of a key goes on with more parts. -/
theorem readKey?_point {s r : List Char} {part : String} (h : readPart? (skipGap s) = some (part, '.' :: r))
    (fuel : ℕ) : readKey? (fuel + 1) s = (readKey? fuel r).map fun p => (part :: p.1, p.2) := by
  rw [readKey?, h]
  dsimp only
  rw [skipGap_cons (by decide) (by decide)]
  rfl

/-- The last part of a key is the one that no point follows. -/
theorem readKey?_last {s r t : List Char} {part : String} {c : Char} (h : readPart? (skipGap s) = some (part, r))
    (hr : skipGap r = c :: t) (hc : c ≠ '.') (fuel : ℕ) : readKey? (fuel + 1) s = some ([part], c :: t) := by
  rw [readKey?, h]
  dsimp only
  rw [hr]
  split
  · next heq =>
      cases heq
      exact absurd rfl hc
  · rfl

/-- The key in the header of a site is read back. -/
theorem key?_site (site : String) :
    key? ("biblio.sites.".toList ++ quote site ++ [']']) = some (["biblio", "sites", site], [']']) := by
  have hheader : "biblio.sites.".toList = "biblio".toList ++ '.' :: ("sites".toList ++ ['.']) := by decide
  have hparts : "biblio.sites.".toList ++ quote site ++ [']']
      = "biblio".toList ++ '.' :: ("sites".toList ++ '.' :: (quote site ++ [']'])) := by
    simp only [hheader, List.append_assoc, List.cons_append, List.nil_append]
  have hlength : 3 ≤ ("biblio".toList ++ '.' :: ("sites".toList ++ '.' :: (quote site ++ [']']))).length := by
    simp only [List.length_append, List.length_cons]
    omega
  obtain ⟨fuel, hfuel⟩ := Nat.exists_eq_add_of_le' hlength
  have hbiblio : readPart? (skipGap ("biblio".toList ++ '.' :: ("sites".toList ++ '.' :: (quote site ++ [']']))))
      = some ("biblio", '.' :: ("sites".toList ++ '.' :: (quote site ++ [']']))) :=
    readPart?_bare (by decide) (by decide) (by decide) _
  have hsites : readPart? (skipGap ("sites".toList ++ '.' :: (quote site ++ [']'])))
      = some ("sites", '.' :: (quote site ++ [']'])) :=
    readPart?_bare (by decide) (by decide) (by decide) _
  have hsite : readPart? (skipGap (quote site ++ [']'])) = some (site, [']']) := readPart?_quote site [']']
  rw [hparts, key?, hfuel, readKey?_point hbiblio, readKey?_point hsites,
    readKey?_last hsite (skipGap_cons (by decide) (by decide) []) (by decide)]
  rfl

/-- A header of a site begins its table. -/
theorem readLine?_siteLine (d : Draft) (site : String) :
    readLine? d (siteLine site)
      = (begin? ["biblio", "sites", site] d.entries).map fun es => ⟨es, ["biblio", "sites", site]⟩ := by
  have hline : skipGap (siteLine site) = '[' :: ("biblio.sites.".toList ++ quote site ++ [']']) := rfl
  rw [readLine?, hline]
  simp only [key?_site]
  rfl

/-- The key in the line of an anchor is read back. -/
theorem key?_anchor (e : String × String) : key? (anchorLine e) = some ([e.1], '=' :: ' ' :: quote e.2) := by
  obtain ⟨fuel, hfuel⟩ : ∃ n, (anchorLine e).length = n + 1 :=
    ⟨(anchorLine e).length - 1, by simp [anchorLine]; omega⟩
  have hpart : readPart? (skipGap (anchorLine e)) = some (e.1, " = ".toList ++ quote e.2) := by
    rw [anchorLine, List.append_assoc]
    exact readPart?_quote e.1 _
  have hbehind : skipGap (" = ".toList ++ quote e.2) = '=' :: ' ' :: quote e.2 := rfl
  rw [key?, hfuel, readKey?_last hpart hbehind (by decide)]
  rfl

/-- The line of an anchor gives it its text in the table of the last header. -/
theorem readLine?_anchorLine (d : Draft) (e : String × String) :
    readLine? d (anchorLine e)
      = (within? (assign? (.text e.2) [e.1]) d.current d.entries).map fun es => { d with entries := es } := by
  obtain ⟨r, hr⟩ : ∃ r, anchorLine e = '"' :: r := ⟨_, rfl⟩
  have hskip : skipGap (anchorLine e) = anchorLine e := by rw [hr, skipGap_cons (by decide) (by decide)]
  have hrest : isRest (anchorLine e) = false := by rw [isRest, hskip, hr]; rfl
  have hvalue : readValue? (skipGap (' ' :: quote e.2)) = some (.text e.2, []) := by
    have hgap : skipGap (' ' :: quote e.2) = quote e.2 ++ [] := by rw [List.append_nil]; rfl
    rw [hgap, readValue?_quote]
  rw [readLine?, hskip]
  split
  · next heq =>
      rw [hr] at heq
      cases heq
  · rw [hrest, if_neg Bool.false_ne_true, key?_anchor]
    simp only [hvalue]
    rfl

/-! ## Tables under construction -/

/-- The entries of a site. -/
def anchorItems (anchors : List (String × String)) : Entries := anchors.map fun e => (e.1, .value (.text e.2))

/-- The entries of the table of sites. -/
def siteItems (sites : List (String × Table String)) : Entries :=
  sites.map fun s => (s.1, .table false false (anchorItems s.2.entries))

/-- What was read when the table of sites has the given entries. -/
def draftOf (es : Entries) (current : List String) : Draft :=
  ⟨[("biblio", .table true false [("sites", .table false false es)])], current⟩

/-- An entry is put behind entries of other names. -/
theorem put_append {name : String} {item : Item} {es : Entries} (h : es.lookup name = none) (rest : Entries) :
    put name item (es ++ rest) = es ++ put name item rest := by
  induction es with
  | nil => rfl
  | cons e es ih =>
      rw [Table.lookup_cons_eq_ite] at h
      by_cases hname : name = e.1
      · rw [if_pos hname] at h
        cases h
      · rw [if_neg hname] at h
        rw [List.cons_append, put, if_neg (Ne.symm hname), ih h, List.cons_append]

/-- A new entry is put behind the others. -/
theorem put_of_lookup_eq_none {name : String} {item : Item} {es : Entries} (h : es.lookup name = none) :
    put name item es = es ++ [(name, item)] := by
  have hput : put name item (es ++ []) = es ++ put name item [] := put_append h []
  rwa [List.append_nil] at hput

/-- The last entry is replaced. -/
theorem put_concat {name : String} {item old : Item} {es : Entries} (h : es.lookup name = none) :
    put name item (es ++ [(name, old)]) = es ++ [(name, item)] := by
  rw [put_append h, put, if_pos rfl]

/-- The last entry is found. -/
theorem lookup_concat {name : String} {item : Item} {es : Entries} (h : es.lookup name = none) :
    (es ++ [(name, item)]).lookup name = some item := by
  rw [List.lookup_append, h, Option.none_or, Table.lookup_cons_eq_ite, if_pos rfl]

/-- The header of the table of sites begins it. -/
theorem readLine?_sitesLine : readLine? ⟨[], []⟩ sitesLine = some (draftOf [] ["biblio", "sites"]) := by
  have hline : skipGap sitesLine = '[' :: "biblio.sites]".toList := rfl
  have hkey : key? "biblio.sites]".toList = some (["biblio", "sites"], [']']) := by decide
  rw [readLine?, hline]
  simp only [hkey]
  rfl

/-- The header of a site begins a table behind the others. -/
theorem readLine?_siteLine_draftOf {es : Entries} {site : String} (h : es.lookup site = none)
    (current : List String) :
    readLine? (draftOf es current) (siteLine site)
      = some (draftOf (es ++ [(site, .table false false [])]) ["biblio", "sites", site]) := by
  rw [readLine?_siteLine, draftOf]
  simp [begin?, h, put, put_of_lookup_eq_none h, draftOf]

/-- The line of an anchor adds it to the last site. -/
theorem readLine?_anchorLine_draftOf {es : Entries} {site : String} (h : es.lookup site = none)
    {anchors : List (String × String)} {e : String × String} (he : (anchorItems anchors).lookup e.1 = none) :
    readLine? (draftOf (es ++ [(site, .table false false (anchorItems anchors))]) ["biblio", "sites", site])
        (anchorLine e)
      = some (draftOf (es ++ [(site, .table false false (anchorItems (anchors ++ [e])))])
          ["biblio", "sites", site]) := by
  have hassign : assign? (.text e.2) [e.1] (anchorItems anchors) = some (anchorItems (anchors ++ [e])) := by
    rw [assign?, he, put_of_lookup_eq_none he, anchorItems, anchorItems, List.map_append]
    rfl
  rw [readLine?_anchorLine, draftOf]
  simp [within?, lookup_concat h, hassign, put, put_concat h, draftOf]

/-- An entry of a new name is not found. -/
theorem lookup_map_eq_none {α : Type} {f : String × α → Item} {l : List (String × α)} {name : String}
    (h : name ∉ l.map Prod.fst) : (l.map fun x => (x.1, f x)).lookup name = none := by
  refine List.lookup_eq_none_iff.2 fun p hp => ?_
  obtain ⟨x, hx, rfl⟩ := List.mem_map.1 hp
  exact bne_iff_ne.2 fun heq => h (heq ▸ List.mem_map_of_mem hx)

/-- A name that stands once is not among the names before it. -/
theorem not_mem_of_nodup_append {α : Type} {l more : List (String × α)} {x : String × α}
    (h : ((l ++ x :: more).map Prod.fst).Nodup) : x.1 ∉ l.map Prod.fst := by
  rw [List.map_append, List.nodup_append] at h
  exact fun hmem => h.2.2 x.1 hmem x.1 List.mem_cons_self rfl

/-- The lines of anchors add them to the last site. -/
theorem foldlM_readLine?_anchorLines {es : Entries} {site : String} (h : es.lookup site = none)
    (anchors more : List (String × String)) (hnames : ((anchors ++ more).map Prod.fst).Nodup) :
    (more.map anchorLine).foldlM readLine?
        (draftOf (es ++ [(site, .table false false (anchorItems anchors))]) ["biblio", "sites", site])
      = some (draftOf (es ++ [(site, .table false false (anchorItems (anchors ++ more)))])
          ["biblio", "sites", site]) := by
  induction more generalizing anchors with
  | nil => rw [List.append_nil, List.map_nil, List.foldlM_nil, Option.pure_def]
  | cons e more ih =>
      have hnew : (anchorItems anchors).lookup e.1 = none := lookup_map_eq_none (not_mem_of_nodup_append hnames)
      rw [List.append_cons] at hnames
      rw [List.map_cons, List.foldlM_cons, readLine?_anchorLine_draftOf h hnew,
        Option.bind_eq_bind, Option.bind_some, ih (anchors ++ [e]) hnames, ← List.append_cons]

/-- The lines of sites add them to the table of sites. -/
theorem foldlM_readLine?_siteLines (sites more : List (String × Table String))
    (hnames : ((sites ++ more).map Prod.fst).Nodup) (current : List String) :
    ∃ current', (more.flatMap siteLines).foldlM readLine? (draftOf (siteItems sites) current)
      = some (draftOf (siteItems (sites ++ more)) current') := by
  induction more generalizing sites current with
  | nil => exact ⟨current, by rw [List.append_nil, List.flatMap_nil, List.foldlM_nil, Option.pure_def]⟩
  | cons s more ih =>
      have hlookup : (siteItems sites).lookup s.1 = none := lookup_map_eq_none (not_mem_of_nodup_append hnames)
      have hanchors := foldlM_readLine?_anchorLines hlookup [] s.2.entries s.2.nodup_keys
      have hsites : siteItems sites ++ [(s.1, .table false false (anchorItems ([] ++ s.2.entries)))]
          = siteItems (sites ++ [s]) := by
        rw [siteItems, siteItems, List.map_append, List.nil_append]
        rfl
      rw [hsites] at hanchors
      rw [List.append_cons] at hnames ⊢
      obtain ⟨current', hmore⟩ := ih (sites ++ [s]) hnames ["biblio", "sites", s.1]
      refine ⟨current', ?_⟩
      rw [List.flatMap_cons, List.foldlM_append, siteLines, List.foldlM_cons, readLine?_siteLine_draftOf hlookup,
        Option.bind_eq_bind, Option.bind_some]
      exact Option.bind_eq_some_iff.2 ⟨_, hanchors, hmore⟩

/-! ## The file is read back -/

/-- A line holds no line feed and does not end with a carriage return. -/
def IsLine (l : List Char) : Prop := '\n' ∉ l ∧ l.getLast? ≠ some '\r'

/-- What is written for a character holds no line feed. -/
theorem newline_not_mem_escapeChar (c : Char) : '\n' ∉ escapeChar c := by
  unfold escapeChar
  split
  · next h =>
      intro hmem
      rw [← List.mem_singleton.1 hmem] at h
      exact absurd h.1 (by decide)
  · next h =>
      have hc := toNat_lt_of_escaped h
      have hdigit : ∀ n < 16, '\n' ≠ Text.hexDigit n := by decide
      have hhigh := hdigit (c.toNat / 16) (by omega)
      have hlow := hdigit (c.toNat % 16) (by omega)
      simp [hhigh, hlow]

/-- A text in quotes holds no line feed. -/
theorem newline_not_mem_quote (s : String) : '\n' ∉ quote s := by
  intro h
  rcases List.mem_cons.1 h with h | h
  · exact absurd h (by decide)
  · rcases List.mem_append.1 h with h | h
    · obtain ⟨c, -, hc⟩ := List.mem_flatMap.1 h
      exact newline_not_mem_escapeChar c hc
    · exact absurd (List.mem_singleton.1 h) (by decide)

/-- The header of a site is a line. -/
theorem isLine_siteLine (site : String) : IsLine (siteLine site) := by
  have hheader : '\n' ∉ "[biblio.sites.".toList := by decide
  have hbracket : '\n' ∉ [']'] := by decide
  have hlast : (siteLine site).getLast? = some ']' := List.getLast?_concat
  refine ⟨fun h => ?_, by rw [hlast]; decide⟩
  rcases List.mem_append.1 h with h | h
  · exact (List.mem_append.1 h).elim hheader (newline_not_mem_quote site)
  · exact hbracket h

/-- The line of an anchor is a line. -/
theorem isLine_anchorLine (e : String × String) : IsLine (anchorLine e) := by
  have hequals : '\n' ∉ " = ".toList := by decide
  have hlast : (anchorLine e).getLast? = some '"' := by
    have hquote : (quote e.2).getLast? = some '"' := by rw [quote, ← List.cons_append, List.getLast?_concat]
    rw [anchorLine, List.getLast?_append, hquote]
    rfl
  refine ⟨fun h => ?_, by rw [hlast]; decide⟩
  rcases List.mem_append.1 h with h | h
  · exact (List.mem_append.1 h).elim (newline_not_mem_quote e.1) hequals
  · exact newline_not_mem_quote e.2 h

/-- All lines of the file are lines. -/
theorem isLine_of_mem {sites : List (String × Table String)} {l : List Char}
    (h : l ∈ sitesLine :: sites.flatMap siteLines) : IsLine l := by
  rcases List.mem_cons.1 h with rfl | h
  · exact ⟨by decide, by decide⟩
  · obtain ⟨s, -, hl⟩ := List.mem_flatMap.1 h
    rcases List.mem_cons.1 hl with rfl | hl
    · exact isLine_siteLine s.1
    · obtain ⟨e, -, rfl⟩ := List.mem_map.1 hl
      exact isLine_anchorLine e

/-- A file is read as what its lines make up. -/
theorem draft?_of_lines {ls : List (List Char)} (hlines : ∀ l ∈ ls, IsLine l)
    (hmark : (ls.flatMap fun l => l ++ ['\n']).head? ≠ some '\uFEFF') :
    draft? (String.ofList (ls.flatMap fun l => l ++ ['\n'])) = ls.foldlM readLine? ⟨[], []⟩ := by
  have hreturn : ls.map Text.dropReturn = ls :=
    (List.map_congr_left fun l hl => Text.dropReturn_eq_self (hlines l hl).2).trans (List.map_id' ls)
  have hclose : Text.closeLines (ls ++ [[]]) = ls := by
    rw [Text.closeLines_append ls (List.cons_ne_nil _ _), hreturn]
    exact List.append_nil ls
  have hcut := Text.cut_flatMap_concat fun l hl => (hlines l hl).1
  rw [draft?]
  simp only [String.toList_ofList, if_neg hmark, hcut, hclose]

/-- What is read from the file are the entries of the sites. -/
theorem exists_draft?_ofSites (sites : ExternalAnchors) :
    ∃ current, draft? (ofSites sites) = some (draftOf (siteItems sites.entries) current) := by
  obtain ⟨current, hsites⟩ := foldlM_readLine?_siteLines [] sites.entries sites.nodup_keys ["biblio", "sites"]
  have hmark : ((sitesLine :: sites.entries.flatMap siteLines).flatMap fun l => l ++ ['\n']).head?
      ≠ some '\uFEFF' := by
    have hline : sitesLine = '[' :: "biblio.sites]".toList := rfl
    rw [List.flatMap_cons, hline, List.cons_append, List.cons_append, List.head?_cons]
    decide
  refine ⟨current, ?_⟩
  rw [ofSites, draft?_of_lines (fun l hl => isLine_of_mem hl) hmark, List.foldlM_cons, readLine?_sitesLine,
    Option.bind_eq_bind, Option.bind_some]
  exact hsites

/-- A table is written by entries that write its values. -/
theorem table?_map_entries {α : Type} {value? : Item → Option α} {write : α → Item}
    (hwrite : ∀ x, value? (write x) = some x) (t : Table α) :
    (Item.table false false (t.entries.map fun e => (e.1, write e.2))).table? value? = some t := by
  have hnames : ((t.entries.map fun e => (e.1, write e.2)).map Prod.fst).Nodup := by
    rw [List.map_map]
    exact t.nodup_keys
  rw [Item.table?, if_pos hnames, Table.mapM_map_entries hwrite, Option.map_some, Table.ofList_entries]

/-- The entries of sites write them. -/
theorem sites?_siteItems (sites : ExternalAnchors) :
    (Item.table false false (siteItems sites.entries)).sites? = some sites := by
  have htext : ∀ s : String, (Item.value (.text s)).text? = some s := fun _ => rfl
  have hanchors : ∀ anchors : Table String,
      (Item.table false false (anchorItems anchors.entries)).table? Item.text? = some anchors :=
    table?_map_entries htext
  exact table?_map_entries hanchors sites

/-- The table of sites is all there is. -/
theorem biblioEntries_draftOf (es : Entries) (current : List String) :
    biblioEntries (draftOf es current) = (draftOf es current).entries := by
  have hkey : Settings.keyOfName "biblio" = .top "biblio" := rfl
  simp [biblioEntries, draftOf, hkey, SettingKey.first]

/-- **Anchors are written.** Anchors of other documents are read back from the file that writes them. -/
theorem sites?_ofSites (sites : ExternalAnchors) : sites? (ofSites sites) = some sites := by
  obtain ⟨current, hdraft⟩ := exists_draft?_ofSites sites
  rw [sites?, hdraft, Option.map_some, biblioEntries_draftOf]
  exact sites?_siteItems sites

/-- The settings of a file that writes anchors of other documents can be had. -/
theorem exists_load_ofSites {a : FileAccess} {path : String} {sites : ExternalAnchors}
    (h : a.read path = .ok (ofSites sites)) (required : Bool) :
    ∃ s, Settings.load a [.file path required] = .ok s := by
  obtain ⟨current, hdraft⟩ := exists_draft?_ofSites sites
  refine Settings.exists_load_of_sites? h (sites?_ofSites sites) ?_ required
  rw [hdraft, Option.map_some, biblioEntries_draftOf, Option.map_some]

end SpecDoc.Toml
