import Mathlib.Logic.Basic
import Mathlib.Data.Nat.Notation
import SpecDoc.Proofs.Bare
import SpecDoc.Proofs.Markup.Parts

/-!
# Blocks without places

Which blocks a sequence of lines has does not depend on the file and on the number of its first
line; these only show in the spans. And no block goes past a heading or a blank line, unless it is
code, so blocks can be read up to there and from there on.

* `map_bare_items`: the blocks are the same wherever the lines stand;
* `bareItems_append`: the blocks of two sequences of lines, one after the other;
* `IsHeadingLine`: the lines that headings are read from.
-/

namespace SpecDoc.Markup

open Text Node

/-! ## Where the lines stand -/

/-- Whether a change of spans takes the lines of a file from number `n` on to those of another file from
number `n'` on. -/
def Moves (f : Span → Span) (file file' : Option String) (n n' : ℕ) : Prop :=
  ∀ k first more, f (linesSpan file (n + k) first more) = linesSpan file' (n' + k) first more

/-- What a block is, with its spans changed. -/
def Content.mapSpans (f : Span → Span) : Content → Content
  | .block node => .block (node.mapSpans f)
  | c => c

section Moves

variable {f : Span → Span} {file file' : Option String} {n n' : ℕ}

theorem Moves.linesSpan_eq (h : Moves f file file' n n') (first : List Char)
    (more : List (List Char)) : f (linesSpan file n first more) = linesSpan file' n' first more :=
  h 0 first more

/-- Lines that are moved together are moved from each of them on. -/
theorem Moves.add (h : Moves f file file' n n') (m : ℕ) : Moves f file file' (n + m) (n' + m) := by
  intro k first more
  rw [Nat.add_assoc, Nat.add_assoc]
  exact h (m + k) first more

/-- Lines can be moved anywhere. -/
theorem exists_moves (file file' : Option String) (n n' : ℕ) : ∃ f, Moves f file file' n n' := by
  refine ⟨fun s => ⟨file', ⟨s.start.line - n + n', s.start.column⟩,
    ⟨s.finish.line - n + n', s.finish.column⟩⟩, fun k first more => ?_⟩
  have hfirst : n + k - n + n' = n' + k := by omega
  have hlast : n + k + more.length - n + n' = n' + k + more.length := by omega
  simp only [linesSpan, Span.lines, hfirst, hlast]

/-- Inline text has no spans to change. -/
theorem mapSpans_inlineGroup (f : Span → Span) (g : Group) (span : Option Span) (text : List Char) :
    (inlineGroup g span text).mapSpans f = inlineGroup g (span.map f) text := by
  have hinline := everywhere_isInline_inlines text
  rw [inlineGroup, mapSpans_group, map_mapSpans_eq_self f (hinline.mono fun _ => IsInline.span?_eq)]
  rfl

/-- Moved steps of an algorithm only have other spans. -/
theorem map_mapSpans_steps (h : Moves f file file' n n') (ls : List (List Char)) :
    (steps file n ls).map (Node.mapSpans f) = steps file' n' ls := by
  induction ls generalizing n n' with
  | nil => rfl
  | cons l ls ih =>
      rw [steps, List.map_cons, mapSpans_inlineGroup, Option.map_some, h.linesSpan_eq, ih (h.add 1),
        steps]

/-- A moved item of a list only has other spans. -/
theorem mapSpans_node {e : ListEntry} {start' : ℕ} (h : Moves f file file' e.start start') :
    (e.node file).mapSpans f = ListEntry.node file' { e with start := start' } := by
  rw [ListEntry.node, mapSpans_inlineGroup, Option.map_some, h.linesSpan_eq]
  rfl

/-- Moved items of a list only have other spans. -/
theorem map_mapSpans_listEntries (h : Moves f file file' n n') {e : ListEntry} {start' : ℕ}
    (hstart : Moves f file file' e.start start') (ls : List (List Char)) :
    ((listEntries n e ls).map (·.node file)).map (Node.mapSpans f)
      = (listEntries n' { e with start := start' } ls).map (·.node file') := by
  induction ls generalizing n n' e start' with
  | nil => simp only [listEntries, List.map_cons, List.map_nil, mapSpans_node hstart]
  | cons l ls ih =>
      rw [listEntries, listEntries]
      split
      · rw [List.map_cons, List.map_cons, mapSpans_node hstart, ih (h.add 1) h]
        rfl
      · exact ih (h.add 1) hstart

/-- What a block is only depends on where it stands as far as its spans do. -/
theorem mapSpans_blockContent (h : Moves f file file' n n') (line : List Char)
    (tail : List (List Char)) :
    (blockContent file n line tail).mapSpans f = blockContent file' n' line tail := by
  have hinline : ∀ ns, Everywhere IsInline ns → ns.map (Node.mapSpans f) = ns :=
    fun ns hns => map_mapSpans_eq_self f (hns.mono fun _ => IsInline.span?_eq)
  unfold blockContent
  cases heading? line with
  | some p => rfl
  | none =>
  cases fence? line with
  | some info =>
      cases tail with
      | nil => rfl
      | cons l tail =>
          simp only [Content.mapSpans, codeNode, mapSpans_leaf, Option.map_some, h.linesSpan_eq]
  | none =>
  cases subsection? line with
  | some title => rfl
  | none =>
  cases algorithm? line with
  | some p =>
      simp only [Content.mapSpans, mapSpans_rule, Option.map_some, h.linesSpan_eq,
        map_mapSpans_steps (h.add 1), mapSpans_leaf, Option.map_none]
  | none =>
  cases production? line with
  | some p =>
      dsimp only
      split
      · simp only [Content.mapSpans, mapSpans_rule, Option.map_some, h.linesSpan_eq, producedToken,
          mapSpans_leaf, Option.map_none, hinline _ (everywhere_isInline_map_terminalRow tail)]
      · simp only [Content.mapSpans, mapSpans_rule, Option.map_some, h.linesSpan_eq, producedToken,
          mapSpans_leaf, Option.map_none, hinline _ (everywhere_isInline_productionBody _ tail)]
  | none =>
  cases listItem? line with
  | some p =>
      have hentries := map_mapSpans_listEntries (h.add 1) (e := ⟨n, line, []⟩) h tail
      simp only [Content.mapSpans, mapSpans_group, Option.map_some, h.linesSpan_eq, hentries]
  | none =>
  cases definition? line with
  | some text =>
      simp only [Content.mapSpans, mapSpans_group, Option.map_some, h.linesSpan_eq,
        hinline _ (everywhere_isInline_markTerm (everywhere_isInline_inlines _))]
  | none =>
  cases remark? line with
  | some p =>
      rcases p with ⟨_ | _, text⟩ <;>
        simp only [Content.mapSpans, mapSpans_group, Option.map_some, h.linesSpan_eq, List.map_cons,
          List.map_nil, mapSpans_inlineGroup, Option.map_none]
  | none =>
      simp only [Content.mapSpans, mapSpans_inlineGroup, Option.map_some, h.linesSpan_eq]

/-- The block with its spans changed. -/
def Item.mapSpans (f : Span → Span) (i : Item) : Item := ⟨i.line, f i.span, i.content.mapSpans f⟩

/-- Blocks are read in another file as they are in the first one. -/
theorem map_mapSpans_items (h : Moves f file file' n n) (ls : List (List Char)) :
    (items file n ls).map (Item.mapSpans f) = items file' n ls := by
  fun_induction items file n ls with
  | case1 =>
      rw [items]
      rfl
  | case2 n line rest hblank ih =>
      rw [items, if_pos hblank]
      exact ih (h.add 1)
  | case3 n line rest hblank extent ih =>
      rw [items, if_neg hblank, List.map_cons, ih ((h.add 1).add extent)]
      congr 1
      simp only [Item.mapSpans, blockItem, h.linesSpan_eq, mapSpans_blockContent h]

end Moves

/-! ## Blocks that stand nowhere -/

/-- What a block is, without its places. -/
def Content.bare : Content → Content
  | .block node => .block node.bare
  | c => c

/-- The block without its place. -/
def Item.bare (i : Item) : Item := ⟨1, .origin, i.content.bare⟩

/-- To forget the places of a block is to change its spans. -/
theorem Content.bare_eq_mapSpans (c : Content) : c.bare = c.mapSpans fun _ => .origin := by
  cases c <;> simp only [bare, mapSpans, Node.bare_eq_mapSpans]

/-- Other spans do not matter without places. -/
theorem Content.bare_mapSpans (f : Span → Span) (c : Content) : (c.mapSpans f).bare = c.bare := by
  cases c with
  | block node =>
      have hnode := map_bare_map_mapSpans f [node]
      exact congrArg Content.block (List.singleton_inj.1 hnode)
  | _ => rfl

variable (file file' : Option String) (n n' : ℕ)

/-- What a block is does not depend on where it stands. -/
theorem bare_blockContent (line : List Char) (tail : List (List Char)) :
    (blockContent file n line tail).bare = (blockContent file' n' line tail).bare := by
  obtain ⟨f, hf⟩ := exists_moves file file' n n'
  rw [← mapSpans_blockContent hf, Content.bare_mapSpans]

/-- The blocks of lines that stand nowhere. -/
def bareItems (ls : List (List Char)) : List Item := (items none 1 ls).map Item.bare

/-- The blocks of lines are the same wherever the lines stand. -/
theorem map_bare_items (ls : List (List Char)) : (items file n ls).map Item.bare = bareItems ls := by
  have key : ∀ n n', (items file n ls).map Item.bare = (items none n' ls).map Item.bare := by
    intro n
    fun_induction items file n ls with
    | case1 =>
        intro n'
        rw [items]
    | case2 n line rest hblank ih =>
        intro n'
        rw [items, if_pos hblank]
        exact ih (n' + 1)
    | case3 n line rest hblank extent ih =>
        intro n'
        rw [items, if_neg hblank, List.map_cons, List.map_cons]
        congr 1
        · exact congrArg (Item.mk 1 .origin) (bare_blockContent _ _ _ _ _ _)
        · exact ih _
  exact key n 1

/-! ## Equations -/

@[simp]
theorem bareItems_nil : bareItems [] = [] := by
  rw [bareItems, items]
  rfl

/-- A blank line has no block. -/
theorem bareItems_cons_of_allBlank {line : List Char} (h : allBlank line = true)
    (rest : List (List Char)) : bareItems (line :: rest) = bareItems rest := by
  rw [bareItems, items, if_pos h, map_bare_items]

/-- Any other line starts a block. -/
theorem bareItems_cons_of_not_allBlank {line : List Char} (h : allBlank line = false)
    (rest : List (List Char)) :
    bareItems (line :: rest)
      = ⟨1, .origin, (blockContent none 1 line (blockTail line rest)).bare⟩ ::
        bareItems (rest.drop (blockTail line rest).length) := by
  rw [bareItems, items, if_neg (by simp [h]), List.map_cons, map_bare_items]
  rfl

/-! ## Where blocks end -/

/-- Whether a line ends every block before it that is no code: it is blank or a heading. -/
def isBoundary (line : List Char) : Bool := allBlank line || (heading? line).isSome

/-- A heading starts with a number sign. -/
theorem exists_eq_cons_of_heading? {line : List Char} (h : (heading? line).isSome) :
    ∃ r, line = '#' :: r := by
  unfold heading? at h
  cases line with
  | nil => simp at h
  | cons c r =>
      by_cases hc : c = '#'
      · exact ⟨r, by rw [hc]⟩
      · simp [hc] at h

/-- A blank text is trimmed to nothing. -/
theorem trimStart_eq_nil {s : List Char} (h : allBlank s = true) : trimStart s = [] := by
  induction s with
  | nil => rfl
  | cons c s ih =>
      rw [allBlank, List.all_cons, Bool.and_eq_true] at h
      rw [trimStart, List.dropWhile_cons, if_pos h.1]
      exact ih h.2

section Boundary

variable {line : List Char} (h : isBoundary line = true)

include h

/-- A boundary is no item of a list. -/
theorem listItem?_of_isBoundary : listItem? line = none := by
  rw [isBoundary, Bool.or_eq_true] at h
  rcases h with hblank | hheading
  · rw [listItem?, trimStart_eq_nil hblank]
    rfl
  · obtain ⟨r, rfl⟩ := exists_eq_cons_of_heading? hheading
    rfl

/-- A boundary is not indented. -/
theorem isIndented_of_isBoundary : isIndented line = false := by
  rw [isBoundary, Bool.or_eq_true] at h
  rcases h with hblank | hheading
  · rw [isIndented, hblank, Bool.not_true, Bool.and_false]
  · obtain ⟨r, rfl⟩ := exists_eq_cons_of_heading? hheading
    rfl

/-- A boundary is no alternative of a production. -/
theorem alternative?_of_isBoundary : alternative? line = none := by
  rw [isBoundary, Bool.or_eq_true] at h
  rcases h with hblank | hheading
  · cases line with
    | nil => rfl
    | cons b s =>
        rw [allBlank, List.all_cons, Bool.and_eq_true] at hblank
        simp only [alternative?, trimStart_eq_nil hblank.2]
  · obtain ⟨r, rfl⟩ := exists_eq_cons_of_heading? hheading
    rw [alternative?]
    split
    · rfl
    · rfl

/-- A boundary does not go on with a paragraph. -/
theorem continuesParagraph_of_isBoundary : continuesParagraph line = false := by
  rw [isBoundary, Bool.or_eq_true] at h
  rcases h with hblank | hheading
  · rw [continuesParagraph, hblank, Bool.not_true, Bool.false_and]
  · rw [continuesParagraph, startsBlock, hheading]
    simp

end Boundary

/-- Whether lines start with a boundary, if there are any. -/
def StartsAtBoundary (ls : List (List Char)) : Prop := ∀ l ∈ ls.head?, isBoundary l = true

/-- What ends at a boundary is not longer because of what is behind it. -/
theorem takeWhile_append_of_startsAtBoundary {p : List Char → Bool}
    (hp : ∀ l, isBoundary l = true → p l = false) {ls' : List (List Char)}
    (h : StartsAtBoundary ls') (ls : List (List Char)) :
    (ls ++ ls').takeWhile p = ls.takeWhile p := by
  induction ls with
  | nil =>
      cases ls' with
      | nil => rfl
      | cons l ls' =>
          rw [List.nil_append, List.takeWhile_cons, hp l (h l rfl)]
          rfl
  | cons l ls ih =>
      rw [List.cons_append, List.takeWhile_cons, List.takeWhile_cons, ih]

/-- What ends behind the first line of a kind is not longer because of what is behind it. -/
theorem take_append_of_any {p : List Char → Bool} {ls : List (List Char)} (h : ls.any p = true)
    (ls' : List (List Char)) :
    (ls ++ ls').take (((ls ++ ls').takeWhile (!p ·)).length + 1)
      = ls.take ((ls.takeWhile (!p ·)).length + 1) := by
  induction ls with
  | nil => cases h
  | cons l ls ih =>
      cases hl : p l with
      | true => simp [hl]
      | false =>
          rw [List.any_cons, hl, Bool.false_or] at h
          simpa [hl] using ih h

/-- A block of code goes on up to the line that closes it, if there is one. -/
theorem blockTail_of_code {line : List Char} {rest : List (List Char)}
    (hheading : (heading? line).isSome = false) (hfence : (fence? line).isSome = true) :
    blockTail line rest =
      if rest.any closesCode then rest.take ((rest.takeWhile (!closesCode ·)).length + 1) else [] := by
  simp only [blockTail, hheading, hfence, if_true, Bool.false_eq_true, if_false]

/-- A fence is no heading. -/
theorem heading?_of_isSome_fence? {line : List Char} (h : (fence? line).isSome = true) :
    heading? line = none := by
  rw [← Option.not_isSome_iff_eq_none]
  intro hheading
  obtain ⟨r, rfl⟩ := exists_eq_cons_of_heading? hheading
  cases h

/-- Code is open if no line behind its fence closes it. -/
theorem blockContent_eq_openFence_iff {line : List Char} {rest : List (List Char)} :
    blockContent file n line (blockTail line rest) = .openFence ↔
      (fence? line).isSome = true ∧ rest.any closesCode = false := by
  cases hfence : fence? line with
  | none =>
      refine iff_of_false (fun hopen => ?_) (by simp)
      rw [blockContent, hfence] at hopen
      dsimp only at hopen
      repeat' split at hopen
      all_goals cases hopen
  | some info =>
      have hsome : (fence? line).isSome = true := by rw [hfence, Option.isSome_some]
      have hheading := heading?_of_isSome_fence? hsome
      rw [blockTail_of_code (by rw [hheading]; rfl) hsome, blockContent, hheading, hfence]
      cases hany : rest.any closesCode with
      | false => simp
      | true =>
          cases rest with
          | nil => cases hany
          | cons l rest => simp

/-- A block that is no code goes on with the lines that pass a test, and no boundary does. -/
theorem exists_blockTail_eq_takeWhile {line : List Char}
    (h : (heading? line).isSome = true ∨ (fence? line).isSome = false) :
    ∃ p : List Char → Bool, (∀ l, isBoundary l = true → p l = false) ∧
      ∀ rest, blockTail line rest = rest.takeWhile p := by
  have hnone : ∀ rest : List (List Char), rest.takeWhile (fun _ => false) = [] := by
    intro rest
    cases rest <;> rfl
  cases hheading : (heading? line).isSome with
  | true =>
      refine ⟨fun _ => false, fun _ _ => rfl, fun rest => ?_⟩
      rw [hnone, blockTail, if_pos hheading]
  | false =>
  have hfence : (fence? line).isSome = false := by simpa [hheading] using h
  simp only [blockTail, hheading, hfence, Bool.false_eq_true, if_false]
  split
  · exact ⟨fun _ => false, fun _ _ => rfl, fun rest => (hnone rest).symm⟩
  split
  · refine ⟨_, fun l hl => ?_, fun rest => rfl⟩
    rw [listItem?_of_isBoundary hl]
    rfl
  split
  · split
    · exact ⟨_, fun l hl => isIndented_of_isBoundary hl, fun rest => rfl⟩
    · refine ⟨_, fun l hl => ?_, fun rest => rfl⟩
      rw [alternative?_of_isBoundary hl]
      rfl
  · split
    · refine ⟨_, fun l hl => ?_, fun rest => rfl⟩
      rw [continuesList, listItem?_of_isBoundary hl, isIndented_of_isBoundary hl]
      rfl
    · exact ⟨_, fun l hl => continuesParagraph_of_isBoundary hl, fun rest => rfl⟩

/-- A block that is not open does not go past a boundary. -/
theorem blockTail_append {line : List Char} {rest ls' : List (List Char)}
    (hopen : blockContent none 1 line (blockTail line rest) ≠ .openFence)
    (h : StartsAtBoundary ls') : blockTail line (rest ++ ls') = blockTail line rest := by
  by_cases hcode : (heading? line).isSome = true ∨ (fence? line).isSome = false
  · obtain ⟨p, hp, htail⟩ := exists_blockTail_eq_takeWhile hcode
    rw [htail, htail, takeWhile_append_of_startsAtBoundary hp h]
  · -- Code goes on up to its closing fence.
    rw [not_or, Bool.not_eq_true, Bool.not_eq_false] at hcode
    obtain ⟨hheading, hfence⟩ := hcode
    have hany : rest.any closesCode = true := by
      rw [← Bool.not_eq_false]
      exact fun hany => hopen ((blockContent_eq_openFence_iff none 1).2 ⟨hfence, hany⟩)
    have hany' : (rest ++ ls').any closesCode = true := by
      rw [List.any_append, hany, Bool.true_or]
    simp only [blockTail, hheading, hfence, hany, hany', if_true, Bool.false_eq_true, if_false]
    exact take_append_of_any hany ls'

/-- The blocks of two sequences of lines, one after the other, if all code ends in the first one and
the second one starts at a boundary. -/
theorem bareItems_append {ls ls' : List (List Char)}
    (hopen : ∀ i ∈ bareItems ls, i.content ≠ .openFence) (h : StartsAtBoundary ls') :
    bareItems (ls ++ ls') = bareItems ls ++ bareItems ls' := by
  generalize hlength : ls.length = length
  induction length using Nat.strongRecOn generalizing ls with
  | ind length ih =>
  cases ls with
  | nil => rw [bareItems_nil, List.nil_append, List.nil_append]
  | cons line rest =>
      rw [List.length_cons] at hlength
      cases hblank : allBlank line with
      | true =>
          rw [bareItems_cons_of_allBlank hblank] at hopen ⊢
          rw [List.cons_append, bareItems_cons_of_allBlank hblank]
          exact ih rest.length (by omega) hopen rfl
      | false =>
          rw [bareItems_cons_of_not_allBlank hblank] at hopen ⊢
          rw [List.forall_mem_cons] at hopen
          have hopen' : blockContent none 1 line (blockTail line rest) ≠ .openFence := by
            intro heq
            refine hopen.1 ?_
            rw [heq]
            rfl
          have hle := length_tail_le line rest
          rw [List.cons_append, bareItems_cons_of_not_allBlank hblank, blockTail_append hopen' h,
            List.drop_append_of_le_length hle, ih _ ?_ hopen.2 rfl, List.cons_append]
          rw [List.length_drop]
          omega

/-! ## Headings -/

/-- A heading is one of its line. -/
theorem heading?_of_blockContent {line text : List Char} {tail : List (List Char)} {level : ℕ}
    (h : blockContent file n line tail = .heading level text) :
    heading? line = some (level, text) := by
  unfold blockContent at h
  split at h
  · next heq =>
    cases h
    exact heq
  · repeat' split at h
    all_goals cases h

/-- A subsection is one of its line. -/
theorem subsection?_of_blockContent {line : List Char} {tail : List (List Char)} {title : String}
    (h : blockContent file n line tail = .subsection title) :
    ∃ text, subsection? line = some text ∧ title = String.ofList text := by
  unfold blockContent at h
  split at h
  · cases h
  split at h
  · split at h <;> cases h
  split at h
  · next text htext =>
    cases h
    exact ⟨text, htext, rfl⟩
  · repeat' split at h
    all_goals cases h

/-- A line of a heading has as many number signs as its level says, from one to six, and then a blank. -/
def IsHeadingLine (level : ℕ) (line : List Char) : Prop :=
  1 ≤ level ∧ level ≤ 6 ∧ ∃ c rest, line = List.replicate level '#' ++ c :: rest ∧ isBlank c = true

/-- Headings are read from lines of headings. -/
theorem isHeadingLine_of_heading? {line text : List Char} {level : ℕ}
    (h : heading? line = some (level, text)) : IsHeadingLine level line := by
  have hsigns : line.takeWhile (· == '#')
      = List.replicate (line.takeWhile (· == '#')).length '#' := by
    refine List.eq_replicate_iff.2 ⟨rfl, fun c hc => ?_⟩
    simpa using List.all_eq_true.1 List.all_takeWhile c hc
  have hline := List.takeWhile_append_dropWhile (p := (· == '#')) (l := line)
  unfold heading? at h
  dsimp only at h
  split at h
  · cases h
  · next c r hrest =>
    split at h
    · next hlevel =>
      cases h
      simp only [Bool.and_eq_true, decide_eq_true_eq] at hlevel
      obtain ⟨⟨hone, hsix⟩, hblank⟩ := hlevel
      refine ⟨hone, hsix, c, r, ?_, hblank⟩
      rw [← hsigns, ← hrest, hline]
    · cases h

/-- From a line of a heading a heading is read, and its text is what stands behind the number signs. -/
theorem heading?_replicate_append {level : ℕ} (hone : 1 ≤ level) (hsix : level ≤ 6) {c : Char}
    (hc : isBlank c = true) (rest : List Char) :
    heading? (List.replicate level '#' ++ c :: rest) = some (level, trim (c :: rest)) := by
  have hne : (c == '#') = false := by
    refine beq_false_of_ne ?_
    rintro rfl
    exact absurd hc (by decide)
  have hsigns : ∀ a ∈ List.replicate level '#', (a == '#') = true := by
    intro a ha
    rw [List.eq_of_mem_replicate ha]
    rfl
  rw [heading?, List.takeWhile_append_of_pos hsigns, List.dropWhile_append_of_pos hsigns,
    List.takeWhile_cons_of_neg (by simp [hne]), List.dropWhile_cons_of_neg (by simp [hne])]
  simp [hone, hsix, hc]

/-- A heading is a block of one line. -/
theorem blockTail_of_heading? {line text : List Char} {level : ℕ}
    (h : heading? line = some (level, text)) (rest : List (List Char)) :
    blockTail line rest = [] := by
  rw [blockTail, h]
  rfl

/-- A line that is a heading has one block, and it ends there. -/
theorem items_cons_of_heading? {line text : List Char} {level : ℕ}
    (h : heading? line = some (level, text)) (n : ℕ) (rest : List (List Char)) :
    items file n (line :: rest)
      = ⟨n, linesSpan file n line [], .heading level text⟩ :: items file (n + 1) rest := by
  have htail := blockTail_of_heading? h rest
  have hcontent : blockContent file n line [] = .heading level text := by
    rw [blockContent, h]
  have hblank : allBlank line = false := by
    have hsome : (heading? line).isSome = true := by rw [h, Option.isSome_some]
    obtain ⟨r, rfl⟩ := exists_eq_cons_of_heading? hsome
    rfl
  rw [items, if_neg (by simp [hblank])]
  dsimp only
  rw [blockItem, htail, hcontent]
  rfl

/-- The line of a heading by itself is one block. -/
theorem items_of_heading? {line text : List Char} {level : ℕ}
    (h : heading? line = some (level, text)) (n : ℕ) :
    items file n [line] = [⟨n, linesSpan file n line [], .heading level text⟩] := by
  rw [items_cons_of_heading? file h, items]

/-- All headings among blocks have levels from one. -/
theorem one_le_of_mem_items {ls : List (List Char)} {i : Item} (hi : i ∈ items file n ls)
    {level : ℕ} {text : List Char} (hcontent : i.content = .heading level text) : 1 ≤ level := by
  obtain ⟨before, line, rest, -, -, rfl⟩ := exists_of_mem_items hi
  exact (isHeadingLine_of_heading? (heading?_of_blockContent _ _ hcontent)).1

/-- All headings among blocks without places have levels from one. -/
theorem one_le_of_mem_bareItems {ls : List (List Char)} {i : Item} (hi : i ∈ bareItems ls)
    {level : ℕ} {text : List Char} (hcontent : i.content = .heading level text) : 1 ≤ level := by
  obtain ⟨j, hj, rfl⟩ := List.mem_map.1 hi
  have hcontent' : j.content = .heading level text := by
    rw [Item.bare] at hcontent
    cases hj : j.content <;> rw [hj] at hcontent <;> first | exact hcontent | cases hcontent
  exact one_le_of_mem_items none 1 hj hcontent'

end SpecDoc.Markup
