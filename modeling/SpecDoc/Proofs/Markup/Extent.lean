import SpecDoc.Proofs.Markup.Pieces

/-!
# The lines of a document

Every heading and every block of a source leaves one node with a span in the tree. In document order
these nodes go over the lines of the source one after the other, and between them there are only blank
lines. So no line is lost and none is read twice.

* `Node.extent?` is what such a node tells of its lines, and `Document.extents` lists it for a document;
* `Markup.Tiled`: how extents and lines go together, one block at a time;
* `Markup.Nesting.PlacedAll.extents_eq`: nesting puts blocks into sections and keeps their order;
* `Document.accountsFor_of_parse`: a document accounts for every line of its source.
-/

namespace SpecDoc

open Markup Node Text

/-! ## Extents -/

/-- The lines that a node was read from, as a span, and what they hold if it is code. -/
structure Extent where
  span : Span
  code : Option String

namespace Extent

/-- The number of the first line. -/
def first (e : Extent) : ℕ := e.span.start.line

/-- The number of the last line. -/
def last (e : Extent) : ℕ := e.span.finish.line

/-- Whether the line with the number `k` is one of them. -/
def Covers (e : Extent) (k : ℕ) : Prop := e.first ≤ k ∧ k ≤ e.last

end Extent

/-- The extent of a node that was read from a heading or from a block that stands by itself. -/
def Node.extent? (n : Node) : Option Extent :=
  if n.kind.isBlock then n.span?.map fun span => ⟨span, n.codeText?⟩ else none

/-- The extents of a forest, in document order. -/
def Node.extentsIn (ns : List Node) : List Extent := (preorder ns).filterMap extent?

/-- The extents of a document, in order. -/
def Document.extents (d : Document) : List Extent := d.descendants.filterMap Node.extent?

namespace Node

@[simp]
theorem extentsIn_nil : extentsIn [] = [] := rfl

@[simp]
theorem extentsIn_append (ms ns : List Node) :
    extentsIn (ms ++ ns) = extentsIn ms ++ extentsIn ns := by
  rw [extentsIn, preorder_append, List.filterMap_append]
  rfl

/-- The extents of a forest are that of its first node, those below it and those behind it. -/
theorem extentsIn_cons (n : Node) (ns : List Node) :
    extentsIn (n :: ns) = n.extent?.toList ++ extentsIn n.children ++ extentsIn ns := by
  rw [extentsIn, preorder_cons]
  cases h : n.extent? <;> simp [extentsIn, h]

/-- Parts of blocks have no extents of their own. -/
theorem extentsIn_eq_nil {ns : List Node} (h : Everywhere IsPart ns) : extentsIn ns = [] := by
  refine List.filterMap_eq_nil_iff.2 fun n hn => ?_
  unfold extent?
  split
  · next hblock => rw [((h n hn).eq_paragraph hblock).2, Option.map_none]
  · rfl

/-- A block has one extent. -/
theorem IsBlockNode.extentsIn_eq {n : Node} {span : Span} {code : Option String}
    (h : n.IsBlockNode span code) : extentsIn [n] = [⟨span, code⟩] := by
  rw [extentsIn_cons, extentsIn_eq_nil h.parts, extent?, if_pos h.isBlock, h.span_eq, h.codeText_eq]
  rfl

end Node

namespace Markup

/-- The extent of a block as it is read. -/
def Item.extent (i : Item) : Extent :=
  ⟨i.span, match i.content with
    | .block node => node.codeText?
    | _ => none⟩

/-- The node of a block that stands by itself has the extent of the block. -/
theorem extentsIn_of_mem_items {file : Option String} {n : ℕ} {ls : List (List Char)} {item : Item}
    (hitem : item ∈ items file n ls) {node : Node} (h : item.content = .block node) :
    extentsIn [node] = [item.extent] := by
  obtain ⟨before, line, rest, -, -, rfl⟩ := exists_of_mem_items hitem
  have hnode := isBlockNode_of_blockContent h
  rw [hnode.extentsIn_eq, ← hnode.codeText_eq, Item.extent, h]
  rfl

/-! ## Document order -/

namespace Layer

/-- The extents of what was read in a layer. -/
def extents (l : Layer) : List Extent :=
  extentsIn l.contents ++
    match l.subsection with
    | none => []
    | some s => ⟨s.span, none⟩ :: extentsIn s.contents

variable (l : Layer)

/-- A subsection has its extents in front of those of what is in it. -/
theorem extentsIn_subsectionNode (s : OpenSubsection) :
    extentsIn [subsectionNode s] = ⟨s.span, none⟩ :: extentsIn s.contents := by
  rw [extentsIn_cons]
  simp [subsectionNode, extent?, children, kind, Group.kind, Kind.isBlock, Kind.isHeading, span?,
    codeText?]

theorem extents_closeSubsection : l.closeSubsection.extents = l.extents := by
  rcases l with ⟨contents, _ | s⟩
  · rfl
  · simp [closeSubsection, extents, extentsIn_subsectionNode]

theorem extents_add (n : Node) : (l.add n).extents = l.extents ++ extentsIn [n] := by
  rcases l with ⟨contents, _ | s⟩ <;> simp [add, extents]

theorem extents_openSubsection (title : String) (span : Span) :
    (l.openSubsection title span).extents = l.extents ++ [⟨span, none⟩] := by
  rw [← extents_closeSubsection l]
  rcases l with ⟨contents, _ | s⟩ <;> simp [openSubsection, closeSubsection, extents]

end Layer

/-- The extents of an open section: its heading comes before what was read in it. -/
def OpenSection.extents (o : OpenSection) : List Extent := ⟨o.span, none⟩ :: o.layer.extents

/-- A section that is closed has the extents that it had when it was open. -/
theorem OpenSection.extentsIn_node (o : OpenSection) : extentsIn [o.node] = o.extents := by
  rw [extents, ← Layer.extents_closeSubsection, extentsIn_cons]
  rcases o with ⟨level, title, override, span, contents, _ | s⟩ <;>
    simp [node, extent?, children, kind, Group.kind, Kind.isBlock, Kind.isHeading, span?, codeText?,
      Layer.closeSubsection, Layer.extents]

namespace Nesting

/-- The extents of all that was read: open sections come last, the innermost behind the others. -/
def extents (s : Nesting) : List Extent :=
  s.root.extents ++ s.sections.reverse.flatMap OpenSection.extents

variable {start : Start} {s s' : Nesting}

/-- What is read next goes behind everything else. -/
theorem extents_mapLayer {f : Layer → Layer} {es : List Extent}
    (h : ∀ l, (f l).extents = l.extents ++ es) (s : Nesting) :
    (s.mapLayer f).extents = s.extents ++ es := by
  rcases s with ⟨_ | ⟨o, os⟩, root⟩
  · simp [mapLayer, extents, h]
  · simp [mapLayer, extents, OpenSection.extents, h]

/-- Closing sections moves nothing. -/
theorem extents_closeFrom (level : ℕ) (root : Layer) (os : List OpenSection) :
    (closeFrom level root os).extents = (⟨os, root⟩ : Nesting).extents := by
  fun_induction closeFrom level root os with
  | case1 => rfl
  | case2 o os hlevel => rfl
  | case3 o hlevel =>
      simp [extents, Layer.extents_add, OpenSection.extentsIn_node]
  | case4 o hlevel p ps ih =>
      rw [ih]
      simp [extents, OpenSection.extents, Layer.extents_add, OpenSection.extentsIn_node]

/-- Closing the sections of a level moves nothing. -/
theorem extents_closed (s : Nesting) (level : ℕ) : (s.closed level).extents = s.extents := by
  have hclosed : (s.mapLayer (·.closeSubsection)).extents = s.extents ++ [] :=
    extents_mapLayer (fun l => by rw [l.extents_closeSubsection, List.append_nil]) s
  rw [closed, extents_closeFrom, ← List.append_nil s.extents, ← hclosed]

/-- A heading goes behind everything else. -/
theorem extents_addHeading (s : Nesting) (level : ℕ) (text : List Char) (span : Span) :
    (s.addHeading level text span).extents = s.extents ++ [⟨span, none⟩] := by
  unfold addHeading
  split
  · refine extents_mapLayer (fun l => ?_) s
    rw [Layer.extents_add, extentsIn_cons]
    rfl
  · simp [extents, OpenSection.extents, Layer.extents, Layer.empty]

/-- One more block goes behind everything else. -/
theorem Placed.extents_eq {item : Item}
    (hitem : ∀ node, item.content = .block node → extentsIn [node] = [item.extent])
    (h : Placed start s item s') : s'.extents = s.extents ++ [item.extent] := by
  cases h with
  | block hcontent =>
      rw [← hitem _ hcontent]
      exact extents_mapLayer (fun l => l.extents_add _) s
  | subsection hcontent =>
      rw [Item.extent, hcontent]
      exact extents_mapLayer (fun l => l.extents_openSubsection _ _) s
  | heading hcontent _ => rw [extents_addHeading, extents_closed, Item.extent, hcontent]

/-- Several more blocks go behind everything else, in their order. -/
theorem PlacedAll.extents_eq {is : List Item}
    (his : ∀ item ∈ is, ∀ node, item.content = .block node → extentsIn [node] = [item.extent])
    (h : PlacedAll start s is s') : s'.extents = s.extents ++ is.map Item.extent := by
  induction h with
  | nil s => simp
  | cons hitem _ ih =>
      rw [List.forall_mem_cons] at his
      rw [ih his.2, hitem.extents_eq his.1]
      simp

/-- The finished tree has the extents of all that was read. -/
theorem Sound.extentsIn_finish (h : s.Sound) : extentsIn s.finish = s.extents := by
  obtain ⟨-, hroot⟩ := h.closed 0
  rw [← extents_closed s 0, finish_eq, extents, sections_closed_zero, Layer.extents, hroot]
  simp

end Nesting

/-! ## Lines -/

/-- What the lines of a block hold: the text of code stands between the first and the last of them, and
no line of any other block is blank. -/
def Holds (line : List Char) (tail : List (List Char)) : Option String → Prop
  | none => ∀ l ∈ line :: tail, allBlank l = false
  | some text => tail ≠ [] ∧ text = String.ofList (join ['\n'] tail.dropLast)

/-- `Tiled skips n ls es`: the extents `es` go over the lines `ls`, the first of which has the number
`n`, one after the other, and `skips` says which lines may be left out. -/
inductive Tiled (skips : ℕ → List Char → Prop) : ℕ → List (List Char) → List Extent → Prop where
  | nil (n : ℕ) : Tiled skips n [] []
  | skip {n : ℕ} {line : List Char} {rest : List (List Char)} {es : List Extent}
      (hskip : skips n line) (hrest : Tiled skips (n + 1) rest es) :
      Tiled skips n (line :: rest) es
  /-- A block with `k` lines behind its first one. -/
  | block {n k : ℕ} {line : List Char} {rest : List (List Char)} {e : Extent} {es : List Extent}
      (hfirst : e.first = n) (hlast : e.last = n + k) (hk : k ≤ rest.length)
      (hholds : Holds line (rest.take k) e.code)
      (hrest : Tiled skips (n + 1 + k) (rest.drop k) es) : Tiled skips n (line :: rest) (e :: es)

namespace Tiled

variable {skips : ℕ → List Char → Prop} {n : ℕ} {ls : List (List Char)} {es : List Extent}

/-- Lines that may be left out can stand in front of others. -/
theorem append {before : List (List Char)} (hbefore : ∀ k, ∀ l ∈ before, skips k l)
    (h : Tiled skips (n + before.length) ls es) : Tiled skips n (before ++ ls) es := by
  induction before generalizing n with
  | nil => exact h
  | cons l before ih =>
      refine .skip (hbefore n l List.mem_cons_self) (ih (fun k m hm => ?_) ?_)
      · exact hbefore k m (List.mem_cons_of_mem _ hm)
      · rw [Nat.add_assoc, Nat.add_comm 1]
        exact h

/-- The extents lie within the lines. -/
theorem bounds (h : Tiled skips n ls es) :
    ∀ e ∈ es, n ≤ e.first ∧ e.first ≤ e.last ∧ e.last < n + ls.length := by
  induction h with
  | nil => simp
  | skip _ _ ih =>
      intro e he
      have := ih e he
      rw [List.length_cons]
      omega
  | block hfirst hlast hk _ _ ih =>
      rw [List.length_cons]
      refine List.forall_mem_cons.2 ⟨by omega, fun e he => ?_⟩
      have := ih e he
      rw [List.length_drop] at this
      omega

/-- The extents come one after the other. -/
theorem pairwise (h : Tiled skips n ls es) : es.Pairwise fun e e' => e.last < e'.first := by
  induction h with
  | nil => exact .nil
  | skip _ _ ih => exact ih
  | block hfirst hlast hk _ hrest ih =>
      refine List.pairwise_cons.2 ⟨fun e he => ?_, ih⟩
      have := (hrest.bounds e he).1
      omega

/-- A line that no extent covers may be left out, and a line that is covered is not blank, unless it is
one of code. -/
theorem of_getElem? (h : Tiled skips n ls es) {k : ℕ} {l : List Char} (hl : ls[k]? = some l) :
    ((∀ e ∈ es, ¬e.Covers (n + k)) → skips (n + k) l) ∧
      ∀ e ∈ es, e.code = none → e.Covers (n + k) → allBlank l = false := by
  induction h generalizing k with
  | nil => simp at hl
  | skip hskip hrest ih =>
      cases k with
      | zero =>
          rw [List.getElem?_cons_zero, Option.some.injEq] at hl
          refine ⟨fun _ => hl ▸ hskip, fun e he _ hcovers => ?_⟩
          have hfirst := (hrest.bounds e he).1
          have hle := hcovers.1
          omega
      | succ k =>
          rw [List.getElem?_cons_succ] at hl
          rw [Nat.add_comm k, ← Nat.add_assoc]
          exact ih hl
  | @block n j line rest e es hfirst hlast hk hholds hrest ih =>
      rw [List.forall_mem_cons, List.forall_mem_cons]
      rcases Nat.lt_or_ge j k with hbehind | hwithin
      · -- The line lies behind the block, so only the others matter.
        obtain ⟨i, rfl⟩ : ∃ i, k = j + i + 1 := ⟨k - j - 1, by omega⟩
        have hnumber : n + (j + i + 1) = n + 1 + j + i := by omega
        rw [List.getElem?_cons_succ, ← List.getElem?_drop] at hl
        rw [hnumber]
        obtain ⟨hskips, hblank⟩ := ih hl
        refine ⟨fun hes => hskips hes.2, fun _ hcovers => ?_, hblank⟩
        have hle := hcovers.2
        omega
      · -- The line lies within the block, so no other one covers it.
        have hcovers : e.Covers (n + k) := ⟨by omega, by omega⟩
        have hmem : l ∈ line :: rest.take j := by
          rw [← List.take_succ_cons]
          refine List.mem_of_getElem? (i := k) ?_
          rw [List.getElem?_take_of_lt (by omega), hl]
        refine ⟨fun hes => absurd hcovers hes.1, fun hcode _ => ?_, fun e' he' _ hcovers' => ?_⟩
        · rw [hcode] at hholds
          exact hholds l hmem
        · have hfirst' := (hrest.bounds e' he').1
          have hle := hcovers'.1
          omega

/-- The text of code is what stands strictly between its first and its last line. -/
theorem text_eq (h : Tiled skips n ls es) {e : Extent} (he : e ∈ es) {text : String}
    (htext : e.code = some text) :
    text = String.ofList
      (join ['\n'] ((ls.drop (e.first - n + 1)).take (e.last - e.first - 1))) := by
  induction h with
  | nil => cases he
  | @skip n line rest es _ hrest ih =>
      have hfirst := (hrest.bounds e he).1
      have hdrop : (line :: rest).drop (e.first - n + 1) = rest.drop (e.first - (n + 1) + 1) := by
        rw [List.drop_succ_cons]
        congr 1
        omega
      rw [hdrop]
      exact ih he
  | @block n k line rest e' es hfirst hlast hk hholds hrest ih =>
      rcases List.mem_cons.1 he with rfl | he
      · rw [htext] at hholds
        obtain ⟨-, rfl⟩ := hholds
        have hcount : e.last - e.first - 1 = k - 1 := by omega
        rw [hcount, hfirst, Nat.sub_self, List.drop_succ_cons, List.drop_zero, List.dropLast_eq_take,
          List.length_take_of_le hk, List.take_take, Nat.min_eq_left (Nat.sub_le k 1)]
      · have hfirst' := (hrest.bounds e he).1
        have hdrop : (line :: rest).drop (e.first - n + 1)
            = (rest.drop k).drop (e.first - (n + 1 + k) + 1) := by
          rw [List.drop_succ_cons, List.drop_drop]
          congr 1
          omega
        rw [hdrop]
        exact ih he

end Tiled

/-! ## Blocks on lines -/

section Block

variable {file : Option String} {n : ℕ} {line : List Char} {rest : List (List Char)}

/-- The lines of a block behind its first line stand right behind this line. -/
theorem blockTail_isPrefix (line : List Char) (rest : List (List Char)) :
    blockTail line rest <+: rest := by
  by_cases hcode : (heading? line).isSome = true ∨ (fence? line).isSome = false
  · obtain ⟨p, -, htail⟩ := exists_blockTail_eq_takeWhile hcode
    rw [htail]
    exact List.takeWhile_prefix p
  · rw [not_or, Bool.not_eq_true, Bool.not_eq_false] at hcode
    rw [blockTail_of_code hcode.1 hcode.2]
    split
    · exact List.take_prefix _ _
    · exact List.nil_prefix

/-- A block that is no code has no text of code. -/
theorem code_blockItem_eq_none (h : (heading? line).isSome = true ∨ (fence? line).isSome = false) :
    (blockItem file n line rest).extent.code = none := by
  rw [Item.extent]
  cases hcontent : (blockItem file n line rest).content with
  | heading level text => rfl
  | subsection title => rfl
  | openFence => rfl
  | block node =>
      dsimp only
      rw [(isBlockNode_of_blockContent hcontent).codeText_eq]
      rcases h with hheading | hfence
      · obtain ⟨p, hp⟩ := Option.isSome_iff_exists.1 hheading
        rw [blockItem, blockContent, hp] at hcontent
        cases hcontent
      · rw [Option.isSome_eq_false_iff, Option.isNone_iff_eq_none] at hfence
        rw [hfence, Option.map_none]

/-- What the lines of a block hold, unless it is open. -/
theorem holds_blockItem (hblank : allBlank line = false)
    (hopen : (blockItem file n line rest).content ≠ .openFence) :
    Holds line (blockTail line rest) (blockItem file n line rest).extent.code := by
  by_cases hcode : (heading? line).isSome = true ∨ (fence? line).isSome = false
  · rw [code_blockItem_eq_none hcode]
    refine List.forall_mem_cons.2 ⟨hblank, fun l hl => ?_⟩
    -- A blank line would end the block.
    obtain ⟨p, hp, htail⟩ := exists_blockTail_eq_takeWhile hcode
    rw [htail] at hl
    cases hl' : allBlank l with
    | false => rfl
    | true =>
        have hp' : p l = true := List.all_eq_true.1 List.all_takeWhile l hl
        rw [hp l (by rw [isBoundary, hl', Bool.true_or])] at hp'
        cases hp'
  · rw [not_or, Bool.not_eq_true, Bool.not_eq_false] at hcode
    obtain ⟨hheading, hfence⟩ := hcode
    rw [Option.isSome_eq_false_iff, Option.isNone_iff_eq_none] at hheading
    obtain ⟨info, hinfo⟩ := Option.isSome_iff_exists.1 hfence
    cases htail : blockTail line rest with
    | nil =>
        refine absurd ?_ hopen
        rw [blockItem, htail, blockContent, hheading, hinfo]
    | cons l tail =>
        have hcontent : (blockItem file n line rest).content
            = .block (codeNode (linesSpan file n line (l :: tail)) info (l :: tail).dropLast) := by
          rw [blockItem, htail, blockContent, hheading, hinfo]
        rw [Item.extent, hcontent]
        exact ⟨List.cons_ne_nil l tail, rfl⟩

end Block

/-- Blocks go over their lines one after the other and leave out blank lines only. -/
theorem tiled_items {skips : ℕ → List Char → Prop}
    (hskips : ∀ k l, allBlank l = true → skips k l) {file : Option String} {n : ℕ}
    {ls : List (List Char)} (hopen : ∀ item ∈ items file n ls, item.content ≠ .openFence) :
    Tiled skips n ls ((items file n ls).map Item.extent) := by
  fun_induction items file n ls with
  | case1 n => exact .nil n
  | case2 n line rest hblank ih => exact .skip (hskips n line hblank) (ih hopen)
  | case3 n line rest hblank extent ih =>
      rw [List.forall_mem_cons] at hopen
      refine .block rfl rfl (length_tail_le line rest) ?_ (ih hopen.2)
      rw [← List.prefix_iff_eq_take.1 (blockTail_isPrefix line rest)]
      exact holds_blockItem (by simpa using hblank) hopen.1

/-! ## Titles -/

/-- Whether the line with the number `k` is the heading of a title: only blank lines are before it. -/
def TitledAt (ls : List (List Char)) (title : Option String) (k : ℕ) : Prop :=
  ∃ before line rest text, ls = before ++ line :: rest ∧ k = before.length + 1 ∧
    (∀ l ∈ before, allBlank l = true) ∧ heading? line = some (1, text) ∧
    title = some (String.ofList text)

/-- A document that starts a run has its title right before its blocks. -/
theorem exists_titledAt {ls rest : List (List Char)} {title : Option String} {n : ℕ}
    (h : Titled .initial ls title n rest) : ∃ k, TitledAt ls title k ∧ n = k + 1 := by
  cases h with
  | initial htitle =>
      obtain ⟨before, line, hls, hn, hbefore, hline, -⟩ := exists_of_titleLine htitle
      exact ⟨before.length + 1, ⟨before, line, rest, _, hls, rfl, hbefore, hline, rfl⟩, by omega⟩

end Markup

open Markup

/-- How the nodes of a document account for the lines of its source. Their extents lie within the
lines and come one after the other. A line outside of them is blank or the title, which comes before
all of them; a line in one of them is not blank, unless it is one of code, and the text of code is what
stands strictly between its first and its last line. -/
structure Document.AccountsFor (start : Start) (ls : List (List Char)) (d : Document) : Prop where
  within : ∀ e ∈ d.extents, 1 ≤ e.first ∧ e.first ≤ e.last ∧ e.last ≤ ls.length
  ascending : d.extents.Pairwise fun e e' => e.last < e'.first
  outside : ∀ k line, ls[k]? = some line → (∀ e ∈ d.extents, ¬e.Covers (k + 1)) →
    allBlank line = true ∨ start = .initial ∧ TitledAt ls d.title (k + 1)
  title : start = .initial → ∃ k, TitledAt ls d.title k ∧ ∀ e ∈ d.extents, k < e.first
  inside : ∀ e ∈ d.extents, e.code = none → ∀ k line, ls[k]? = some line → e.Covers (k + 1) →
    allBlank line = false
  code : ∀ e ∈ d.extents, ∀ text, e.code = some text →
    text = String.ofList (join ['\n'] ((ls.drop e.first).take (e.last - e.first - 1)))

namespace Document

variable {start : Start} {file : Option String} {source : String} {d : Document}

/-- The extents of a document are those of the blocks behind its title. -/
theorem exists_extents_of_parse (h : Document.parse start file source = .ok d) :
    ∃ n rest, Titled start (lines source.toList) d.title n rest ∧
      (∀ item ∈ items file n rest, item.content ≠ .openFence) ∧
      d.extents = (items file n rest).map Item.extent := by
  obtain ⟨n, rest, htitled, hitems, -⟩ := Document.exists_of_parse h
  obtain ⟨s, hplaced, hfinish⟩ := Nesting.ofItems_eq_ok_iff.1 hitems
  refine ⟨n, rest, htitled, hplaced.content_ne_openFence, ?_⟩
  have hsound : s.Sound := Nesting.sound_empty.placedAll
    (fun item hitem level text => one_le_of_mem_items file n hitem) hplaced
  have hextents := hplaced.extents_eq fun item hitem node => extentsIn_of_mem_items hitem
  rw [← hsound.extentsIn_finish, hfinish] at hextents
  rw [Document.extents, d.descendants_eq]
  exact hextents

/-- What the title of a document leaves to its blocks. -/
theorem tiled_of_titled {skips : ℕ → List Char → Prop} {ls rest : List (List Char)}
    {title : Option String} {n : ℕ} {es : List Extent}
    (hskips : ∀ k l, allBlank l = true ∨ start = .initial ∧ TitledAt ls title k → skips k l)
    (htitled : Titled start ls title n rest) (h : Tiled skips n rest es) : Tiled skips 1 ls es := by
  cases htitled with
  | imported => exact h
  | initial htitle =>
      obtain ⟨before, line, hls, hn, hbefore, hline, -⟩ := exists_of_titleLine htitle
      have hat : TitledAt ls (some (String.ofList _)) (1 + before.length) :=
        ⟨before, line, rest, _, hls, by omega, hbefore, hline, rfl⟩
      rw [hls]
      refine .append (fun k l hl => hskips k l (.inl (hbefore l hl))) (.skip ?_ ?_)
      · exact hskips _ line (.inr ⟨rfl, hat⟩)
      · exact hn ▸ h

/-- **No line is lost and none is read twice.** A document that is read accounts for all lines of its
source. -/
theorem accountsFor_of_parse (h : Document.parse start file source = .ok d) :
    d.AccountsFor start (lines source.toList) := by
  obtain ⟨n, rest, htitled, hopen, hextents⟩ := exists_extents_of_parse h
  have hrest : Tiled (fun k l => allBlank l = true ∨
      start = .initial ∧ TitledAt (lines source.toList) d.title k) n rest d.extents := by
    rw [hextents]
    exact tiled_items (fun k l hl => .inl hl) hopen
  have htiled := tiled_of_titled (fun _ _ hskip => hskip) htitled hrest
  constructor
  · intro e he
    have := htiled.bounds e he
    omega
  · exact htiled.pairwise
  · intro k line hline hes
    rw [Nat.add_comm] at hes ⊢
    exact (htiled.of_getElem? hline).1 hes
  · rintro rfl
    obtain ⟨k, hk, rfl⟩ := exists_titledAt htitled
    exact ⟨k, hk, fun e he => (hrest.bounds e he).1⟩
  · intro e he hcode k line hline hcovers
    rw [Nat.add_comm] at hcovers
    exact (htiled.of_getElem? hline).2 e he hcode hcovers
  · intro e he text htext
    have hfirst := (htiled.bounds e he).1
    rw [htiled.text_eq he htext, Nat.sub_add_cancel hfirst]

/-- A document with a title, an import, code and several blocks that stand on each other. -/
def guideSource : String :=
  "# Guide\n\n# Scope\nAll of it,\nand more.\n\n## [Terms](terms.md)\n\nNote: Read on.\n\n**Forms**\n\n" ++
    "\x60\x60\x60 js\nlet x\n\nx\n\x60\x60\x60\n- one\n  and a half\n- two\nRun(x):\n1. Stop.\n\n" ++
    "Name :: one of\n  a b\n  c\n"

/-- The document of the guide accounts for its lines. -/
theorem accountsFor_guideSource :
    ∃ d, Document.parse .initial none guideSource = .ok d ∧
      d.extents.map (fun e => (e.first, e.last)) = [(3, 3), (4, 5), (7, 7), (9, 9), (11, 11),
        (13, 17), (18, 20), (21, 22), (24, 26)] ∧
      d.extents.filterMap Extent.code = ["let x\n\nx"] ∧
      d.AccountsFor .initial (lines guideSource.toList) := by
  have hextents : (Document.parse .initial none guideSource).toOption.map (fun d =>
      (d.extents.map fun e => (e.first, e.last), d.extents.filterMap Extent.code))
      = some ([(3, 3), (4, 5), (7, 7), (9, 9), (11, 11), (13, 17), (18, 20), (21, 22), (24, 26)],
        ["let x\n\nx"]) := by
    decide +kernel
  cases hd : Document.parse .initial none guideSource with
  | error e =>
      rw [hd] at hextents
      cases hextents
  | ok d =>
      rw [hd] at hextents
      obtain ⟨hlines, hcode⟩ := Prod.mk.inj (Option.some.inj hextents)
      exact ⟨d, rfl, hlines, hcode, accountsFor_of_parse hd⟩

end Document

end SpecDoc
