import Mathlib.Data.Nat.Notation
import SpecDoc.Markup.Block
import SpecDoc.Proofs.Forest

/-!
# Blocks and their parts

A block that stands by itself is one node, and this node has the span of the lines that the block goes
over. The nodes below it are its parts: inline text, items, steps and symbols, and the paragraph of a
remark, which has no span of its own.

* `Node.IsPart` says so of one node, and `Node.IsInline` of one that is part of a line;
* `everywhere_isInline_inlines`: inline text;
* `isBlockNode_of_blockContent`: what a block is;
* `exists_of_mem_items`: every block is the one that starts at its first line.
-/

namespace SpecDoc

open Node

/-! ## Kinds of nodes -/

/-- Whether nodes of a kind are read from headings. -/
def Kind.isHeading : Kind → Bool
  | .importLink | .numberedSection | .subsection => true
  | _ => false

/-- Whether nodes of a kind are read from headings or from blocks that stand by themselves. -/
def Kind.isBlock : Kind → Bool
  | .paragraph | .definitionParagraph | .note | .todo | .list | .code | .algorithm | .production
  | .oneOfProduction => true
  | k => k.isHeading

/-- Whether a leaf is part of a block. -/
def Leaf.isPart : Leaf → Bool
  | .importLink _ | .code _ => false
  | _ => true

/-- Whether a group is part of a block, wherever it stands. -/
def Group.isPart : Group → Bool
  | .definitionTerm _ none | .listItem | .rhs | .bold | .italic | .link _ => true
  | _ => false

/-- A part of a block, without an anchor. A paragraph is one if it has no span. -/
def Node.IsPart : Node → Prop
  | .leaf l _ => l.isPart = true
  | .group g span _ => g.isPart = true ∨ g = .paragraph ∧ span = none
  | .rule _ _ _ _ => False

/-- A part of a line, without a place: inline text, or a symbol. -/
def Node.IsInline : Node → Prop
  | .leaf l span => l.isPart = true ∧ span = none
  | .group g span _ => g.isPart = true ∧ span = none
  | .rule _ _ _ _ => False

/-- The text of a block of code. -/
def Node.codeText? : Node → Option String
  | .leaf (.code c) _ => some c.text
  | _ => none

/-- A node of a block that stands by itself: it has the given span and, if it is code, the given text,
and all that is below it are parts. -/
structure Node.IsBlockNode (span : Span) (code : Option String) (n : Node) : Prop where
  isBlock : n.kind.isBlock = true
  not_isHeading : n.kind.isHeading = false
  span_eq : n.span? = some span
  codeText_eq : n.codeText? = code
  parts : Everywhere IsPart n.children

namespace Node

/-- What is part of a line is part of its block. -/
theorem IsInline.isPart {n : Node} (h : n.IsInline) : n.IsPart := by
  cases n with
  | leaf l span => exact h.1
  | group g span contents => exact .inl h.1
  | rule r span head body => exact h

/-- Inline nodes have no span of their own. -/
theorem IsInline.span?_eq {n : Node} (h : n.IsInline) : n.span? = none := by
  cases n with
  | leaf l span => exact h.2
  | group g span contents => exact h.2
  | rule r span head body => exact h.elim

/-- A part is no block of its own. -/
theorem IsPart.eq_paragraph {n : Node} (h : n.IsPart) (hkind : n.kind.isBlock = true) :
    n.kind = .paragraph ∧ n.span? = none := by
  cases n with
  | leaf l span => cases l <;> first | (cases h; done) | cases hkind
  | group g span contents =>
      rcases h with hpart | ⟨rfl, rfl⟩
      · cases g <;> first | (cases hpart; done) | cases hkind
      · exact ⟨rfl, rfl⟩
  | rule r span head body => cases h

/-- A part is no heading. -/
theorem IsPart.not_isHeading {n : Node} (h : n.IsPart) : n.kind.isHeading = false := by
  cases hkind : n.kind.isHeading with
  | false => rfl
  | true =>
      have hblock : n.kind.isBlock = true := by
        cases hk : n.kind <;> rw [hk] at hkind <;> first | rfl | cases hkind
      rw [(h.eq_paragraph hblock).1] at hkind
      cases hkind

end Node

namespace Markup

/-! ## Inline text -/

/-- Text in front of inline nodes is inline. -/
theorem everywhere_isInline_consText (s : List Char) {ns : List Node} (h : Everywhere IsInline ns) :
    Everywhere IsInline (consText s ns) := by
  unfold consText
  split
  · exact everywhere_leaf.2 ⟨⟨rfl, rfl⟩, (everywhere_leaf.1 h).2⟩
  · exact everywhere_leaf.2 ⟨⟨rfl, rfl⟩, h⟩

/-- Bold and italic nodes are parts. -/
theorem isPart_of_group? {p : Piece} {g : Group} (h : p.group? = some g) : g.isPart = true := by
  cases p <;> cases h <;> rfl

/-- The nodes of pieces are inline if those of the labels are. -/
theorem everywhere_isInline_nodesOfPieces {label : List Char → List Node}
    (hlabel : ∀ l, Everywhere IsInline (label l)) (ps : List Piece) :
    Everywhere IsInline (nodesOfPieces label ps) := by
  fun_induction nodesOfPieces label ps with
  | case1 => exact everywhere_nil
  | case2 p r g hg a as b hsplit hlength ihin ihbehind =>
      exact everywhere_group.2 ⟨⟨isPart_of_group? hg, rfl⟩, ihin, ihbehind⟩
  | case3 p r g hg hsplit ih => exact everywhere_isInline_consText _ ih
  | case4 r text hg ih => exact everywhere_leaf.2 ⟨⟨rfl, rfl⟩, ih⟩
  | case5 r l target hg ih => exact everywhere_group.2 ⟨⟨rfl, rfl⟩, hlabel l, ih⟩
  | case6 p r hg hcode hlink ih => exact everywhere_isInline_consText _ ih

/-- The nodes of a text are inline. -/
theorem everywhere_isInline_inlines (s : List Char) : Everywhere IsInline (inlines s) := by
  refine everywhere_isInline_nodesOfPieces (fun l => ?_) _
  refine everywhere_isInline_nodesOfPieces (fun l => ?_) _
  exact everywhere_leaf.2 ⟨⟨rfl, rfl⟩, everywhere_nil⟩

/-- Nodes are inline after an italic one became a defined term. -/
theorem everywhere_isInline_markTerm {ns : List Node} (h : Everywhere IsInline ns) :
    Everywhere IsInline (markTerm ns) := by
  fun_induction markTerm ns with
  | case1 => exact everywhere_nil
  | case2 span contents r =>
      obtain ⟨-, hcontents, hr⟩ := everywhere_group.1 h
      exact everywhere_group.2 ⟨⟨rfl, rfl⟩, hcontents, hr⟩
  | case3 n r hn ih =>
      obtain ⟨hn, hbelow, hr⟩ := everywhere_cons.1 h
      exact everywhere_cons.2 ⟨hn, hbelow, ih hr⟩

/-! ## Items, steps and symbols -/

/-- A list item, or the step of an algorithm, is a part in front of parts. -/
theorem everywhere_isPart_listItem (span : Option Span) (text : List Char) {ns : List Node}
    (h : Everywhere IsPart ns) : Everywhere IsPart (inlineGroup .listItem span text :: ns) := by
  refine everywhere_group.2 ⟨.inl rfl, ?_, h⟩
  exact (everywhere_isInline_inlines text).mono fun _ => IsInline.isPart

/-- The steps of an algorithm are parts. -/
theorem everywhere_isPart_steps (file : Option String) (n : ℕ) (ls : List (List Char)) :
    Everywhere IsPart (steps file n ls) := by
  induction ls generalizing n with
  | nil => exact everywhere_nil
  | cons l ls ih => exact everywhere_isPart_listItem _ _ (ih (n + 1))

/-- A right-hand side is inline. -/
theorem everywhere_isInline_rightHandSide (text : List Char) :
    Everywhere IsInline [rightHandSide text] := by
  refine everywhere_group.2 ⟨⟨rfl, rfl⟩, ?_, everywhere_nil⟩
  refine everywhere_iff_forall_singleton.2 fun n hn => ?_
  obtain ⟨token, -, rfl⟩ := List.mem_map.1 hn
  unfold symbol
  split <;> exact everywhere_leaf.2 ⟨⟨rfl, rfl⟩, everywhere_nil⟩

/-- Several right-hand sides are inline. -/
theorem everywhere_isInline_map_rightHandSide (text : List Char → List Char)
    (ls : List (List Char)) : Everywhere IsInline (ls.map fun l => rightHandSide (text l)) := by
  refine everywhere_iff_forall_singleton.2 fun n hn => ?_
  obtain ⟨row, -, rfl⟩ := List.mem_map.1 hn
  exact everywhere_isInline_rightHandSide _

/-- The body of a production is inline: a right-hand side on its first line, if there is one, and those on the lines
behind it. -/
theorem everywhere_isInline_productionBody (text : List Char) (tail : List (List Char)) :
    Everywhere IsInline ((if text.isEmpty then [] else [rightHandSide text]) ++
      tail.map fun l => rightHandSide ((alternative? l).getD [])) := by
  refine everywhere_append.2 ⟨?_, everywhere_isInline_map_rightHandSide _ tail⟩
  split
  · exact everywhere_nil
  · exact everywhere_isInline_rightHandSide text

/-- Rows of terminals are inline. -/
theorem everywhere_isInline_map_terminalRow (ls : List (List Char)) :
    Everywhere IsInline (ls.map terminalRow) := by
  refine everywhere_iff_forall_singleton.2 fun n hn => ?_
  obtain ⟨row, -, rfl⟩ := List.mem_map.1 hn
  refine everywhere_group.2 ⟨⟨rfl, rfl⟩, ?_, everywhere_nil⟩
  refine everywhere_iff_forall_singleton.2 fun n hn => ?_
  obtain ⟨token, -, rfl⟩ := List.mem_map.1 hn
  exact everywhere_leaf.2 ⟨⟨rfl, rfl⟩, everywhere_nil⟩

/-- What a rule has below it, if its head is the name of an algorithm or of a production. -/
theorem everywhere_isPart_rule {r : Rule} {span : Option Span} {l : Leaf} {body : List Node}
    (hl : l.isPart = true) (hbody : Everywhere IsPart body) :
    Everywhere IsPart (Node.rule r span (some (.leaf l none)) body).children :=
  everywhere_leaf.2 ⟨hl, hbody⟩

/-! ## Blocks -/

/-- What a block that stands by itself is. Code is the only one with a text. -/
theorem isBlockNode_of_blockContent {file : Option String} {n : ℕ} {line : List Char}
    {tail : List (List Char)} {node : Node} (h : blockContent file n line tail = .block node) :
    node.IsBlockNode (linesSpan file n line tail)
      ((fence? line).map fun _ => String.ofList (Text.join ['\n'] tail.dropLast)) := by
  unfold blockContent at h
  -- The forms of a line in the order in which they are tried. A heading is no node.
  split at h
  · cases h
  -- Code has nothing below it.
  split at h
  · next hfence =>
    rw [hfence]
    split at h
    · cases h
    · cases h
      exact ⟨rfl, rfl, rfl, rfl, everywhere_nil⟩
  next hfence =>
  rw [hfence]
  -- A subsection is no node yet.
  split at h
  · cases h
  have hinline : ∀ ns, Everywhere IsInline ns → Everywhere IsPart ns :=
    fun ns h => h.mono fun _ => IsInline.isPart
  -- Rules: algorithms, and productions of both kinds.
  split at h
  · cases h
    exact ⟨rfl, rfl, rfl, rfl, everywhere_isPart_rule rfl (everywhere_isPart_steps file _ tail)⟩
  split at h
  · split at h
    · cases h
      exact ⟨rfl, rfl, rfl, rfl,
        everywhere_isPart_rule rfl (hinline _ (everywhere_isInline_map_terminalRow tail))⟩
    · cases h
      exact ⟨rfl, rfl, rfl, rfl,
        everywhere_isPart_rule rfl (hinline _ (everywhere_isInline_productionBody _ tail))⟩
  -- Lists, definitions, remarks and paragraphs.
  split at h
  · cases h
    refine ⟨rfl, rfl, rfl, rfl, everywhere_iff_forall_singleton.2 fun n hn => ?_⟩
    obtain ⟨e, -, rfl⟩ := List.mem_map.1 hn
    exact everywhere_isPart_listItem _ _ everywhere_nil
  split at h
  · cases h
    exact ⟨rfl, rfl, rfl, rfl,
      hinline _ (everywhere_isInline_markTerm (everywhere_isInline_inlines _))⟩
  split at h
  · cases h
    exact ⟨rfl, rfl, rfl, rfl, everywhere_group.2
      ⟨.inr ⟨rfl, rfl⟩, hinline _ (everywhere_isInline_inlines _), everywhere_nil⟩⟩
  · cases h
    exact ⟨rfl, rfl, rfl, rfl, everywhere_group.2
      ⟨.inr ⟨rfl, rfl⟩, hinline _ (everywhere_isInline_inlines _), everywhere_nil⟩⟩
  · cases h
    exact ⟨rfl, rfl, rfl, rfl, hinline _ (everywhere_isInline_inlines _)⟩

/-- Every block of a sequence of lines is the one that starts at some line of it, and this line is not
blank. -/
theorem exists_of_mem_items {file : Option String} {n : ℕ} {ls : List (List Char)} {item : Item}
    (h : item ∈ items file n ls) :
    ∃ before line rest, ls = before ++ line :: rest ∧ Text.allBlank line = false ∧
      item = blockItem file (n + before.length) line rest := by
  fun_induction items file n ls with
  | case1 => cases h
  | case2 n line rest hblank ih =>
      obtain ⟨before, line', rest', rfl, hline', rfl⟩ := ih h
      refine ⟨line :: before, line', rest', rfl, hline', ?_⟩
      rw [List.length_cons, Nat.add_assoc, Nat.add_comm 1]
  | case3 n line rest hblank extent ih =>
      rcases List.mem_cons.1 h with rfl | h
      · exact ⟨[], line, rest, rfl, by simpa using hblank, rfl⟩
      · obtain ⟨before, line', rest', hrest, hline', rfl⟩ := ih h
        refine ⟨line :: (rest.take extent ++ before), line', rest', ?_, hline', ?_⟩
        · rw [List.cons_append, List.append_assoc, ← hrest, List.take_append_drop]
        · have hextent : (rest.take extent).length = extent :=
            List.length_take_of_le (length_tail_le line rest)
          rw [List.length_cons, List.length_append, hextent]
          congr 1
          omega

end Markup

end SpecDoc
