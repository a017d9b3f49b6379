import Mathlib.Data.List.Chain
import SpecDoc.Build
import SpecDoc.Proofs.Markup.Parts

/-!
# Inline text written back

Inline markup loses nothing of a text: its nodes with their markers around them are the text again, whatever
in it was taken for a marker and whatever was not. And its nodes are in a normal form, in which plain text is
one node wherever it can be.

* `Node.writtenAll` writes nodes with their markers;
* `writtenAll_nodesOfPieces`: the nodes of pieces are written like the pieces;
* `IsTidy` is the normal form, and `isTidy_nodesOfPieces` says when pieces give one;
* `writtenAll_inlines`: what holds of every text;
* `Node.mem_writtenAll_of_mem_plainText`: a reader sees nothing that is not written.
-/

namespace SpecDoc

namespace Node

mutual

/-- A node of inline text as it is written. -/
def written : Node → List Char
  | .leaf (.text value) _ => value.toList
  | .leaf (.inlineCode value) _ => '\x60' :: value.toList ++ ['\x60']
  | .leaf _ _ => []
  | .group .bold _ contents => ['*', '*'] ++ writtenAll contents ++ ['*', '*']
  | .group .italic _ contents => ['*'] ++ writtenAll contents ++ ['*']
  | .group (.link url) _ contents =>
    '[' :: writtenAll contents ++ ']' :: '(' :: url.toList ++ [')']
  | .group _ _ _ => []
  | .rule _ _ _ _ => []

/-- Nodes of inline text as they are written, one behind the other. -/
def writtenAll : List Node → List Char
  | [] => []
  | n :: ns => written n ++ writtenAll ns

end

/-- Whether a node is plain text. -/
def isText (n : Node) : Bool := n.kind == .text

end Node

/-- The kinds of nodes that a text with markup consists of. -/
def Kind.isMarkup : Kind → Bool
  | .text | .inlineCode | .bold | .italic | .link => true
  | _ => false

namespace Markup

open Node

/-! ## Nothing is lost -/

/-- A text node is written as its text. -/
theorem written_textNode (s : List Char) : (textNode s).written = s := by
  rw [textNode, written, String.toList_ofList]

/-- A text in front of nodes is written in front of them. -/
theorem writtenAll_consText (s : List Char) (ns : List Node) :
    writtenAll (consText s ns) = s ++ writtenAll ns := by
  unfold consText
  split
  · rw [writtenAll, written_textNode, writtenAll, written, List.append_assoc]
  · rw [writtenAll, written_textNode]

/-- A split leaves the pieces around the marker. -/
theorem eq_of_splitAtMarker? {m : Piece} {ps a b : List Piece}
    (h : splitAtMarker? m ps = some (a, b)) : ps = a ++ m :: b := by
  induction ps generalizing a b with
  | nil => cases h
  | cons p ps ih =>
      rw [splitAtMarker?] at h
      split at h
      · next hp =>
        cases h
        rw [hp, List.nil_append]
      · obtain ⟨q, hq, h⟩ := Option.map_eq_some_iff.1 h
        cases h
        rw [ih hq, List.cons_append]

/-- A group is written between its markers. -/
theorem written_group {p : Piece} {g : Group} (h : p.group? = some g) (span : Option Span)
    (contents : List Node) :
    (Node.group g span contents).written = p.written ++ writtenAll contents ++ p.written := by
  cases p <;> cases h <;> rw [written] <;> rfl

/-- The nodes of pieces are written like the pieces, if the labels of links are. -/
theorem writtenAll_nodesOfPieces {label : List Char → List Node}
    (hlabel : ∀ l, writtenAll (label l) = l) (ps : List Piece) :
    writtenAll (nodesOfPieces label ps) = ps.flatMap Piece.written := by
  fun_induction nodesOfPieces label ps with
  | case1 => rw [writtenAll, List.flatMap_nil]
  | case2 p r g hg a as b hsplit hlength ihin ihbehind =>
      have hr : r.flatMap Piece.written
          = (a :: as).flatMap Piece.written ++ (p.written ++ b.flatMap Piece.written) := by
        simp only [eq_of_splitAtMarker? hsplit, List.flatMap_append, List.flatMap_cons]
      have hpieces : (p :: r).flatMap Piece.written = p.written ++ r.flatMap Piece.written :=
        List.flatMap_cons
      rw [writtenAll, written_group hg, ihin, ihbehind, hpieces, hr]
      simp only [List.append_assoc]
  | case3 p r g hg hsplit ih => rw [writtenAll_consText, ih, List.flatMap_cons]
  | case4 r text hg ih =>
      rw [writtenAll, written, String.toList_ofList, ih, List.flatMap_cons, Piece.written]
  | case5 r l target hg ih =>
      rw [writtenAll, written, String.toList_ofList, hlabel, ih, List.flatMap_cons, Piece.written]
  | case6 p r hg hcode hlink ih => rw [writtenAll_consText, ih, List.flatMap_cons]

/-! ## The normal form -/

/-- Whether no two text nodes are neighbours. -/
def Merged (ns : List Node) : Prop :=
  ns.IsChain fun m n => ¬ (m.isText = true ∧ n.isText = true)

/-- What the normal form says about one node and its children. -/
structure TidyNode (n : Node) : Prop where
  isMarkup : n.kind.isMarkup = true
  span?_eq : n.span? = none
  /-- A text node holds some text. -/
  text_ne_empty : ∀ value span, n = .leaf (.text value) span → value ≠ ""
  /-- There is something between two markers. -/
  children_ne_nil : n.kind = .bold ∨ n.kind = .italic → n.children ≠ []
  merged : Merged n.children

/-- The normal form of inline text: no two text nodes are neighbours, on this level or on any other, no text
node is empty, and no bold or italic node is without contents. -/
structure IsTidy (ns : List Node) : Prop where
  merged : Merged ns
  nodes : Everywhere TidyNode ns

/-- Nothing is in normal form. -/
theorem isTidy_nil : IsTidy [] := ⟨List.isChain_nil, everywhere_nil⟩

/-- A text node is tidy if it holds some text. -/
theorem tidyNode_textNode {s : List Char} (hs : s ≠ []) : TidyNode (textNode s) where
  isMarkup := rfl
  span?_eq := rfl
  text_ne_empty := by
    intro value span h
    cases h
    intro hempty
    apply hs
    rw [← String.toList_ofList (l := s), hempty]
    rfl
  children_ne_nil := by
    intro h
    rcases h with h | h <;> cases h
  merged := List.isChain_nil

/-- A tidy text node has nothing but its text. -/
theorem TidyNode.exists_eq_text {n : Node} (h : TidyNode n) (htext : n.isText = true) :
    ∃ value, n = .leaf (.text value) none := by
  have hkind : n.kind = .text := eq_of_beq htext
  have hspan := h.span?_eq
  cases n with
  | leaf l span =>
      cases hspan
      cases l with
      | text value => exact ⟨value, rfl⟩
      | _ => cases hkind
  | group g span contents => cases g <;> cases hkind
  | rule r span head body => cases r <;> cases hkind

/-- Text in front of tidy nodes leaves them tidy, since a text node in front takes it in. -/
theorem IsTidy.consText {ns : List Node} (h : IsTidy ns) {s : List Char} (hs : s ≠ []) :
    IsTidy (consText s ns) := by
  unfold Markup.consText
  split
  · next t r =>
    have hne : s ++ t.toList ≠ [] := by
      intro hempty
      exact hs (List.append_eq_nil_iff.1 hempty).1
    refine ⟨?_, everywhere_leaf.2 ⟨tidyNode_textNode hne, (everywhere_leaf.1 h.nodes).2⟩⟩
    -- The new node is a text node like the one that it stands for.
    have hmerged := h.merged
    rw [Merged, List.isChain_cons] at hmerged ⊢
    exact hmerged
  · next hhead =>
    refine ⟨?_, everywhere_leaf.2 ⟨tidyNode_textNode hs, h.nodes⟩⟩
    rw [Merged, List.isChain_cons]
    refine ⟨?_, h.merged⟩
    rintro n hn ⟨-, htext⟩
    obtain ⟨r, rfl⟩ : ∃ r, ns = n :: r := List.head?_eq_some_iff.1 hn
    have htidy : TidyNode n := (everywhere_cons.1 h.nodes).1
    obtain ⟨t, rfl⟩ := htidy.exists_eq_text htext
    exact hhead t r rfl

/-- A tidy node that is no text can stand in front of tidy nodes. -/
theorem IsTidy.cons {n : Node} {ns : List Node} (h : IsTidy ns) (hn : TidyNode n)
    (hbelow : Everywhere TidyNode n.children) (htext : n.isText = false) : IsTidy (n :: ns) where
  merged := by
    rw [Merged, List.isChain_cons]
    refine ⟨?_, h.merged⟩
    rintro m - ⟨hn, -⟩
    rw [htext] at hn
    cases hn
  nodes := everywhere_cons.2 ⟨hn, hbelow, h.nodes⟩

/-- Pieces have nodes. -/
theorem nodesOfPieces_ne_nil (label : List Char → List Node) {ps : List Piece} (hps : ps ≠ []) :
    nodesOfPieces label ps ≠ [] := by
  have hcons : ∀ s ns, consText s ns ≠ [] := by
    intro s ns
    unfold consText
    split <;> exact List.cons_ne_nil _ _
  fun_cases nodesOfPieces label ps with
  | case1 => exact absurd rfl hps
  | case2 => exact List.cons_ne_nil _ _
  | case3 => exact hcons _ _
  | case4 => exact List.cons_ne_nil _ _
  | case5 => exact List.cons_ne_nil _ _
  | case6 => exact hcons _ _

/-- A bold or italic node with tidy contents is tidy, if there are any. -/
theorem tidyNode_group {p : Piece} {g : Group} (hg : p.group? = some g) {contents : List Node}
    (h : IsTidy contents) (hne : contents ≠ []) : TidyNode (.group g none contents) where
  isMarkup := by
    cases p <;> cases hg <;> rfl
  span?_eq := rfl
  text_ne_empty := by
    intro value span h
    cases h
  children_ne_nil := fun _ => hne
  merged := h.merged

/-- Code and links are tidy if no two text nodes below them are neighbours. -/
theorem tidyNode_of_kind {n : Node} (hkind : n.kind = .inlineCode ∨ n.kind = .link)
    (hspan : n.span? = none) (h : Merged n.children) : TidyNode n where
  isMarkup := by
    rcases hkind with hkind | hkind <;> rw [hkind] <;> rfl
  span?_eq := hspan
  text_ne_empty := by
    rintro value span rfl
    rcases hkind with hkind | hkind <;> cases hkind
  children_ne_nil := by
    intro hmarked
    rcases hkind with hkind | hkind <;> rw [hkind] at hmarked <;>
      rcases hmarked with hmarked | hmarked <;> cases hmarked
  merged := h

/-- The nodes of pieces are tidy, if no piece is empty and the labels of their links are tidy. -/
theorem isTidy_nodesOfPieces {label : List Char → List Node} (ps : List Piece)
    (hps : ∀ p ∈ ps, p.written ≠ []) (hlabel : ∀ l t, Piece.link l t ∈ ps → IsTidy (label l)) :
    IsTidy (nodesOfPieces label ps) := by
  fun_induction nodesOfPieces label ps with
  | case1 => exact isTidy_nil
  | case2 p r g hg a as b hsplit hlength ihin ihbehind =>
      have hr := eq_of_splitAtMarker? hsplit
      have hmem : ∀ q, q ∈ a :: as ∨ q ∈ b → q ∈ p :: r := by
        intro q hq
        rw [hr]
        apply List.mem_cons_of_mem
        rcases hq with hq | hq
        · exact List.mem_append_left _ hq
        · exact List.mem_append_right _ (List.mem_cons_of_mem _ hq)
      have hin := ihin (fun q hq => hps q (hmem q (Or.inl hq)))
        (fun l t hl => hlabel l t (hmem _ (Or.inl hl)))
      have hbehind := ihbehind (fun q hq => hps q (hmem q (Or.inr hq)))
        (fun l t hl => hlabel l t (hmem _ (Or.inr hl)))
      have hne := nodesOfPieces_ne_nil label (List.cons_ne_nil a as)
      refine hbehind.cons (tidyNode_group hg hin hne) hin.nodes ?_
      cases p <;> cases hg <;> rfl
  | case3 p r g hg hsplit ih =>
      obtain ⟨hp, hr⟩ := List.forall_mem_cons.1 hps
      exact (ih hr fun l t hl => hlabel l t (List.mem_cons_of_mem _ hl)).consText hp
  | case4 r text hg ih =>
      obtain ⟨-, hr⟩ := List.forall_mem_cons.1 hps
      have hrest := ih hr fun l t hl => hlabel l t (List.mem_cons_of_mem _ hl)
      exact hrest.cons (tidyNode_of_kind (Or.inl rfl) rfl List.isChain_nil) everywhere_nil rfl
  | case5 r l target hg ih =>
      obtain ⟨-, hr⟩ := List.forall_mem_cons.1 hps
      have hrest := ih hr fun l t hl => hlabel l t (List.mem_cons_of_mem _ hl)
      have hl := hlabel l target List.mem_cons_self
      exact hrest.cons (tidyNode_of_kind (Or.inr rfl) rfl hl.merged) hl.nodes rfl
  | case6 p r hg hcode hlink ih =>
      obtain ⟨hp, hr⟩ := List.forall_mem_cons.1 hps
      exact (ih hr fun l t hl => hlabel l t (List.mem_cons_of_mem _ hl)).consText hp

/-! ## The pieces of a text -/

/-- The part before the first occurrence of a character does not hold it. -/
theorem not_mem_of_splitAtFirst? {d : Char} {s a b : List Char}
    (h : splitAtFirst? d s = some (a, b)) : d ∉ a := by
  induction s generalizing a b with
  | nil => cases h
  | cons c r ih =>
      rw [splitAtFirst?] at h
      split at h
      · cases h
        exact List.not_mem_nil
      · next hc =>
        obtain ⟨p, hp, h⟩ := Option.map_eq_some_iff.1 h
        cases h
        intro hd
        rcases List.mem_cons.1 hd with rfl | hd
        · exact hc rfl
        · exact ih hp hd

/-- The label of a link ends at the first closing bracket. -/
theorem not_mem_of_nextPiece {c : Char} {r label target : List Char}
    (h : (nextPiece c r).1 = .link label target) : ']' ∉ label := by
  unfold nextPiece at h
  split at h
  · split at h <;> cases h
  · split at h
    · split at h <;> cases h
    · split at h
      · split at h
        · cases h
        · next hlabel =>
          split at h
          · split at h
            · cases h
              exact not_mem_of_splitAtFirst? hlabel
            · cases h
          · cases h
      · cases h

/-- No piece of a text is empty, and no label in it holds a closing bracket. -/
theorem written_ne_nil_of_mem_cutPieces (s : List Char) :
    ∀ p ∈ cutPieces s, p.written ≠ [] ∧ ∀ label target, p = .link label target → ']' ∉ label := by
  fun_induction cutPieces s with
  | case1 =>
      intro p hp
      cases hp
  | case2 c r ih =>
      refine List.forall_mem_cons.2 ⟨⟨written_nextPiece_ne_nil c r, ?_⟩, ih⟩
      intro label target h
      exact not_mem_of_nextPiece h

/-- There is no link in a text without closing brackets. -/
theorem link_not_mem_cutPieces {s : List Char} (hs : ']' ∉ s) (label target : List Char) :
    Piece.link label target ∉ cutPieces s := by
  intro hmem
  apply hs
  rw [← flatMap_written_cutPieces s]
  refine List.mem_flatMap.2 ⟨_, hmem, ?_⟩
  simp [Piece.written]

/-! ## Texts -/

/-- The label of a link is tidy. -/
theorem isTidy_labelNodes {s : List Char} (hs : ']' ∉ s) : IsTidy (labelNodes s) :=
  isTidy_nodesOfPieces (cutPieces s) (fun p hp => (written_ne_nil_of_mem_cutPieces s p hp).1)
    fun label target hlink => absurd hlink (link_not_mem_cutPieces hs label target)

/-- The label of a link is written as its text. -/
theorem writtenAll_labelNodes (s : List Char) : writtenAll (labelNodes s) = s := by
  have htext : ∀ l, writtenAll [textNode l] = l := by
    intro l
    rw [writtenAll, written_textNode, writtenAll, List.append_nil]
  rw [labelNodes, writtenAll_nodesOfPieces htext, flatMap_written_cutPieces]

/-- The nodes of a text are written as the text. -/
theorem inlines_written (s : List Char) : writtenAll (inlines s) = s := by
  rw [inlines, writtenAll_nodesOfPieces writtenAll_labelNodes, flatMap_written_cutPieces]

/-- The nodes of a text are tidy. -/
theorem isTidy_inlines (s : List Char) : IsTidy (inlines s) := by
  have hpieces := written_ne_nil_of_mem_cutPieces s
  refine isTidy_nodesOfPieces (cutPieces s) (fun p hp => (hpieces p hp).1) ?_
  intro label target hlink
  exact isTidy_labelNodes ((hpieces _ hlink).2 label target rfl)

/-- **Nothing of a text is lost.** The nodes of a text, written with their markers, are the text, and they are
in normal form. -/
theorem writtenAll_inlines (s : List Char) : writtenAll (inlines s) = s ∧ IsTidy (inlines s) :=
  ⟨inlines_written s, isTidy_inlines s⟩

/-- Markers that cross each other, a pair with nothing in it and a marker in a label. -/
example : inlines "**a *b** c* ****[*](d)".toList
    = [.group .bold none [Build.text "a *b"], Build.text " c* ****",
      .group (.link "d") none [Build.text "*"]] := by
  cbv

end Markup

/-! ## Plain text -/

namespace TextPiece

/-- Pieces that share a line are put behind what is on it. -/
theorem fill_of_shares {ps : List TextPiece} (h : ∀ p ∈ ps, p.shares = true) (line : String) :
    fill (some line) ps = [line ++ String.join (ps.map TextPiece.text)] := by
  induction ps generalizing line with
  | nil => simp [fill]
  | cons p ps ih =>
      obtain ⟨hp, hps⟩ := List.forall_mem_cons.1 h
      rw [fill, if_pos hp, ih hps, List.map_cons, String.join_cons, String.append_assoc]
      rfl

/-- The text of pieces that share a line has no characters but theirs. -/
theorem exists_mem_of_mem_layout {ps : List TextPiece} (h : ∀ p ∈ ps, p.shares = true) {c : Char}
    (hc : c ∈ (layout ps).toList) : ∃ p ∈ ps, c ∈ p.text.toList := by
  cases ps with
  | nil => simp [layout, fill] at hc
  | cons p ps =>
      obtain ⟨hp, hps⟩ := List.forall_mem_cons.1 h
      rw [layout, fill, if_pos hp, fill_of_shares hps] at hc
      simpa [String.toList_join] using hc

end TextPiece

namespace Node

/-- A piece of text that shares its line and has no characters but those of `s`. -/
def IsSeenIn (s : List Char) (p : TextPiece) : Prop :=
  p.shares = true ∧ ∀ c ∈ p.text.toList, c ∈ s

/-- The pieces of a node and of those behind it are seen in what is written for all of them. -/
theorem isSeenIn_cons {n : Node} {ns : List Node} (hn : IsSeenIn n.written n.textPiece)
    (hns : ∀ p ∈ textPieces ns, IsSeenIn (writtenAll ns) p) :
    ∀ p ∈ textPieces (n :: ns), IsSeenIn (writtenAll (n :: ns)) p := by
  rw [textPieces, List.forall_mem_cons, writtenAll]
  constructor
  · exact ⟨hn.1, fun c hc => List.mem_append_left _ (hn.2 c hc)⟩
  · intro p hp
    exact ⟨(hns p hp).1, fun c hc => List.mem_append_right _ ((hns p hp).2 c hc)⟩

/-- A reader sees no characters in inline text but those that are written. -/
theorem isSeenIn_textPieces {ns : List Node}
    (h : Everywhere (fun n => n.kind.isMarkup = true) ns) :
    ∀ p ∈ textPieces ns, IsSeenIn (writtenAll ns) p := by
  induction ns using forestInduction with
  | nil => simp [textPieces]
  | leaf l span ns ih =>
      obtain ⟨hl, hns⟩ := everywhere_leaf.1 h
      refine isSeenIn_cons ?_ (ih hns)
      cases l with
      | text value => exact ⟨rfl, by simp [textPiece, Leaf.plainText, written]⟩
      | inlineCode value => exact ⟨rfl, by simp +contextual [textPiece, Leaf.plainText, written]⟩
      | _ => cases hl
  | group g span contents ns ihcontents ihns =>
      obtain ⟨hg, hcontents, hns⟩ := everywhere_group.1 h
      have hbelow := ihcontents hcontents
      refine isSeenIn_cons ?_ (ihns hns)
      have hlayout : ∀ c ∈ (TextPiece.layout (textPieces contents)).toList,
          c ∈ writtenAll contents := by
        intro c hc
        obtain ⟨p, hp, hcp⟩ := TextPiece.exists_mem_of_mem_layout (fun p hp => (hbelow p hp).1) hc
        exact (hbelow p hp).2 c hcp
      cases g with
      | bold | italic | link url =>
        refine ⟨rfl, fun c hc => ?_⟩
        have hmem := hlayout c hc
        simp [written, hmem]
      | _ => cases hg
  | rule r span head body ns _ _ _ =>
      obtain ⟨hr, -⟩ := everywhere_rule.1 h
      cases r <;> cases hr

/-- The plain text of inline text has no characters but those that are written. -/
theorem mem_writtenAll_of_mem_plainText {ns : List Node}
    (h : Everywhere (fun n => n.kind.isMarkup = true) ns) {c : Char}
    (hc : c ∈ (plainText ns).toList) : c ∈ writtenAll ns := by
  have hpieces := isSeenIn_textPieces h
  obtain ⟨p, hp, hcp⟩ := TextPiece.exists_mem_of_mem_layout (fun p hp => (hpieces p hp).1) hc
  exact (hpieces p hp).2 c hcp

end Node

end SpecDoc
