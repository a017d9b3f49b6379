import SpecDoc.Proofs.Descendants
import SpecDoc.Proofs.Markup.OneLine
import SpecDoc.Proofs.SectionId.Shown

/-!
# Lines that go on with prose

Paragraphs, definitions and remarks are prose: they go on up to a blank line or to a line that starts another
block. So the form of a line is looked at twice, where a block is read and where prose goes on. The second
look leaves out productions, and a production right behind prose becomes a part of it.

* `startsBlock_eq_true_iff` says how the two looks differ, and `continuesParagraph_eq_true_iff` which lines
  prose goes on with;
* `Document.ProseGoesOn` and `Document.ProseStopsAt` say something of the lines with which the prose of a
  document goes on, and of those right behind it;
* `Document.proseGoesOn_of_parse`: prose takes in paragraphs and productions;
* `not_proseGoesOn_grammarSource`: a document in which it takes in a production.
-/

namespace SpecDoc

open Node Text

/-- Whether nodes of a kind are prose. -/
def Kind.isProse : Kind → Bool
  | .paragraph | .definitionParagraph | .note | .todo => true
  | _ => false

/-- Whether nodes of a kind are productions, of whatever form. -/
def Kind.isProduction : Kind → Bool
  | .production | .oneOfProduction => true
  | _ => false

/-- Prose is made of blocks. -/
theorem Kind.isBlock_of_isProse {k : Kind} (h : k.isProse = true) : k.isBlock = true := by
  cases k <;> first | rfl | cases h

namespace Markup

/-! ## Two looks at a line -/

/-- Whether a block is a plain paragraph. -/
def Content.IsParagraph (c : Content) : Prop := ∃ node, c = .block node ∧ node.kind = .paragraph

/-- Whether a block is a production. -/
def Content.IsProduction (c : Content) : Prop := ∃ node, c = .block node ∧ node.kind.isProduction = true

/-- Capital letters are neither blank nor digits, of whatever script. -/
theorem not_isBlank_of_isUpper {c : Char} (h : c.isUpper = true) :
    isBlank c = false ∧ isDigit c = false := by
  have hrange := (SectionPart.isUpper_iff c).1 h
  constructor
  · simp only [isBlank, Bool.or_eq_false_iff, Bool.and_eq_false_iff, decide_eq_false_iff_not,
      beq_eq_false_iff_ne]
    omega
  · rw [isDigit, if_pos (by omega), SectionPart.isDigit_of_isUpper h]

/-- A paragraph is no production. -/
theorem Content.IsParagraph.not_isProduction {c : Content} (h : c.IsParagraph) : ¬c.IsProduction := by
  rintro ⟨node, rfl, hproduction⟩
  obtain ⟨_, hnode, hparagraph⟩ := h
  cases hnode
  rw [hparagraph] at hproduction
  cases hproduction

/-- A production is no item of a list, no remark and no definition. -/
theorem forms_of_isSome_production? {line : List Char} (h : (production? line).isSome) :
    listItem? line = none ∧ remark? line = none ∧ definition? line = none := by
  obtain ⟨⟨name, colons, text⟩, hproduction⟩ := Option.isSome_iff_exists.1 h
  obtain ⟨rest, hname⟩ := exists_productionName?_of_production? hproduction
  obtain ⟨c, r, rfl, hc, -⟩ := productionName?_eq_some hname
  obtain ⟨hblank, hdigit⟩ := not_isBlank_of_isUpper hc
  have hne : ∀ d : Char, d.isUpper = false → c ≠ d := by
    rintro d hd rfl
    rw [hc] at hd
    cases hd
  refine ⟨?_, ?_, ?_⟩
  · have hmarker : listMarker? (c :: r) = none := by
      rw [listMarker?, if_neg (by simp [hne '-' rfl, hne '*' rfl]), hdigit]
      rfl
    rw [listItem?, trimStart, List.dropWhile_cons_of_neg (by simp [hblank]), hmarker]
  · -- The word of a remark would be the name of the production, but a colon follows it at once.
    unfold remark?
    split
    · next heq =>
      rw [heq] at h
      simp [production?, productionName?, isNameChar, isBlank] at h
    · next heq =>
      rw [heq] at h
      simp [production?, productionName?, isNameChar, isBlank] at h
    · rfl
  · unfold definition?
    split
    · next heq => exact absurd (List.cons.inj heq).1 (hne ':' rfl)
    · rfl

variable {file : Option String} {n : ℕ} {line : List Char} {rest : List (List Char)}

/-- The look ahead stops at a line exactly if its block is neither a paragraph nor a production. -/
theorem startsBlock_eq_true_iff :
    startsBlock line = true ↔
      ¬(blockItem file n line rest).content.IsParagraph ∧
        ¬(blockItem file n line rest).content.IsProduction := by
  unfold blockItem startsBlock Content.IsParagraph Content.IsProduction
  dsimp only
  unfold blockContent
  -- The forms of a line in the order in which they are tried.
  cases hheading : heading? line with
  | some heading => simp
  | none =>
  cases hfence : fence? line with
  | some info =>
      dsimp only
      split <;> simp [codeNode, kind, Leaf.kind, Kind.isProduction]
  | none =>
  cases hsubsection : subsection? line with
  | some title => simp
  | none =>
  cases halgorithm : algorithm? line with
  | some algorithm => simp [kind, Rule.kind, Kind.isProduction]
  | none =>
  cases hproduction : production? line with
  | some production =>
      obtain ⟨hitem, hremark, hdefinition⟩ : _ ∧ _ ∧ _ :=
        forms_of_isSome_production? (by rw [hproduction, Option.isSome_some])
      simp only [hitem, hremark, hdefinition]
      split <;> simp [kind, Rule.kind, Kind.isProduction]
  | none =>
  cases hitem : listItem? line with
  | some item => simp [kind, Group.kind, Kind.isProduction]
  | none =>
  cases hdefinition : definition? line with
  | some text => simp [kind, Group.kind, Kind.isProduction]
  | none =>
  cases hremark : remark? line with
  | some remark =>
      obtain ⟨remark, text⟩ := remark
      cases remark <;> simp [kind, Group.kind, Kind.isProduction]
  | none => simp [kind, Group.kind, Kind.isProduction, inlineGroup]

/-- Whether a line that is not blank would be a paragraph or a production if it stood by itself. -/
def IsParagraphOrProduction (line : List Char) : Prop :=
  allBlank line = false ∧ ∀ file n rest,
    (blockItem file n line rest).content.IsParagraph ∨ (blockItem file n line rest).content.IsProduction

/-- The look ahead lets prose go on with the lines of paragraphs and of productions. -/
theorem continuesParagraph_eq_true_iff {line : List Char} :
    continuesParagraph line = true ↔ IsParagraphOrProduction line := by
  rw [continuesParagraph, Bool.and_eq_true, Bool.not_eq_true', Bool.not_eq_true', IsParagraphOrProduction]
  refine and_congr_right fun _ => ?_
  have hlook : ∀ file n rest, startsBlock line = true ↔
      ¬(blockItem file n line rest).content.IsParagraph ∧
        ¬(blockItem file n line rest).content.IsProduction :=
    fun _ _ _ => startsBlock_eq_true_iff
  constructor
  · intro hstarts file n rest
    have hkind := mt (hlook file n rest).2 (by simp [hstarts])
    rwa [not_and_or, not_not, not_not] at hkind
  · intro hkind
    rw [← Bool.not_eq_true, hlook none 1 [], not_and_or, not_not, not_not]
    exact hkind none 1 []

/-! ## How far prose goes -/

/-- Prose goes on as long as the look ahead lets it. -/
theorem blockTail_eq_takeWhile_of_isProse {node : Node}
    (hcontent : (blockItem file n line rest).content = .block node) (hprose : node.kind.isProse = true) :
    blockTail line rest = rest.takeWhile continuesParagraph := by
  change blockContent file n line (blockTail line rest) = .block node at hcontent
  generalize htail : blockTail line rest = tail at hcontent
  unfold blockContent at hcontent
  -- No line of another form starts prose.
  split at hcontent
  · cases hcontent
  next hheading =>
  split at hcontent
  · split at hcontent <;> cases hcontent
    cases hprose
  next hfence =>
  split at hcontent
  · cases hcontent
  next hsubsection =>
  split at hcontent
  · cases hcontent
    cases hprose
  next halgorithm =>
  split at hcontent
  · split at hcontent <;> cases hcontent <;> cases hprose
  next hproduction =>
  split at hcontent
  · cases hcontent
    cases hprose
  next hitem =>
  rw [← htail]
  simp [blockTail, hheading, hfence, hsubsection, halgorithm, hproduction, hitem]

/-- The elements of a run pass its test, and the one behind it does not. -/
theorem getElem?_of_takeWhile {α : Type} {p : α → Bool} {front rest : List α} {k : ℕ} {a : α}
    (ha : (front ++ rest)[k]? = some a) (hfront : front.length ≤ k) :
    (k < front.length + (rest.takeWhile p).length → p a = true) ∧
      (k = front.length + (rest.takeWhile p).length → p a = false) := by
  obtain ⟨j, rfl⟩ : ∃ j, k = front.length + j := ⟨k - front.length, by omega⟩
  rw [List.getElem?_append_right hfront, Nat.add_sub_cancel_left,
    ← List.takeWhile_append_dropWhile (p := p) (l := rest)] at ha
  constructor
  · intro hlt
    rw [List.getElem?_append_left (by omega)] at ha
    exact List.all_eq_true.1 List.all_takeWhile a (List.mem_of_getElem? ha)
  · intro heq
    rw [List.getElem?_append_right (by omega), Nat.add_left_cancel heq, Nat.sub_self,
      ← List.head?_eq_getElem?] at ha
    have hnot := List.head?_dropWhile_not p rest
    rwa [ha] at hnot

end Markup

/-! ## Documents -/

open Markup

/-- Whether a property is true of all lines with which the prose of a document goes on: of those behind the
first line of each block. Only blocks have spans. -/
def Document.ProseGoesOn (d : Document) (ls : List (List Char)) (P : List Char → Prop) : Prop :=
  ∀ node ∈ d.descendants, node.kind.isProse = true → ∀ span, node.span? = some span →
    ∀ k line, ls[k]? = some line → span.start.line < k + 1 → k + 1 ≤ span.finish.line → P line

/-- Whether `P` is true of all lines right behind the prose of a document. -/
def Document.ProseStopsAt (d : Document) (ls : List (List Char)) (P : List Char → Prop) : Prop :=
  ∀ node ∈ d.descendants, node.kind.isProse = true → ∀ span, node.span? = some span →
    ∀ line, ls[span.finish.line]? = some line → P line

/-- The prose of a document stands on the lines of its blocks. -/
theorem Document.exists_linesSpan_of_isProse {start : Start} {file : Option String} {source : String}
    {d : Document} (h : Document.parse start file source = .ok d) :
    ∀ node ∈ d.descendants, node.kind.isProse = true → ∀ span, node.span? = some span →
      ∃ before line rest, lines source.toList = before ++ line :: rest ∧
        span = linesSpan file (before.length + 1) line (rest.takeWhile continuesParagraph) := by
  refine Document.forall_descendants_iff.2
    (Document.everywhere_of_lines (T := fun _ => True) ⟨?_, ?_⟩ ?_ h)
  · exact fun _ _ _ hprose => absurd hprose (by simp [kind, Group.kind, Kind.isProse])
  · exact fun _ _ _ _ hprose => absurd hprose (by simp [kind, Group.kind, Kind.isProse])
  intro before rest hlines item hitem
  constructor
  · unfold Item.Satisfies
    split
    · next node hcontent =>
      obtain ⟨front, line, behind, rfl, -, rfl⟩ := exists_of_mem_items hitem
      have hnode := isBlockNode_of_blockContent hcontent
      refine everywhere_singleton.2 ⟨?_, hnode.parts.mono fun m hm hprose span hspan => ?_⟩
      · intro hprose span hspan
        rw [hnode.span_eq, Option.some.injEq, blockTail_eq_takeWhile_of_isProse hcontent hprose] at hspan
        refine ⟨before ++ front, line, behind, by rw [hlines, List.append_assoc], ?_⟩
        rw [← hspan, List.length_append]
        congr 1
        omega
      · -- The paragraph of a remark has no span.
        rw [(hm.eq_paragraph (Kind.isBlock_of_isProse hprose)).2] at hspan
        cases hspan
    all_goals trivial
  · exact fun _ _ _ _ _ hprose => absurd hprose (by simp [kind, Leaf.kind, Kind.isProse])

/-- The lines with which prose goes on let it go on, and the one behind it does not. -/
theorem Document.proseGoesOn_continuesParagraph {start : Start} {file : Option String} {source : String}
    {d : Document} (h : Document.parse start file source = .ok d) :
    (d.ProseGoesOn (lines source.toList) fun line => continuesParagraph line = true) ∧
      d.ProseStopsAt (lines source.toList) fun line => continuesParagraph line = false := by
  have hprose := Document.exists_linesSpan_of_isProse h
  constructor
  · intro node hnode hkind span hspan k l hl hfirst hlast
    obtain ⟨before, line, rest, hlines, rfl⟩ := hprose node hnode hkind span hspan
    change before.length + 1 < k + 1 at hfirst
    change k + 1 ≤ before.length + 1 + (rest.takeWhile continuesParagraph).length at hlast
    rw [hlines, List.append_cons] at hl
    refine (getElem?_of_takeWhile hl ?_).1 ?_ <;> rw [List.length_append, List.length_singleton] <;> omega
  · intro node hnode hkind span hspan l hl
    obtain ⟨before, line, rest, hlines, rfl⟩ := hprose node hnode hkind span hspan
    rw [hlines, List.append_cons] at hl
    refine (getElem?_of_takeWhile hl ?_).2 ?_ <;> rw [List.length_append, List.length_singleton]
    · exact Nat.le_add_right _ _
    · rfl

/-- Prose does not take in a block of another kind exactly if it takes in no production. -/
theorem Document.proseGoesOn_isParagraph_iff {ls : List (List Char)} {d : Document}
    (h : d.ProseGoesOn ls IsParagraphOrProduction) :
    (d.ProseGoesOn ls fun line => ∀ file n rest, (blockItem file n line rest).content.IsParagraph) ↔
      d.ProseGoesOn ls fun line => ∀ file n rest, ¬(blockItem file n line rest).content.IsProduction := by
  constructor
  · intro hparagraph node hnode hprose span hspan k line hline hfirst hlast file n rest
    have hkind := hparagraph node hnode hprose span hspan k line hline hfirst hlast file n rest
    exact hkind.not_isProduction
  · intro hproduction node hnode hprose span hspan k line hline hfirst hlast file n rest
    have hkind := (h node hnode hprose span hspan k line hline hfirst hlast).2 file n rest
    exact hkind.resolve_right (hproduction node hnode hprose span hspan k line hline hfirst hlast file n rest)

/-- **Productions in prose.** A line stops prose exactly if the block that starts at it is neither a paragraph
nor a production. So in a document every line with which prose goes on would be a paragraph or a production by
itself, and prose goes on as long as there are such lines. Where none of them is a production, prose takes in no
block of another kind. -/
theorem Document.proseGoesOn_of_parse {start : Start} {file : Option String} {source : String}
    {d : Document} (h : Document.parse start file source = .ok d) :
    (∀ file n line rest, startsBlock line = true ↔
      ¬(blockItem file n line rest).content.IsParagraph ∧
        ¬(blockItem file n line rest).content.IsProduction) ∧
      d.ProseGoesOn (lines source.toList) IsParagraphOrProduction ∧
      (d.ProseStopsAt (lines source.toList) fun line => ¬IsParagraphOrProduction line) ∧
      ((d.ProseGoesOn (lines source.toList) fun line =>
          ∀ file n rest, (blockItem file n line rest).content.IsParagraph) ↔
        d.ProseGoesOn (lines source.toList) fun line =>
          ∀ file n rest, ¬(blockItem file n line rest).content.IsProduction) := by
  obtain ⟨hcontinues, hstops⟩ := Document.proseGoesOn_continuesParagraph h
  have hgoesOn : d.ProseGoesOn (lines source.toList) IsParagraphOrProduction := by
    intro node hnode hprose span hspan k line hline hfirst hlast
    rw [← continuesParagraph_eq_true_iff]
    exact hcontinues node hnode hprose span hspan k line hline hfirst hlast
  refine ⟨fun _ _ _ _ => startsBlock_eq_true_iff, hgoesOn, ?_, proseGoesOn_isParagraph_iff hgoesOn⟩
  intro node hnode hprose span hspan line hline
  rw [← continuesParagraph_eq_true_iff, hstops node hnode hprose span hspan line hline]
  exact Bool.false_ne_true

/-- A document with a production right behind a paragraph, and another one behind a blank line. -/
def grammarSource : String :=
  "# Specification\n\nA name is a word.\nName :\n  - Letter\n\nNote: There are\nothers.\n\nLetter : a\n"

/-- The first one becomes a part of the paragraph, and the look ahead lets it. -/
theorem proseGoesOn_grammarSource :
    ∃ d, Document.parse .initial none grammarSource = .ok d ∧
      (d.descendants.filter (·.kind.isProse)).filterMap (fun n => n.span?.map fun s =>
        (s.start.line, s.finish.line)) = [(3, 4), (7, 8)] ∧
      (blockItem none 4 "Name :".toList []).content.IsProduction ∧
      startsBlock "Name :".toList = false ∧
      d.ProseGoesOn (lines grammarSource.toList) IsParagraphOrProduction ∧
      d.ProseStopsAt (lines grammarSource.toList) fun line => ¬IsParagraphOrProduction line := by
  have hproduction : (blockItem none 4 "Name :".toList []).content.IsProduction := ⟨_, rfl, rfl⟩
  have hextents : (Document.parse .initial none grammarSource).toOption.map (fun d =>
      (d.descendants.filter (·.kind.isProse)).filterMap (fun n => n.span?.map fun s =>
        (s.start.line, s.finish.line))) = some [(3, 4), (7, 8)] := by
    decide +kernel
  cases hd : Document.parse .initial none grammarSource with
  | error e =>
      rw [hd] at hextents
      cases hextents
  | ok d =>
      rw [hd] at hextents
      obtain ⟨hlook, hgoesOn, hstops, -⟩ := Document.proseGoesOn_of_parse hd
      refine ⟨d, rfl, Option.some.inj hextents, hproduction, ?_, hgoesOn, hstops⟩
      rw [← Bool.not_eq_true, hlook none 4 "Name :".toList []]
      exact fun hno => hno.2 hproduction

/-- Prose is not only stopped by blank lines and by lines that start a block of another kind. -/
theorem not_proseGoesOn_grammarSource :
    (¬∀ file n line rest, allBlank line = false →
      (startsBlock line = true ↔ ¬(blockItem file n line rest).content.IsParagraph)) ∧
      ¬∀ start file source d, Document.parse start file source = .ok d →
        d.ProseGoesOn (lines source.toList) fun line =>
          ∀ file n rest, (blockItem file n line rest).content.IsParagraph := by
  have hparagraph : ¬(blockItem none 4 "Name :".toList []).content.IsParagraph := by
    rintro ⟨node, hcontent, hkind⟩
    cases hcontent
    cases hkind
  constructor
  · intro hclaim
    have hstarts := (hclaim none 4 "Name :".toList [] (by decide)).2 hparagraph
    exact absurd hstarts (by decide)
  · intro hclaim
    have hcovered : (Document.parse .initial none grammarSource).toOption.any (fun d =>
        d.descendants.any fun n => n.kind.isProse && n.span?.any fun s =>
          decide (s.start.line < 4) && decide (4 ≤ s.finish.line)) = true := by
      decide +kernel
    have hline : (lines grammarSource.toList)[3]? = some "Name :".toList := by decide +kernel
    cases hd : Document.parse .initial none grammarSource with
    | error e =>
        rw [hd] at hcovered
        cases hcovered
    | ok d =>
        rw [hd] at hcovered
        simp only [Except.toOption, Option.any_some, List.any_eq_true, Bool.and_eq_true,
          Option.any_eq_true, decide_eq_true_eq] at hcovered
        obtain ⟨node, hnode, hprose, span, hspan, hfirst, hlast⟩ := hcovered
        exact hparagraph
          (hclaim _ _ _ d hd node hnode hprose span hspan 3 _ hline hfirst hlast none 4 [])

end SpecDoc
