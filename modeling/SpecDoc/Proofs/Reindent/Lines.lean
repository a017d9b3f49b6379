import SpecDoc.Proofs.Markup.Extent
import SpecDoc.Proofs.Reindent.Alike
import SpecDoc.Proofs.Text.Margins

/-!
# Sources that differ in the layout of examples

The lines strictly between the fences of an example may get other spaces and tabs at their ends. The
source then has the same blocks on the same lines, except for the texts of these examples.

* `InExample`: which lines are meant; `Reindented`: sequences of lines that differ only there;
* `alike_items`: the blocks of such lines differ only in the layout of examples.
-/

namespace SpecDoc.Markup

open Text

/-! ## Lines in examples -/

/-- Whether a block is code that is an example. -/
def Item.isExample (item : Item) : Bool :=
  match item.content with
  | .block (.leaf (.code c) _) => c.isExample
  | _ => false

/-- Whether the line with a number lies strictly between the fences of an example. -/
def InExample (file : Option String) (n : ℕ) (ls : List (List Char)) (m : ℕ) : Prop :=
  ∃ item ∈ items file n ls, item.isExample = true ∧ item.span.start.line < m ∧
    m < item.span.finish.line

section Examples

variable {file : Option String} {n m : ℕ} {line : List Char} {rest : List (List Char)}

/-- The block at a line is an example if the line is a fence that says so and has a partner. -/
theorem isExample_blockItem_iff :
    (blockItem file n line rest).isExample = true ↔
      heading? line = none ∧ (∃ info, fence? line = some info ∧ (FenceInfo.ofText info).isExample = true) ∧
        blockTail line rest ≠ [] := by
  unfold blockItem Item.isExample blockContent
  dsimp only
  cases hheading : heading? line with
  | some p => simp
  | none =>
  cases hfence : fence? line with
  | some info =>
      cases htail : blockTail line rest with
      | nil => simp
      | cons l ls => simp [codeNode]
  | none =>
  -- Without a fence there is no code.
  simp only [reduceCtorEq, false_and, exists_false, and_false, iff_false, Bool.not_eq_true]
  cases subsection? line with
  | some title => rfl
  | none =>
  cases algorithm? line with
  | some p => rfl
  | none =>
  cases production? line with
  | some p =>
      by_cases htext : p.2.2 = "one of".toList
      · simp only [if_pos htext]
      · simp only [if_neg htext]
  | none =>
  cases listItem? line with
  | some p => rfl
  | none =>
  cases definition? line with
  | some text => rfl
  | none =>
  cases remark? line with
  | some p =>
      obtain ⟨_ | _, text⟩ := p <;> rfl
  | none => rfl

/-- A blank line is passed over. -/
theorem inExample_of_allBlank (h : allBlank line = true) :
    InExample file n (line :: rest) m ↔ InExample file (n + 1) rest m := by
  rw [InExample, items, if_pos h, InExample]

/-- A line lies in the first block, if this is an example, or in one of the blocks behind it. -/
theorem inExample_cons (h : allBlank line = false) :
    InExample file n (line :: rest) m ↔
      (blockItem file n line rest).isExample = true ∧ n < m ∧ m < n + (blockTail line rest).length ∨
        InExample file (n + 1 + (blockTail line rest).length)
          (rest.drop (blockTail line rest).length) m := by
  rw [InExample, items, if_neg (by simp [h])]
  simp only [List.mem_cons, exists_eq_or_imp]
  rfl

/-- Whether a line lies in an example does not depend on how the file is called. -/
theorem inExample_congr (file file' : Option String) (n : ℕ) (ls : List (List Char)) (m : ℕ) :
    InExample file n ls m ↔ InExample file' n ls m := by
  fun_induction items file n ls with
  | case1 => simp [InExample, items]
  | case2 n line rest hblank ih => rw [inExample_of_allBlank hblank, inExample_of_allBlank hblank, ih]
  | case3 n line rest hblank extent ih =>
      rw [inExample_cons (by simpa using hblank), inExample_cons (by simpa using hblank),
        isExample_blockItem_iff, isExample_blockItem_iff, ih]

/-- A line in an example has a line of the sequence before it and one behind it. -/
theorem lt_of_inExample {ls : List (List Char)} (h : InExample file n ls m) :
    n < m ∧ m + 1 < n + ls.length := by
  obtain ⟨item, hitem, -, hstart, hfinish⟩ := h
  obtain ⟨before, line, rest, rfl, -, rfl⟩ := exists_of_mem_items hitem
  have hlength := length_tail_le line rest
  simp only [blockItem, linesSpan, Span.lines, List.length_append, List.length_cons] at *
  omega

/-- A line of the first block, or the one behind it, is in an example only if it is strictly between the fences
of this block. -/
theorem lt_of_inExample_cons (hblank : allBlank line = false) {k : ℕ}
    (hk : k ≤ (blockTail line rest).length) (h : InExample file n (line :: rest) (n + (1 + k))) :
    (blockItem file n line rest).isExample = true ∧ k + 1 < (blockTail line rest).length := by
  rcases (inExample_cons hblank).1 h with ⟨hexample, -, hlt⟩ | hbehind
  · exact ⟨hexample, by omega⟩
  · have := (lt_of_inExample hbehind).1
    omega

/-- If the first block is no example, none of its lines is in one, nor is the line behind it. -/
theorem not_inExample_cons (hblank : allBlank line = false)
    (hexample : (blockItem file n line rest).isExample = false) {k : ℕ}
    (hk : k ≤ (blockTail line rest).length) : ¬InExample file n (line :: rest) (n + (1 + k)) := by
  intro h
  rw [(lt_of_inExample_cons hblank hk h).1] at hexample
  cases hexample

end Examples

/-! ## Other spaces in examples -/

/-- Whether lines are the given ones with other spaces and tabs at the ends of lines in examples. -/
def Reindented (file : Option String) (n : ℕ) (ls ls' : List (List Char)) : Prop :=
  RespacedAt (fun k => InExample file n ls (n + k)) ls ls'

namespace Reindented

variable {file : Option String} {n : ℕ} {line line' : List Char} {rest rest' : List (List Char)}

/-- The first line is the same. -/
theorem head_eq (h : Reindented file n (line :: rest) (line' :: rest')) : line' = line :=
  Option.some.inj (RespacedAt.getElem?_eq (k := 0) h fun hin =>
    absurd (lt_of_inExample hin).1 (Nat.lt_irrefl n))

/-- Lines with other spaces in examples differ in the same way behind a blank one. -/
theorem of_allBlank (h : Reindented file n (line :: rest) (line' :: rest'))
    (hblank : allBlank line = true) : Reindented file (n + 1) rest rest' := by
  refine (RespacedAt.drop h 1).mono fun k hin => ?_
  rwa [inExample_of_allBlank hblank, ← Nat.add_assoc] at hin

/-- Lines with other spaces in examples differ behind the first one where they did. -/
theorem tail (h : Reindented file n (line :: rest) (line' :: rest')) :
    RespacedAt (fun k => InExample file n (line :: rest) (n + (1 + k))) rest rest' :=
  RespacedAt.drop h 1

/-- Lines with other spaces in examples differ in the same way behind a block. -/
theorem drop (h : Reindented file n (line :: rest) (line' :: rest')) (hblank : allBlank line = false) :
    Reindented file (n + 1 + (blockTail line rest).length) (rest.drop (blockTail line rest).length)
      (rest'.drop (blockTail line rest).length) := by
  refine (h.tail.drop (blockTail line rest).length).mono fun k hin => ?_
  rcases (inExample_cons hblank).1 hin with ⟨-, -, hlt⟩ | hbehind
  · omega
  · rwa [← Nat.add_assoc, ← Nat.add_assoc] at hbehind

/-- A block that is no example has the same lines, and so has the line behind it. -/
theorem take_eq (h : Reindented file n (line :: rest) (line' :: rest')) (hblank : allBlank line = false)
    (hexample : (blockItem file n line rest).isExample = false) :
    rest'.take ((blockTail line rest).length + 1) = rest.take ((blockTail line rest).length + 1) := by
  refine (h.tail.take _).eq fun k hk => not_inExample_cons hblank hexample ?_
  rw [List.length_take] at hk
  omega

end Reindented

/-! ## Extent of blocks -/

/-- A run of lines is found again if its lines and the one behind it are the same. -/
theorem takeWhile_eq_of_take_eq {α : Type} {p : α → Bool} {l l' : List α}
    (h : l'.take ((l.takeWhile p).length + 1) = l.take ((l.takeWhile p).length + 1)) :
    l'.takeWhile p = l.takeWhile p := by
  induction l generalizing l' with
  | nil =>
      cases l' with
      | nil => rfl
      | cons a l' => simp at h
  | cons a l ih =>
      cases l' with
      | nil => simp at h
      | cons a' l' =>
          rw [List.take_succ_cons, List.take_succ_cons, List.cons.injEq] at h
          obtain ⟨rfl, h⟩ := h
          cases hp : p a' with
          | false =>
              rw [List.takeWhile_cons_of_neg (by simp [hp]), List.takeWhile_cons_of_neg (by simp [hp])]
          | true =>
              rw [List.takeWhile_cons_of_pos hp, List.length_cons] at h
              rw [List.takeWhile_cons_of_pos hp, List.takeWhile_cons_of_pos hp, ih h]

/-- A line with other spaces around it closes code if the line does. -/
theorem closesCode_eq {l l' : List Char} (h : SameCore l l') : closesCode l' = closesCode l := by
  rw [closesCode, closesCode, h.trim_eq]

/-- Code goes over as many lines whatever spaces and tabs are at their ends. -/
theorem blockTail_of_forall₂ {line : List Char} {rest rest' : List (List Char)}
    (hheading : (heading? line).isSome = false) (hfence : (fence? line).isSome = true)
    (h : List.Forall₂ SameCore rest rest') :
    blockTail line rest' = rest'.take (blockTail line rest).length := by
  have hany : rest'.any closesCode = rest.any closesCode := by
    induction h with
    | nil => rfl
    | cons hl _ ih => rw [List.any_cons, List.any_cons, closesCode_eq hl, ih]
  have hrun : (rest'.takeWhile (!closesCode ·)).length = (rest.takeWhile (!closesCode ·)).length := by
    clear hany
    induction h with
    | nil => rfl
    | cons hl _ ih =>
        rw [List.takeWhile_cons, List.takeWhile_cons, closesCode_eq hl]
        split
        · rw [List.length_cons, List.length_cons, ih]
        · rfl
  rw [blockTail_of_code hheading hfence, blockTail_of_code hheading hfence, hany, hrun]
  split
  · rw [List.length_take, h.length_eq, List.take_eq_take_min]
  · rfl

/-- An example is code. -/
theorem isExample_eq_false {file : Option String} {n : ℕ} {line : List Char}
    {rest : List (List Char)} (h : (heading? line).isSome = true ∨ (fence? line).isSome = false) :
    (blockItem file n line rest).isExample = false := by
  rw [← Bool.not_eq_true, isExample_blockItem_iff]
  rintro ⟨hheading, ⟨info, hfence, -⟩, -⟩
  rw [hheading, hfence] at h
  rcases h with h | h <;> cases h

namespace Reindented

variable {file : Option String} {n : ℕ} {line line' : List Char} {rest rest' : List (List Char)}

/-- A block goes over as many lines. -/
theorem blockTail_eq (h : Reindented file n (line :: rest) (line' :: rest'))
    (hblank : allBlank line = false) :
    blockTail line rest' = rest'.take (blockTail line rest).length := by
  by_cases hcode : (heading? line).isSome = true ∨ (fence? line).isSome = false
  · -- A run of lines ends where one fails the test, so the line behind the block has to be the same.
    obtain ⟨p, -, hp⟩ := exists_blockTail_eq_takeWhile hcode
    have htake := h.take_eq hblank (isExample_eq_false hcode)
    have htail : blockTail line rest' = blockTail line rest := by
      rw [hp] at htake
      rw [hp, hp, takeWhile_eq_of_take_eq htake]
    have hlength : (blockTail line rest').length = (blockTail line rest).length := by rw [htail]
    rw [← hlength]
    exact List.prefix_iff_eq_take.1 (blockTail_isPrefix line rest')
  · -- Code may be an example, but the line that closes it is only looked at trimmed.
    rw [not_or, Bool.not_eq_true, Bool.not_eq_false] at hcode
    have hcores := h.forall₂
    rw [List.forall₂_cons] at hcores
    exact blockTail_of_forall₂ hcode.1 hcode.2 hcores.2

/-- The lines of a block with other spaces in examples differ where the lines do. -/
theorem respacedAt_blockTail (h : Reindented file n (line :: rest) (line' :: rest'))
    (hblank : allBlank line = false) :
    RespacedAt (fun k => InExample file n (line :: rest) (n + (1 + k))) (blockTail line rest)
      (blockTail line rest') := by
  have htake := h.tail.take (blockTail line rest).length
  rwa [← h.blockTail_eq hblank, ← List.prefix_iff_eq_take.1 (blockTail_isPrefix line rest)] at htake

/-- The last line of a block is the same: it is not strictly between fences. -/
theorem getLast?_blockTail_eq (h : Reindented file n (line :: rest) (line' :: rest'))
    (hblank : allBlank line = false) :
    (blockTail line rest').getLast? = (blockTail line rest).getLast? := by
  refine (h.respacedAt_blockTail hblank).getLast?_eq fun k hk hin => ?_
  have := (lt_of_inExample_cons hblank (by omega) hin).2
  omega

/-- A block that is no example is the same block. -/
theorem blockItem_eq (h : Reindented file n (line :: rest) (line' :: rest'))
    (hblank : allBlank line = false) (hexample : (blockItem file n line rest).isExample = false) :
    blockItem file n line rest' = blockItem file n line rest := by
  have htail : blockTail line rest' = blockTail line rest :=
    (h.respacedAt_blockTail hblank).eq fun k hk =>
      not_inExample_cons hblank hexample (Nat.le_of_lt hk)
  rw [blockItem, htail]
  rfl

end Reindented

/-! ## Blocks -/

/-- Whether two contents differ at most in the layout of an example. -/
inductive Content.Alike : Content → Content → Prop where
  | same (c : Content) : Alike c c
  | code {c c' : Code} {span : Option Span} (h : c.Alike c') :
      Alike (.block (.leaf (.code c) span)) (.block (.leaf (.code c') span))

/-- Whether two blocks differ at most in the layout of an example. -/
structure Item.Alike (i i' : Item) : Prop where
  line : i'.line = i.line
  span : i'.span = i.span
  content : i.content.Alike i'.content

/-- A block differs in nothing from itself. -/
theorem Item.Alike.refl (i : Item) : i.Alike i := ⟨rfl, rfl, .same _⟩

/-- Of two blocks that are alike both are examples, or none is. -/
theorem Item.Alike.isExample_eq {i i' : Item} (h : i.Alike i') : i'.isExample = i.isExample := by
  obtain ⟨n, span, content⟩ := i
  obtain ⟨n', span', content'⟩ := i'
  cases h.content with
  | same => rfl
  | code hcode => exact hcode.symm.isExample.trans hcode.isExample.symm

/-- The block that starts at a fence with a partner is code. -/
theorem content_blockItem_of_fence {file : Option String} {n : ℕ} {line info : List Char}
    {rest : List (List Char)} (hheading : heading? line = none) (hfence : fence? line = some info)
    (htail : blockTail line rest ≠ []) :
    (blockItem file n line rest).content =
      .block (codeNode (linesSpan file n line (blockTail line rest)) info
        (blockTail line rest).dropLast) := by
  obtain ⟨l, ls, hcons⟩ := List.exists_cons_of_ne_nil htail
  rw [blockItem, hcons, blockContent, hheading, hfence]

/-- A block is the same block, or an example that differs in its layout. -/
theorem Reindented.alike_blockItem {file : Option String} {n : ℕ} {line line' : List Char}
    {rest rest' : List (List Char)} (h : Reindented file n (line :: rest) (line' :: rest'))
    (hblank : allBlank line = false) (hrest : ∀ l ∈ rest, IsOneLine l) :
    (blockItem file n line rest).Alike (blockItem file n line rest') := by
  cases hexample : (blockItem file n line rest).isExample with
  | false =>
      rw [h.blockItem_eq hblank hexample]
      exact .refl _
  | true =>
      obtain ⟨hheading, ⟨info, hfence, hflag⟩, htail⟩ := isExample_blockItem_iff.1 hexample
      have hcores := (h.respacedAt_blockTail hblank).forall₂
      have hlast := h.getLast?_blockTail_eq hblank
      have htail' : blockTail line rest' ≠ [] := by
        rw [ne_eq, ← List.length_eq_zero_iff, ← hcores.length_eq, List.length_eq_zero_iff]
        exact htail
      have hspan : linesSpan file n line (blockTail line rest')
          = linesSpan file n line (blockTail line rest) := by
        rw [linesSpan, linesSpan, hlast, hcores.length_eq]
      refine ⟨rfl, hspan, ?_⟩
      rw [content_blockItem_of_fence hheading hfence htail,
        content_blockItem_of_fence hheading hfence htail', hspan]
      refine .code ⟨hflag, ?_, rfl⟩
      refine normalizeCode_join ?_ fun l hl => hrest l ?_
      · rw [List.dropLast_eq_take, List.dropLast_eq_take, hcores.length_eq]
        exact List.forall₂_take _ hcores
      · exact (blockTail_isPrefix line rest).subset (List.dropLast_subset _ hl)

/-- The blocks of lines with other spaces in examples are the same, or examples that differ in their
layout. -/
theorem Reindented.alike_items {file : Option String} {n : ℕ} {ls ls' : List (List Char)}
    (h : Reindented file n ls ls') (hls : ∀ l ∈ ls, IsOneLine l) :
    List.Forall₂ Item.Alike (items file n ls) (items file n ls') := by
  revert ls'
  -- The blocks are found as `items` finds them: behind a blank line, or behind the block that was read.
  fun_induction items file n ls with
  | case1 =>
      intro ls' h
      rw [List.length_eq_zero_iff.1 (RespacedAt.length_eq h), items]
      exact .nil
  | case2 n line rest hblank ih =>
      intro ls' h
      cases ls' with
      | nil => cases h.length_eq
      | cons line' rest' =>
          obtain rfl := h.head_eq
          rw [items, if_pos hblank]
          exact ih (List.forall_mem_cons.1 hls).2 (h.of_allBlank hblank)
  | case3 n line rest hblank extent ih =>
      intro ls' h
      cases ls' with
      | nil => cases h.length_eq
      | cons line' rest' =>
          obtain rfl := h.head_eq
          have hrest := (List.forall_mem_cons.1 hls).2
          rw [Bool.not_eq_true] at hblank
          rw [items, if_neg (by simp [hblank]), (h.respacedAt_blockTail hblank).length_eq]
          refine .cons (h.alike_blockItem hblank hrest) (ih (fun l hl => ?_) (h.drop hblank))
          exact hrest l (List.drop_subset _ _ hl)

/-- Lines whose blocks are alike lie in examples at the same places. -/
theorem inExample_iff_of_alike {file : Option String} {n : ℕ} {ls ls' : List (List Char)}
    (h : List.Forall₂ Item.Alike (items file n ls) (items file n ls')) (m : ℕ) :
    InExample file n ls' m ↔ InExample file n ls m := by
  unfold InExample
  generalize items file n ls = is at h
  generalize items file n ls' = is' at h
  induction h with
  | nil => rfl
  | cons hitem _ ih =>
      simp only [List.mem_cons, exists_eq_or_imp]
      rw [hitem.isExample_eq, hitem.span, ih]

/-- The two sequences of lines may be exchanged. -/
theorem Reindented.symm {file : Option String} {n : ℕ} {ls ls' : List (List Char)}
    (h : Reindented file n ls ls') (hls : ∀ l ∈ ls, IsOneLine l) : Reindented file n ls' ls :=
  (RespacedAt.symm h).mono fun k => (inExample_iff_of_alike (h.alike_items hls) (n + k)).2

end SpecDoc.Markup
