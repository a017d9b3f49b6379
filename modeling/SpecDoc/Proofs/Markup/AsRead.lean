import SpecDoc.Proofs.Markup.Throughout

/-!
# Nodes as they are read

A source leaves open what the annotation fills in: no node has an anchor and no code a number. It
never leaves open what the anchor of a rule is made of: a rule has a head that gives it a name.

* `Node.AsRead` says so of one node;
* `Markup.everywhere_asRead_block`: it is true everywhere in a block;
* `Document.everywhere_asRead_of_parse`: it is true everywhere in a document.
-/

namespace SpecDoc

open Node

/-- A node as it is read: it has no anchor, code has no number, and a rule has a head that names it.
-/
def Node.AsRead : Node → Prop
  | .leaf (.code c) _ => c.number = none ∧ c.id = none
  | .leaf _ _ => True
  | .group g _ _ => g.id? = none
  | .rule r _ head _ => r.id? = none ∧ (r.name? head).isSome

namespace Node

/-- There is nothing to say of a leaf that is no code. -/
theorem asRead_leaf {l : Leaf} (hl : ∀ c, l ≠ .code c) (span : Option Span) :
    (leaf l span).AsRead := by
  cases l with
  | code c => exact absurd rfl (hl c)
  | _ => trivial

/-- The head that gives a rule its name is a leaf, and no import. -/
theorem exists_of_isSome_name? {r : Rule} {head : Option Node} (h : (r.name? head).isSome) :
    ∃ l span, head = some (.leaf l span) ∧ ∀ raw, l ≠ .importLink raw := by
  unfold Rule.name? at h
  split at h
  · exact ⟨_, _, rfl, by simp⟩
  · exact ⟨_, _, rfl, by simp⟩
  · exact ⟨_, _, rfl, by simp⟩
  · cases h

/-- Parts of blocks have no anchors. -/
theorem IsPart.asRead {n : Node} (h : n.IsPart) : n.AsRead := by
  cases n with
  | leaf l span =>
      refine asRead_leaf ?_ span
      rintro c rfl
      cases h
  | group g span contents =>
      rcases h with hpart | ⟨rfl, -⟩
      · rcases g with _ | _ | _ | _ | _ | ⟨_, _ | id⟩ | _ | _ | _ | _ | _ | _ | _ | _ <;>
          first | rfl | cases hpart
      · rfl
  | rule r span head body => cases h

end Node

namespace Markup

/-! ## Blocks -/

/-- A block that stands by itself is as it is read. -/
theorem asRead_of_blockContent {file : Option String} {n : ℕ} {line : List Char}
    {tail : List (List Char)} {node : Node} (h : blockContent file n line tail = .block node) :
    node.AsRead := by
  unfold blockContent at h
  -- The forms of a line in the order in which they are tried. A heading is no node.
  split at h
  · cases h
  -- Code, with its flags but without a number.
  split at h
  · split at h
    · cases h
    · cases h
      exact ⟨rfl, rfl⟩
  -- A subsection is no node yet.
  split at h
  · cases h
  -- Rules: algorithms, and productions of both kinds.
  split at h
  · cases h
    exact ⟨rfl, rfl⟩
  split at h
  · split at h <;> cases h <;> exact ⟨rfl, rfl⟩
  -- Lists, definitions, remarks and paragraphs are groups without an id.
  repeat' split at h
  all_goals cases h; rfl

/-- A block and its parts are as they are read. -/
theorem everywhere_asRead_block {file : Option String} {n : ℕ} {line : List Char}
    {tail : List (List Char)} {node : Node} (h : blockContent file n line tail = .block node) :
    Everywhere AsRead [node] :=
  everywhere_singleton.2
    ⟨asRead_of_blockContent h, (isBlockNode_of_blockContent h).parts.mono fun _ => IsPart.asRead⟩

/-- Every block of a sequence of lines is, with its parts, as it is read. -/
theorem everywhere_asRead_of_mem_items {file : Option String} {n : ℕ} {ls : List (List Char)}
    {item : Item} {node : Node} (hitem : item ∈ items file n ls) (h : item.content = .block node) :
    Everywhere AsRead [node] := by
  obtain ⟨before, line, rest, -, -, rfl⟩ := exists_of_mem_items hitem
  exact everywhere_asRead_block h

/-! ## Headings -/

/-- What headings become has no anchor. -/
theorem asRead_atHeadings : AtHeadings AsRead fun _ => True where
  importLink _ span := asRead_leaf (by simp) span
  subsection _ _ _ := rfl
  numberedSection _ _ _ _ := rfl

end Markup

open Markup

/-- All nodes of a document that was read are as they are read. -/
theorem Document.everywhere_asRead_of_parse {start : Start} {file : Option String}
    {source : String} {d : Document} (h : Document.parse start file source = .ok d) :
    Everywhere AsRead d.contents := by
  refine Document.everywhere_of_parse asRead_atHeadings (fun n ls _ item hitem => ?_) h
  unfold Item.Satisfies
  split
  · next node hnode => exact everywhere_asRead_of_mem_items hitem hnode
  all_goals trivial

end SpecDoc
