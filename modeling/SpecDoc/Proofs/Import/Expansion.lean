import Mathlib.Data.List.Forall2
import SpecDoc.Import.Resolve
import SpecDoc.Proofs.Bare
import SpecDoc.Proofs.Import.Splice
import SpecDoc.Proofs.Markup.AsRead

/-!
# Expansion of imports

What it means that the imports of a file are replaced by the contents of the files that they name,
in which the imports are replaced in the same way. The rules do not say in which order this is done,
and a cycle of imports has no expansion.

* `Expands` are the rules;
* `Expands.unique`: there is at most one expansion;
* `Expands.not_isImport`: no import is left;
* `expands_spliceAll`: splicing documents in replaces the imports, if each document is what the
  file of its import expands to.
-/

namespace SpecDoc

/-! ## Imports -/

/-- What a node imports and where it stands, if it is an import. -/
def Node.import? : Node → Option (String × Option Span)
  | .leaf (.importLink raw) span => some (raw, span)
  | _ => none

/-- The imports of a forest, in order. -/
def Node.importsIn (ns : List Node) : List (String × Option Span) :=
  (Node.preorder ns).filterMap Node.import?

/-- The imports of a document are those of its contents. -/
theorem Document.imports_eq (d : Document) : d.imports = Node.importsIn d.contents := by
  rw [imports, d.descendants_eq]
  rfl

namespace Node

@[simp]
theorem importsIn_nil : importsIn [] = [] := rfl

/-- The imports of a forest are its first node, if it is one, those below it and those behind it. -/
theorem importsIn_cons (n : Node) (ns : List Node) :
    importsIn (n :: ns) = n.import?.toList ++ importsIn n.children ++ importsIn ns := by
  rw [importsIn, preorder_cons]
  cases h : n.import? <;> simp [importsIn, h]

@[simp]
theorem importsIn_importLink (raw : String) (span : Option Span) (ns : List Node) :
    importsIn (.leaf (.importLink raw) span :: ns) = (raw, span) :: importsIn ns := by
  simp [importsIn_cons, import?, children]

/-- Any other leaf is no import. -/
theorem importsIn_leaf {l : Leaf} (hl : ∀ raw, l ≠ .importLink raw) (span : Option Span)
    (ns : List Node) : importsIn (.leaf l span :: ns) = importsIn ns := by
  cases l with
  | importLink raw => exact absurd rfl (hl raw)
  | _ => simp [importsIn_cons, import?, children]

@[simp]
theorem importsIn_group (g : Group) (span : Option Span) (contents ns : List Node) :
    importsIn (.group g span contents :: ns) = importsIn contents ++ importsIn ns := by
  simp [importsIn_cons, import?, children]

@[simp]
theorem importsIn_rule (r : Rule) (span : Option Span) (head : Option Node) (body ns : List Node) :
    importsIn (.rule r span head body :: ns)
      = importsIn head.toList ++ (importsIn body ++ importsIn ns) := by
  rw [importsIn_cons, ← List.append_assoc, children]
  simp [import?, importsIn, preorder_append]

/-- Only leaves are imports, and these only if they name a file. -/
theorem isImport_leaf {l : Leaf} (hl : ∀ raw, l ≠ .importLink raw) (span : Option Span) :
    (leaf l span).isImport = false := by
  cases l with
  | importLink raw => exact absurd rfl (hl raw)
  | _ => rfl

@[simp]
theorem isImport_group (g : Group) (span : Option Span) (contents : List Node) :
    (group g span contents).isImport = false := by
  cases g <;> rfl

@[simp]
theorem isImport_rule (r : Rule) (span : Option Span) (head : Option Node) (body : List Node) :
    (rule r span head body).isImport = false := by
  cases r <;> rfl

end Node

/-! ## The rules -/

/-- `Expands load path ns ns'`: in the file at `path` the nodes `ns` expand to `ns'`, where `load`
says which document is read for a file. -/
inductive Expands (load : Path → Document → Prop) : Path → List Node → List Node → Prop where
  | nil (path : Path) : Expands load path [] []
  /-- An import gives way to what the contents of its file expand to. -/
  | importLink {path : Path} {raw : String} {span : Option Span} {d : Document}
      {contents ns ns' : List Node} (hload : load (importTarget path raw) d)
      (hcontents : Expands load (importTarget path raw) d.contents contents)
      (hns : Expands load path ns ns') :
      Expands load path (.leaf (.importLink raw) span :: ns) (contents ++ ns')
  /-- Any other leaf stays. -/
  | leaf {path : Path} {l : Leaf} {span : Option Span} {ns ns' : List Node}
      (hl : ∀ raw, l ≠ .importLink raw) (hns : Expands load path ns ns') :
      Expands load path (.leaf l span :: ns) (.leaf l span :: ns')
  | group {path : Path} {g : Group} {span : Option Span} {contents contents' ns ns' : List Node}
      (hcontents : Expands load path contents contents') (hns : Expands load path ns ns') :
      Expands load path (.group g span contents :: ns) (.group g span contents' :: ns')
  /-- At the head of a rule there is place for one node only. -/
  | rule {path : Path} {r : Rule} {span : Option Span} {head head' : Option Node}
      {body body' ns ns' : List Node} (hhead : Expands load path head.toList head'.toList)
      (hbody : Expands load path body body') (hns : Expands load path ns ns') :
      Expands load path (.rule r span head body :: ns) (.rule r span head' body' :: ns')

/-- What a file at a path expands to: the document that is read for it, with its contents expanded.
-/
def Expands.File (read load : Path → Document → Prop) (path : Path) (d : Document) : Prop :=
  ∃ d₀, read path d₀ ∧ Expands load path d₀.contents d.contents ∧ d.title = d₀.title ∧
    d.span = d₀.span

namespace Expands

variable {load load' : Path → Document → Prop} {path path' : Path} {ns ns' ms ms' : List Node}

/-- More files may be readable. -/
theorem mono (hload : ∀ q d, load q d → load' q d) (h : Expands load path ns ns') :
    Expands load' path ns ns' := by
  induction h with
  | nil path => exact .nil path
  | importLink hd _ _ ihcontents ihns => exact .importLink (hload _ _ hd) ihcontents ihns
  | leaf hl _ ih => exact .leaf hl ih
  | group _ _ ihcontents ihns => exact .group ihcontents ihns
  | rule _ _ _ ihhead ihbody ihns => exact .rule ihhead ihbody ihns

/-- Two forests expand one after the other. -/
theorem append (hms : Expands load path ms ms') (hns : Expands load path ns ns') :
    Expands load path (ms ++ ns) (ms' ++ ns') := by
  induction hms with
  | nil path => exact hns
  | importLink hd hcontents _ _ ih =>
      rw [List.append_assoc]
      exact .importLink hd hcontents (ih hns)
  | leaf hl _ ih => exact .leaf hl (ih hns)
  | group hcontents _ _ ih => exact .group hcontents (ih hns)
  | rule hhead hbody _ _ _ ih => exact .rule hhead hbody (ih hns)

/-- What nodes expand to only depends on the directory that their file is in. -/
theorem relocate (hparent : path.parent = path'.parent) (h : Expands load path ns ns') :
    Expands load path' ns ns' := by
  induction h with
  | nil path => exact .nil path'
  | @importLink path raw _ _ _ _ _ hd hcontents _ _ ihns =>
      have htarget : importTarget path raw = importTarget path' raw := by
        rw [importTarget, importTarget, hparent]
      rw [htarget] at hd hcontents
      exact .importLink hd hcontents (ihns hparent)
  | leaf hl _ ih => exact .leaf hl (ih hparent)
  | group _ _ ihcontents ihns => exact .group (ihcontents hparent) (ihns hparent)
  | rule _ _ _ ihhead ihbody ihns => exact .rule (ihhead hparent) (ihbody hparent) (ihns hparent)

/-- There is at most one expansion. It may be made from different files, as long as those that are
read in both cases are the same. -/
theorem unique (hload : ∀ p raw d d', load (importTarget p raw) d →
    load' (importTarget p raw) d' → d = d') (h : Expands load path ns ms)
    (h' : Expands load' path ns ms') : ms = ms' := by
  induction h generalizing ms' with
  | nil path =>
      cases h'
      rfl
  | @importLink path raw span d contents _ _ hd _ _ ihcontents ihns =>
      cases h' with
      | leaf hl _ => exact absurd rfl (hl raw)
      | importLink hd' hcontents' hns' =>
          obtain rfl := hload path raw _ _ hd hd'
          rw [ihcontents hcontents', ihns hns']
  | leaf hl _ ih =>
      cases h' with
      | importLink _ _ _ => exact absurd rfl (hl _)
      | leaf _ hns' => rw [ih hns']
  | group _ _ ihcontents ihns =>
      cases h' with
      | group hcontents' hns' => rw [ihcontents hcontents', ihns hns']
  | rule _ _ _ ihhead ihbody ihns =>
      cases h' with
      | rule hhead' hbody' hns' =>
          -- A head is a sequence of at most one node, and the node is the first of it.
          have hheads := congrArg List.head? (ihhead hhead')
          rw [Option.head?_toList, Option.head?_toList] at hheads
          rw [hheads, ihbody hbody', ihns hns']

/-- Nodes without places expand to the same, without places. -/
theorem bare (h : Expands load path ns ns') :
    Expands (fun q d => ∃ d₀, load q d₀ ∧ d₀.bare = d) path (ns.map Node.bare)
      (ns'.map Node.bare) := by
  induction h with
  | nil path => exact .nil path
  | @importLink path raw span d contents _ _ hd _ _ ihcontents ihns =>
      rw [List.map_cons, Node.bare_leaf, List.map_append]
      exact .importLink ⟨d, hd, rfl⟩ ihcontents ihns
  | leaf hl _ ih =>
      rw [List.map_cons, List.map_cons, Node.bare_leaf]
      exact .leaf hl ih
  | group _ _ ihcontents ihns =>
      rw [List.map_cons, List.map_cons, Node.bare_group, Node.bare_group]
      exact .group ihcontents ihns
  | rule _ _ _ ihhead ihbody ihns =>
      rw [List.map_cons, List.map_cons, Node.bare_rule, Node.bare_rule]
      rw [← Option.toList_map, ← Option.toList_map] at ihhead
      exact .rule ihhead ihbody ihns

/-- A head that gives a rule its name stays. -/
theorem eq_of_isSome_name? {r : Rule} {head head' : Option Node} (hname : (r.name? head).isSome)
    (h : Expands load path head.toList head'.toList) : head' = head := by
  obtain ⟨l, span, rfl, hl⟩ := Node.exists_of_isSome_name? hname
  rw [← Option.head?_toList (o := head')]
  generalize head'.toList = ns at h
  cases h with
  | importLink _ _ _ => exact absurd rfl (hl _)
  | leaf _ _ => rfl

/-- What is true of all nodes of the files is true of nodes that are put together from them, if it stays
true when the imports below a node give way. The nodes are as they are read, so no head of a rule does. -/
theorem everywhere {P : Node → Prop} (hread : ∀ n, P n → n.AsRead)
    (hgroup : ∀ {path : Path} {g : Group} {span : Option Span} {contents contents' : List Node},
      Expands load path contents contents' → P (.group g span contents) →
        P (.group g span contents'))
    (hrule : ∀ {r : Rule} {span : Option Span} {head : Option Node} {body body' : List Node},
      P (.rule r span head body) → P (.rule r span head body'))
    (hload : ∀ q d, load q d → Node.Everywhere P d.contents)
    (h : Expands load path ns ns') (hns : Node.Everywhere P ns) : Node.Everywhere P ns' := by
  induction h with
  | nil path => exact Node.everywhere_nil
  | importLink hd _ _ ihcontents ihns =>
      exact Node.everywhere_append.2 ⟨ihcontents (hload _ _ hd), ihns (Node.everywhere_leaf.1 hns).2⟩
  | leaf _ _ ih =>
      obtain ⟨hleaf, hns⟩ := Node.everywhere_leaf.1 hns
      exact Node.everywhere_leaf.2 ⟨hleaf, ih hns⟩
  | group hexpands _ ihcontents ihns =>
      obtain ⟨hg, hcontents, hns⟩ := Node.everywhere_group.1 hns
      exact Node.everywhere_group.2 ⟨hgroup hexpands hg, ihcontents hcontents, ihns hns⟩
  | rule hhead _ _ ihhead ihbody ihns =>
      obtain ⟨hr, hhead₀, hbody, hbehind⟩ := Node.everywhere_rule.1 hns
      obtain rfl := eq_of_isSome_name? (hread _ hr).2 hhead
      exact Node.everywhere_rule.2 ⟨hrule hr, hhead₀, ihbody hbody, ihns hbehind⟩

/-- Nodes that are put together from nodes as they are read are as they are read. -/
theorem asRead (hload : ∀ q d, load q d → Node.Everywhere Node.AsRead d.contents)
    (h : Expands load path ns ns') (hns : Node.Everywhere Node.AsRead ns) :
    Node.Everywhere Node.AsRead ns' :=
  h.everywhere (fun _ hn => hn) (fun _ hg => hg) (fun hr => hr) hload hns

/-- No import is left. -/
theorem not_isImport (h : Expands load path ns ns') :
    Node.Everywhere (fun n => n.isImport = false) ns' := by
  induction h with
  | nil path => exact Node.everywhere_nil
  | importLink _ _ _ ihcontents ihns => exact Node.everywhere_append.2 ⟨ihcontents, ihns⟩
  | leaf hl _ ih => exact Node.everywhere_leaf.2 ⟨Node.isImport_leaf hl _, ih⟩
  | group _ _ ihcontents ihns =>
      exact Node.everywhere_group.2 ⟨Node.isImport_group _ _ _, ihcontents, ihns⟩
  | rule _ _ _ ihhead ihbody ihns =>
      exact Node.everywhere_rule.2 ⟨Node.isImport_rule _ _ _ _, ihhead, ihbody, ihns⟩

end Expands

/-! ## Splicing -/

/-- What is related to two lists in a row is two lists in a row. -/
theorem exists_append_of_forall₂ {α β : Type} {R : α → β → Prop} {as as' : List α} {bs : List β}
    (h : List.Forall₂ R (as ++ as') bs) :
    ∃ bs₁ bs₂, bs = bs₁ ++ bs₂ ∧ List.Forall₂ R as bs₁ ∧ List.Forall₂ R as' bs₂ := by
  induction as generalizing bs with
  | nil => exact ⟨[], bs, rfl, .nil, h⟩
  | cons a as ih =>
      obtain ⟨b, bs', hb, hbs', rfl⟩ := List.forall₂_cons_left_iff.1 h
      obtain ⟨bs₁, bs₂, rfl, h₁, h₂⟩ := ih hbs'
      exact ⟨b :: bs₁, bs₂, rfl, .cons hb h₁, h₂⟩

/-- Of two related lists each entry of the first is related to one of the second. -/
theorem exists_of_forall₂_left {α β : Type} {R : α → β → Prop} {as : List α} {bs : List β} {a : α}
    (h : List.Forall₂ R as bs) (ha : a ∈ as) : ∃ b ∈ bs, R a b := by
  induction h with
  | nil => cases ha
  | cons hab _ ih =>
      rcases List.mem_cons.1 ha with rfl | ha
      · exact ⟨_, List.mem_cons_self, hab⟩
      · obtain ⟨b, hb, hR⟩ := ih ha
        exact ⟨b, List.mem_cons_of_mem _ hb, hR⟩

/-- Of two related lists each entry of the second is related to one of the first. -/
theorem exists_of_forall₂_right {α β : Type} {R : α → β → Prop} {as : List α} {bs : List β} {b : β}
    (h : List.Forall₂ R as bs) (hb : b ∈ bs) : ∃ a ∈ as, R a b :=
  exists_of_forall₂_left h.flip hb

/-- Splicing replaces the imports of a forest that was read, if each document is what the file of
its import expands to. It takes as many documents as there are imports. -/
theorem expands_spliceAll {load : Path → Document → Prop} {path : Path} (ns : List Node) :
    Node.Everywhere Node.AsRead ns → ∀ ds rest : List Document,
      List.Forall₂ (fun i d => Expands.File load load (importTarget path i.1) d)
        (Node.importsIn ns) ds →
      Expands load path ns (Node.spliceAll ns (ds ++ rest)).1 ∧
        (Node.spliceAll ns (ds ++ rest)).2 = rest := by
  induction ns using Node.importInduction with
  | nil =>
      intro _ ds rest hds
      cases hds
      exact ⟨.nil path, rfl⟩
  | importLink raw span ns ih =>
      intro hread ds rest hds
      obtain ⟨-, hns⟩ := Node.everywhere_leaf.1 hread
      rw [Node.importsIn_importLink] at hds
      obtain ⟨d, ds', ⟨d₀, hd₀, hexpands, -, -⟩, hds', rfl⟩ := List.forall₂_cons_left_iff.1 hds
      obtain ⟨hns, hrest⟩ := ih hns ds' rest hds'
      rw [List.cons_append, Node.spliceAll_importLink_cons]
      exact ⟨.importLink hd₀ hexpands hns, hrest⟩
  | leaf l span ns hl ih =>
      intro hread ds rest hds
      obtain ⟨-, hns⟩ := Node.everywhere_leaf.1 hread
      rw [Node.importsIn_leaf hl] at hds
      obtain ⟨hns, hrest⟩ := ih hns ds rest hds
      rw [Node.spliceAll_leaf hl]
      exact ⟨.leaf hl hns, hrest⟩
  | group g span contents ns ihcontents ihns =>
      intro hread ds rest hds
      obtain ⟨-, hcontents, hns⟩ := Node.everywhere_group.1 hread
      rw [Node.importsIn_group] at hds
      obtain ⟨ds₁, ds₂, rfl, hds₁, hds₂⟩ := exists_append_of_forall₂ hds
      obtain ⟨hcontents, hrest₁⟩ := ihcontents hcontents ds₁ (ds₂ ++ rest) hds₁
      obtain ⟨hns, hrest₂⟩ := ihns hns ds₂ rest hds₂
      rw [List.append_assoc, Node.spliceAll_group, hrest₁]
      exact ⟨.group hcontents hns, hrest₂⟩
  | rule r span head body ns _ ihbody ihns =>
      intro hread ds rest hds
      obtain ⟨hrule, -, hbody, hns⟩ := Node.everywhere_rule.1 hread
      -- The head is a leaf that stays, so all documents are for the body and what is behind it.
      obtain ⟨l, lspan, rfl, hl⟩ := Node.exists_of_isSome_name? hrule.2
      rw [Node.importsIn_rule, Option.toList_some, Node.importsIn_leaf hl, Node.importsIn_nil,
        List.nil_append] at hds
      obtain ⟨ds₁, ds₂, rfl, hds₁, hds₂⟩ := exists_append_of_forall₂ hds
      obtain ⟨hbody, hrest₁⟩ := ihbody hbody ds₁ (ds₂ ++ rest) hds₁
      obtain ⟨hns, hrest₂⟩ := ihns hns ds₂ rest hds₂
      rw [List.append_assoc, Node.spliceAll_rule, Option.toList_some, Node.spliceAll_leaf hl,
        Node.spliceAll_nil_left, hrest₁]
      exact ⟨.rule (.leaf hl (.nil path)) hbody hns, hrest₂⟩

/-- A document with its imports spliced in has expanded contents. -/
theorem expands_splice {load : Path → Document → Prop} {path : Path} {d : Document}
    {ds : List Document} (hread : Node.Everywhere Node.AsRead d.contents)
    (hds : List.Forall₂ (fun i d => Expands.File load load (importTarget path i.1) d) d.imports ds) :
    Expands load path d.contents (d.splice ds).contents := by
  rw [d.imports_eq] at hds
  have h := (expands_spliceAll d.contents hread ds [] hds).1
  rwa [List.append_nil] at h

end SpecDoc
