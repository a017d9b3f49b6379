import SpecDoc.Annotation
import SpecDoc.Proofs.Relabelling

/-!
# Documents without annotations

The stages of an annotation write three things into a document: the numbers of sections, the numbers
of examples, and anchors. To erase one of them is to put nodes back to where it was not written yet.

* `Annotation` lists what can be erased, `Document.erase` erases one of them and `Document.blank` all;
* `Node.relabels_erase`, `sectionSlugs_erase` and `checkStructure_erase`: texts, the names of rules, the
  slugs of sections and the check of a document depend on none of them;
* `Node.everywhere_of_erase_eq`: what does not depend on an annotation remains when it is changed;
* `Document.eq_of_erase_eq`: a document is known from what remains of it after two different erasures.
-/

namespace SpecDoc

/-- What the stages of an annotation write. -/
inductive Annotation where
  | sectionNumber
  | exampleNumber
  | anchor
deriving DecidableEq

/-! ## Erasures -/

/-- An id remains unless anchors are erased. -/
def Annotation.eraseId : Annotation → Option String → Option String
  | .anchor, _ => none
  | _, id => id

/-- The block of code without its number or without its id. -/
def Code.erase (a : Annotation) (c : Code) : Code :=
  match a with
  | .sectionNumber => c
  | .exampleNumber => { c with number := none }
  | .anchor => { c with id := none }

/-- The section without what it is numbered with or without its id. -/
def Section.erase (a : Annotation) (s : Section) : Section :=
  match a with
  | .sectionNumber => { s with secId := [], number := none }
  | .exampleNumber => s
  | .anchor => { s with id := none }

/-- The subsection without the id of its section or without its own. -/
def Subsection.erase (a : Annotation) (s : Subsection) : Subsection :=
  match a with
  | .sectionNumber => { s with secId := [] }
  | .exampleNumber => s
  | .anchor => { s with id := none }

/-- The leaf without an annotation. -/
def Leaf.erase (a : Annotation) : Leaf → Leaf
  | .code c => .code (c.erase a)
  | l => l

/-- The group without an annotation. -/
def Group.erase (a : Annotation) : Group → Group
  | .numberedSection s => .numberedSection (s.erase a)
  | .subsection s => .subsection (s.erase a)
  | .definitionTerm name id => .definitionTerm name (a.eraseId id)
  | .note id => .note (a.eraseId id)
  | g => g

/-- The rule without an annotation. -/
def Rule.erase (a : Annotation) : Rule → Rule
  | .algorithm id => .algorithm (a.eraseId id)
  | .production defType id => .production defType (a.eraseId id)
  | .oneOfProduction defType id => .oneOfProduction defType (a.eraseId id)

namespace Node

mutual

/-- The node, and all nodes below it, without an annotation. -/
def erase (a : Annotation) : Node → Node
  | .leaf l span => .leaf (l.erase a) span
  | .group g span contents => .group (g.erase a) span (eraseAll a contents)
  | .rule r span head body => .rule (r.erase a) span (eraseHead a head) (eraseAll a body)

/-- The nodes of a sequence without an annotation. -/
def eraseAll (a : Annotation) : List Node → List Node
  | [] => []
  | n :: ns => n.erase a :: eraseAll a ns

/-- The head of a rule without an annotation. -/
def eraseHead (a : Annotation) : Option Node → Option Node
  | none => none
  | some n => some (n.erase a)

end

/-- An annotation is erased from each node of a sequence. -/
theorem eraseAll_eq_map (a : Annotation) (ns : List Node) : eraseAll a ns = ns.map (erase a) := by
  induction ns with
  | nil => rfl
  | cons n ns ih => rw [eraseAll, ih, List.map_cons]

/-- An annotation is erased from the head, if there is one. -/
theorem eraseHead_eq_map (a : Annotation) (head : Option Node) :
    eraseHead a head = head.map (erase a) := by
  cases head <;> rfl

@[simp]
theorem erase_leaf (a : Annotation) (l : Leaf) (span : Option Span) :
    (leaf l span).erase a = .leaf (l.erase a) span := by
  rw [erase]

@[simp]
theorem erase_group (a : Annotation) (g : Group) (span : Option Span) (contents : List Node) :
    (group g span contents).erase a = .group (g.erase a) span (contents.map (erase a)) := by
  rw [erase, eraseAll_eq_map]

@[simp]
theorem erase_rule (a : Annotation) (r : Rule) (span : Option Span) (head : Option Node)
    (body : List Node) :
    (rule r span head body).erase a
      = .rule (r.erase a) span (head.map (erase a)) (body.map (erase a)) := by
  rw [erase, eraseHead_eq_map, eraseAll_eq_map]

end Node

namespace Document

/-- The document without an annotation. -/
def erase (a : Annotation) (d : Document) : Document :=
  { d with contents := d.contents.map (Node.erase a) }

/-- The document without any annotation: sections have no ids, numbers or anchors, subsections no ids
and anchors, code has neither number nor anchor, and nothing else has an anchor. -/
def blank (d : Document) : Document :=
  ((d.erase .sectionNumber).erase .exampleNumber).erase .anchor

end Document

/-! ## What does not depend on annotations -/

/-- A rule has the same kind, so the same heads give it the same names. -/
theorem Rule.name?_erase (a : Annotation) (r : Rule) (head : Option Node) :
    (r.erase a).name? head = r.name? head :=
  name?_eq_of_kind (by cases r <;> rfl) head

/-- A group has the same text. -/
theorem Node.textPiece_group_erase (a : Annotation) (g : Group) (span : Option Span)
    (contents : List Node) :
    (group (g.erase a) span contents).textPiece = (group g span contents).textPiece := by
  cases g with
  | numberedSection s => cases a <;> simp only [textPiece, Group.erase, Section.erase]
  | subsection s => cases a <;> simp only [textPiece, Group.erase, Subsection.erase]
  | definitionTerm name id => simp only [textPiece, Group.erase, Group.kind]
  | note id => simp only [textPiece, Group.erase, Group.kind]
  | _ => rfl

/-- What a tree says does not depend on annotations. -/
theorem Node.relabels_erase (a : Annotation) : Relabels (erase a) where
  leaf l span := by
    refine ⟨l.erase a, span, erase_leaf a l span, ?_, ?_⟩
    · cases l with
      | code c => cases a <;> simp only [textPiece, Leaf.erase, Code.erase] <;> rfl
      | _ => rfl
    · intro r
      cases l <;> cases r <;> rfl
  group g span := by
    refine ⟨g.erase a, span, fun contents =>
      ⟨erase_group a g span contents, textPiece_group_erase a g span contents, ?_⟩⟩
    cases g with
    | numberedSection s => cases a <;> rfl
    | _ => rfl
  rule r span := ⟨r.erase a, span, erase_rule a r span⟩

/-- Sequences of nodes that are equal but for an annotation have the same plain text. -/
theorem Node.plainText_eq_of_map_erase_eq {a : Annotation} {ms ns : List Node}
    (h : ms.map (erase a) = ns.map (erase a)) : plainText ms = plainText ns := by
  rw [← (relabels_erase a).plainText_map ms, h, (relabels_erase a).plainText_map]

/-- The slugs of sections do not depend on annotations. -/
theorem sectionSlugs_erase (a : Annotation) (d : Document) :
    sectionSlugs (d.erase a) = sectionSlugs d :=
  (Node.relabels_erase a).sectionSlugs_eq rfl

/-- Whether a document can be annotated does not depend on annotations. -/
theorem checkStructure_erase (requireTitle : Bool) (a : Annotation) (d : Document) :
    checkStructure requireTitle (d.erase a) = checkStructure requireTitle d := by
  have hfirst : (d.erase a).firstImport? = d.firstImport? := by
    rw [Document.firstImport?, Document.firstImport?, Document.descendants_eq, Document.descendants_eq,
      Document.erase, (Node.relabels_erase a).preorder_map, List.findSome?_map]
    congr 1
    funext n
    rcases n with ⟨l, _⟩ | _ | _
    · rw [Function.comp_apply, Node.erase_leaf]
      cases l <;> rfl
    · rw [Function.comp_apply, Node.erase_group]
    · rw [Function.comp_apply, Node.erase_rule]
  rw [checkStructure, checkStructure, hfirst]
  rfl

namespace Node

section Erase

variable (a : Annotation) (n : Node)

/-- A node has the same kind without an annotation. -/
theorem kind_erase : (n.erase a).kind = n.kind := by
  cases n with
  | leaf l span =>
      rw [erase_leaf]
      cases l <;> rfl
  | group g span contents =>
      rw [erase_group]
      cases g <;> rfl
  | rule r span head body =>
      rw [erase_rule]
      cases r <;> rfl

/-- A node without an annotation is called the same. -/
theorem label?_erase : (n.erase a).label? = n.label? := by
  cases n with
  | leaf l span =>
      rw [erase_leaf]
      cases l with
      | code c => cases a <;> rfl
      | _ => rfl
  | group g span contents =>
      rw [erase_group]
      cases g with
      | numberedSection s => cases a <;> rfl
      | subsection s => cases a <;> rfl
      | _ => rfl
  | rule r span head body =>
      rw [erase_rule]
      have hname : (r.erase a).name? (head.map (erase a)) = r.name? head := by
        rw [(relabels_erase a).name?_map, Rule.name?_erase]
      cases r with
      | algorithm id => exact congrArg (Option.map (· ++ "()")) hname
      | production defType id => exact hname
      | oneOfProduction defType id => exact hname

/-- The nodes below a node without an annotation are those below the node, without the annotation. -/
theorem children_erase : (n.erase a).children = n.children.map (erase a) := by
  cases n with
  | leaf l span => rw [erase_leaf, children, children, List.map_nil]
  | group g span contents => rw [erase_group, children, children]
  | rule r span head body => rw [erase_rule, children, children, List.map_append, Option.toList_map]

/-- A node without an annotation is a section if the node is one. -/
theorem section?_erase : (n.erase a).section? = n.section?.map (Section.erase a) := by
  cases n with
  | leaf l span =>
      rw [erase_leaf]
      rfl
  | group g span contents =>
      rw [erase_group]
      cases g <;> rfl
  | rule r span head body =>
      rw [erase_rule]
      rfl

end Erase

end Node

/-- What does not depend on an annotation is true everywhere in a document if it is true everywhere in one
that differs only in this annotation. -/
theorem Node.everywhere_of_erase_eq {P : Node → Prop} {a : Annotation} {d d' : Document}
    (hP : ∀ n : Node, P (n.erase a) ↔ P n) (h : d'.erase a = d.erase a)
    (hd : Everywhere P d.contents) : Everywhere P d'.contents := by
  have hpreorder : (preorder d'.contents).map (erase a)
      = (preorder d.contents).map (erase a) := by
    rw [← (relabels_erase a).preorder_map, ← (relabels_erase a).preorder_map]
    exact congrArg (fun d => preorder d.contents) h
  intro n hn
  have hmem : n.erase a ∈ (preorder d.contents).map (erase a) := by
    rw [← hpreorder]
    exact List.mem_map_of_mem hn
  obtain ⟨m, hm, hmn⟩ := List.mem_map.1 hmem
  rw [← hP, ← hmn, hP]
  exact hd m hm

/-! ## Two erasures -/

section TwoErasures

variable {a b : Annotation}

/-- Two annotations of a leaf can be erased in either order. -/
theorem Leaf.erase_comm (a b : Annotation) (l : Leaf) : (l.erase a).erase b = (l.erase b).erase a := by
  cases l with
  | code c => cases a <;> cases b <;> rfl
  | _ => rfl

theorem Group.erase_comm (a b : Annotation) (g : Group) :
    (g.erase a).erase b = (g.erase b).erase a := by
  cases g with
  | numberedSection s => cases a <;> cases b <;> rfl
  | subsection s => cases a <;> cases b <;> rfl
  | definitionTerm name id => cases a <;> cases b <;> rfl
  | note id => cases a <;> cases b <;> rfl
  | _ => rfl

theorem Rule.erase_comm (a b : Annotation) (r : Rule) : (r.erase a).erase b = (r.erase b).erase a := by
  cases r <;> cases a <;> cases b <;> rfl

/-- Two annotations may be erased from a forest in any order. -/
theorem Node.map_erase_comm (a b : Annotation) (ns : List Node) :
    (ns.map (erase a)).map (erase b) = (ns.map (erase b)).map (erase a) := by
  induction ns using forestInduction with
  | nil => rfl
  | leaf l span ns ih =>
      simp only [List.map_cons, erase_leaf, ih, Leaf.erase_comm a b]
  | group g span contents ns ihcontents ihns =>
      simp only [List.map_cons, erase_group, ihns, ihcontents, Group.erase_comm a b]
  | rule r span head body ns ihhead ihbody ihns =>
      have hhead : (head.map (erase a)).map (erase b) = (head.map (erase b)).map (erase a) := by
        apply head_eq_of_toList_eq
        simpa only [Option.toList_map] using ihhead
      simp only [List.map_cons, erase_rule, ihns, hhead, ihbody, Rule.erase_comm a b]

/-- Two annotations may be erased from a document in any order. -/
theorem Document.erase_comm (a b : Annotation) (d : Document) :
    (d.erase a).erase b = (d.erase b).erase a := by
  rw [erase, erase, erase, erase, Node.map_erase_comm]

/-- Documents that are equal but for one annotation are equal without any. -/
theorem Document.blank_eq_of_erase_eq {d d' : Document} (h : d'.erase a = d.erase a) :
    d'.blank = d.blank := by
  rw [blank, blank]
  cases a with
  | sectionNumber => rw [h]
  | exampleNumber => rw [erase_comm _ .exampleNumber, h, erase_comm .exampleNumber]
  | anchor =>
      rw [erase_comm .exampleNumber .anchor, erase_comm .sectionNumber .anchor, h,
        erase_comm .anchor .sectionNumber, erase_comm .anchor .exampleNumber]

/-! ## What remains after two erasures -/

variable (hab : a ≠ b)

include hab

theorem eq_of_eraseId_eq {id id' : Option String} (ha : a.eraseId id = a.eraseId id')
    (hb : b.eraseId id = b.eraseId id') : id = id' := by
  cases a with
  | anchor =>
      cases b with
      | anchor => exact absurd rfl hab
      | _ => exact hb
  | _ => exact ha

theorem Code.eq_of_erase_eq {c c' : Code} (ha : c.erase a = c'.erase a)
    (hb : c.erase b = c'.erase b) : c = c' := by
  cases c
  cases c'
  cases a <;> cases b <;> simp_all [Code.erase]

theorem Section.eq_of_erase_eq {s s' : Section} (ha : s.erase a = s'.erase a)
    (hb : s.erase b = s'.erase b) : s = s' := by
  cases s
  cases s'
  cases a <;> cases b <;> simp_all [Section.erase]

theorem Subsection.eq_of_erase_eq {s s' : Subsection} (ha : s.erase a = s'.erase a)
    (hb : s.erase b = s'.erase b) : s = s' := by
  cases s
  cases s'
  cases a <;> cases b <;> simp_all [Subsection.erase]

theorem Leaf.eq_of_erase_eq {l l' : Leaf} (ha : l.erase a = l'.erase a)
    (hb : l.erase b = l'.erase b) : l = l' := by
  cases l with
  | code c =>
      cases l' with
      | code c' =>
          rw [Leaf.erase, Leaf.erase, Leaf.code.injEq] at ha hb
          rw [Code.eq_of_erase_eq hab ha hb]
      | _ => cases ha
  | _ =>
      cases l' with
      | code c' => cases ha
      | _ => exact ha

theorem Group.eq_of_erase_eq {g g' : Group} (ha : g.erase a = g'.erase a)
    (hb : g.erase b = g'.erase b) : g = g' := by
  cases g with
  | numberedSection s =>
      cases g' with
      | numberedSection s' =>
          rw [Group.erase, Group.erase, Group.numberedSection.injEq] at ha hb
          rw [Section.eq_of_erase_eq hab ha hb]
      | _ => cases ha
  | subsection s =>
      cases g' with
      | subsection s' =>
          rw [Group.erase, Group.erase, Group.subsection.injEq] at ha hb
          rw [Subsection.eq_of_erase_eq hab ha hb]
      | _ => cases ha
  | definitionTerm name id =>
      cases g' with
      | definitionTerm name' id' =>
          rw [Group.erase, Group.erase, Group.definitionTerm.injEq] at ha hb
          rw [ha.1, eq_of_eraseId_eq hab ha.2 hb.2]
      | _ => cases ha
  | note id =>
      cases g' with
      | note id' =>
          rw [Group.erase, Group.erase, Group.note.injEq] at ha hb
          rw [eq_of_eraseId_eq hab ha hb]
      | _ => cases ha
  -- Any other group keeps what it holds, and none that holds an annotation becomes one of these.
  | _ => cases g' <;> first | exact ha | cases ha

theorem Rule.eq_of_erase_eq {r r' : Rule} (ha : r.erase a = r'.erase a)
    (hb : r.erase b = r'.erase b) : r = r' := by
  cases r with
  | algorithm id =>
      cases r' with
      | algorithm id' =>
          rw [Rule.erase, Rule.erase, Rule.algorithm.injEq] at ha hb
          rw [eq_of_eraseId_eq hab ha hb]
      | _ => cases ha
  | production defType id =>
      cases r' with
      | production defType' id' =>
          rw [Rule.erase, Rule.erase, Rule.production.injEq] at ha hb
          rw [ha.1, eq_of_eraseId_eq hab ha.2 hb.2]
      | _ => cases ha
  | oneOfProduction defType id =>
      cases r' with
      | oneOfProduction defType' id' =>
          rw [Rule.erase, Rule.erase, Rule.oneOfProduction.injEq] at ha hb
          rw [ha.1, eq_of_eraseId_eq hab ha.2 hb.2]
      | _ => cases ha

/-- A forest is known from what remains of it after two different erasures. -/
theorem Node.eq_of_map_erase_eq {ms ns : List Node} (ha : ns.map (erase a) = ms.map (erase a))
    (hb : ns.map (erase b) = ms.map (erase b)) : ns = ms := by
  induction ns using forestInduction generalizing ms with
  | nil => exact (List.map_eq_nil_iff.1 ha.symm).symm
  | leaf l span ns ih =>
      cases ms with
      | nil => cases ha
      | cons m ms =>
          rw [List.map_cons, List.map_cons, List.cons.injEq] at ha hb
          cases m with
          | leaf l' span' =>
              simp only [erase_leaf, leaf.injEq] at ha hb
              obtain ⟨⟨hla, rfl⟩, hns⟩ := ha
              rw [Leaf.eq_of_erase_eq hab hla hb.1.1, ih hns hb.2]
          | group g span' contents => simp at ha
          | rule r span' head body => simp at ha
  | group g span contents ns ihcontents ihns =>
      cases ms with
      | nil => cases ha
      | cons m ms =>
          rw [List.map_cons, List.map_cons, List.cons.injEq] at ha hb
          cases m with
          | leaf l' span' => simp at ha
          | group g' span' contents' =>
              simp only [erase_group, group.injEq] at ha hb
              obtain ⟨⟨hga, rfl, hcontents⟩, hns⟩ := ha
              rw [Group.eq_of_erase_eq hab hga hb.1.1, ihcontents hcontents hb.1.2.2, ihns hns hb.2]
          | rule r span' head body => simp at ha
  | rule r span head body ns ihhead ihbody ihns =>
      cases ms with
      | nil => cases ha
      | cons m ms =>
          rw [List.map_cons, List.map_cons, List.cons.injEq] at ha hb
          cases m with
          | leaf l' span' => simp at ha
          | group g' span' contents' => simp at ha
          | rule r' span' head' body' =>
              simp only [erase_rule, rule.injEq] at ha hb
              obtain ⟨⟨hra, rfl, hheada, hbodya⟩, hns⟩ := ha
              obtain ⟨⟨hrb, -, hheadb, hbodyb⟩, hnsb⟩ := hb
              have hhead : head.toList = head'.toList :=
                ihhead (by rw [← Option.toList_map, hheada, Option.toList_map])
                  (by rw [← Option.toList_map, hheadb, Option.toList_map])
              rw [Rule.eq_of_erase_eq hab hra hrb, head_eq_of_toList_eq hhead,
                ihbody hbodya hbodyb, ihns hns hnsb]

/-- **Two erasures.** A document is known from what remains of it after two different erasures. -/
theorem Document.eq_of_erase_eq {d d' : Document} (ha : d.erase a = d'.erase a)
    (hb : d.erase b = d'.erase b) : d = d' := by
  rw [erase, erase, mk.injEq] at ha hb
  obtain ⟨htitle, hcontents, hspan⟩ := ha
  cases d
  cases d'
  cases htitle
  cases hspan
  rw [mk.injEq]
  exact ⟨rfl, Node.eq_of_map_erase_eq hab hcontents hb.2.1, rfl⟩

end TwoErasures

end SpecDoc
