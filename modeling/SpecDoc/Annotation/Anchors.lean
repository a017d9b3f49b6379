import SpecDoc.Annotation.ContentHash
import SpecDoc.Annotation.Sweep
import SpecDoc.Biblio
import SpecDoc.Node.Descendants
import SpecDoc.Node.PlainText
import SpecDoc.Text.Slug

/-!
# Anchors

Every section, subsection, algorithm, production, defined term, note and example gets an anchor, and
every anchor is registered in the biblio.

* A section is known by its slug, behind the name of the section around it if other sections have the
  same slug; a subsection is known by its slug behind the name of its section.
* An algorithm or production is known by its name, and several of one name share an anchor.
* A term that is already taken gets the first free number from two.
* An example or note is known by the start of its content hash, as much as is needed to tell it apart.

The search for a free hash might go around in a circle of digests, and the numbers for a term might run
out, since they are counted in 32 bits and the count is checked for overflow. Then there are no anchors
for the document, and `assignAnchors?` is `none`.
-/

namespace SpecDoc

open Text

/-- How anchors are formed: what is put before the names of sections, and how many digits of a content
hash there are at least. -/
structure AnchorOptions where
  sectionPrefix : String
  minHashLength : Nat
deriving DecidableEq

namespace AnchorOptions

/-- The options that hold if no others are given. -/
def standard : AnchorOptions := ⟨"sec-", 5⟩

/-- The number of digits that are tried first, at least one and at most all. -/
def firstLength (o : AnchorOptions) : Nat := max 1 (min o.minHashLength ContentHash.digestLength)

end AnchorOptions

/-- The slugs of the sections of a document, in order. -/
def sectionSlugs (d : Document) : List String :=
  d.descendants.filterMap fun
    | .group (.numberedSection s) _ _ => some (slug s.title)
    | _ => none

/-- The state of the anchors at a place of the document: what is registered, the names of the sections
around the place, the innermost first, and the digests that were given away. -/
structure AnchorState where
  biblio : Biblio
  around : List String
  usedDigests : List String

namespace AnchorState

/-- The state with an anchor registered, unless it already is. -/
def register (s : AnchorState) (id : String) : AnchorState :=
  { s with biblio := s.biblio.register id }

/-! ## Terms -/

/-- The largest number of the counter for terms, which is signed and has 32 bits. -/
def maxSuffix : Nat := 0x7FFFFFFF

/-- The first anchor among `base-k`, `base-(k+1)`, … that is not taken. The counter is one ahead of the
number that is tried: it can be counted on `left` times. Where it would overflow, the check for that
breaks the search off, which is `none`. -/
def freeNumbered? (b : Biblio) (base : String) (k : Nat) : Nat → Option String
  | 0 => none
  | left + 1 =>
    let id := base ++ "-" ++ Nat.repr k
    if b.contains id then freeNumbered? b base (k + 1) left else some id

/-- The anchor of a term: its slug, with a number from two on if that is taken. -/
def termAnchor? (b : Biblio) (term : String) : Option String :=
  let base := "def-" ++ slug term
  if b.contains base then freeNumbered? b base 2 (maxSuffix - 2) else some base

/-! ## Content hashes -/

/-- The first digest that was not given away among a digest, its rehash, the rehash of that, and so on;
`none` if there is none among the first `fuel`. -/
def freshDigest? (used : List String) (normalized : String) : Nat → String → Option String
  | 0, _ => none
  | fuel + 1, digest =>
    if digest ∈ used then freshDigest? used normalized fuel (ContentHash.rehash digest normalized)
    else some digest

/-- The anchor made of the first `length` digits of a digest. -/
def hashAnchor (lead digest : String) (length : Nat) : String :=
  slug (lead ++ String.ofList (digest.toList.take length))

/-- The first anchor that is not taken among those made of `length`, `length + 1`, … digits, `count` of
them. -/
def firstFree? (b : Biblio) (lead digest : String) (length : Nat) : Nat → Option String
  | 0 => none
  | count + 1 =>
    let id := hashAnchor lead digest length
    if b.contains id then firstFree? b lead digest (length + 1) count else some id

/-- The anchor of hashed content, starting from its digest. A digest all of whose anchors are taken is
given away without use, and the search goes on with the next one. -/
def hashedAnchor? (length : Nat) (lead normalized : String) :
    Nat → String → AnchorState → Option (String × AnchorState)
  | 0, _, _ => none
  | fuel + 1, digest, s =>
    match freshDigest? s.usedDigests normalized (s.usedDigests.length + 1) digest with
    | none => none
    | some digest =>
      let s := { s with usedDigests := digest :: s.usedDigests }
      match firstFree? s.biblio lead digest length (ContentHash.digestLength + 1 - length) with
      | some id => some (id, s.register id)
      | none => hashedAnchor? length lead normalized fuel digest s

/-- The anchor of a normalized text. Only a digest with an anchor of full length in the biblio is given
away without use, so one more digest than the biblio has entries is enough. -/
def contentAnchor? (o : AnchorOptions) (lead normalized : String) (s : AnchorState) :
    Option (String × AnchorState) :=
  hashedAnchor? o.firstLength lead normalized (s.biblio.size + 1) (ContentHash.digest normalized) s

/-! ## Nodes -/

/-- The name of a section with a slug: behind the name of the section around it if the slug is that of
several sections. -/
def sectionName (slugs : List String) (s : AnchorState) (slug : String) : String :=
  match s.around with
  | [] => slug
  | parent :: _ => if 1 < slugs.count slug then parent ++ "." ++ slug else slug

/-- The name of a subsection with a slug. -/
def subsectionName (s : AnchorState) (slug : String) : String :=
  match s.around with
  | [] => slug
  | parent :: _ => parent ++ "." ++ slug

/-- Anchors a leaf, if it is an example. -/
def anchorLeaf (o : AnchorOptions) (l : Leaf) (s : AnchorState) : Except Unit (Leaf × AnchorState) :=
  match l with
  | .code c =>
    if c.isExample then
      match contentAnchor? o "example-" (ContentHash.normalizeCode c.text) s with
      | none => .error ()
      | some (id, s) => .ok (.code { c with id := some id }, s)
    else .ok (.code c, s)
  | l => .ok (l, s)

/-- Anchors a group. -/
def anchorGroup (o : AnchorOptions) (slugs : List String) (g : Group) (_ : Option Span)
    (contents : List Node) (s : AnchorState) : Except Unit (Group × AnchorState) :=
  match g with
  | .numberedSection sec =>
    let name := s.sectionName slugs (slug sec.title)
    let id := o.sectionPrefix ++ name
    .ok (.numberedSection { sec with id := some id },
      { s.register id with around := name :: s.around })
  | .subsection sub =>
    let id := o.sectionPrefix ++ s.subsectionName (slug sub.title)
    .ok (.subsection { sub with id := some id }, s.register id)
  | .definitionTerm name _ =>
    match termAnchor? s.biblio (if name.isEmpty then Node.plainText contents else name) with
    | none => .error ()
    | some id => .ok (.definitionTerm name (some id), s.register id)
  | .note _ =>
    match contentAnchor? o "note-" (ContentHash.normalizeProse (Node.plainText contents)) s with
    | none => .error ()
    | some (id, s) => .ok (.note (some id), s)
  | g => .ok (g, s)

/-- Leaves a section where it ends. -/
def endGroup (g : Group) (s : AnchorState) : AnchorState :=
  match g with
  | .numberedSection _ => { s with around := s.around.tail }
  | _ => s

/-- Anchors a rule, if its head gives it a name. -/
def anchorRule (r : Rule) (head : Option Node) (s : AnchorState) :
    Except Unit (Rule × AnchorState) :=
  match r.name? head with
  | none => .ok (r, s)
  | some name =>
    match r with
    | .algorithm _ =>
      let id := slug name ++ "()"
      .ok (.algorithm (some id), s.register id)
    | .production defType _ =>
      let id := slug name
      .ok (.production defType (some id), s.register id)
    | .oneOfProduction defType _ =>
      let id := slug name
      .ok (.oneOfProduction defType (some id), s.register id)

/-- The sweep that assigns anchors in a document whose sections have the given slugs. It refuses a node
for which the search for a free hash does not end, or the numbers run out. -/
def sweep (o : AnchorOptions) (slugs : List String) : Sweep AnchorState Unit where
  leaf := anchorLeaf o
  group := anchorGroup o slugs
  endGroup := endGroup
  rule := anchorRule

end AnchorState

/-- Assigns the anchors of a document and registers them. -/
def assignAnchors? (o : AnchorOptions) (b : Biblio) (d : Document) : Option (Document × Biblio) :=
  match (AnchorState.sweep o (sectionSlugs d)).run d ⟨b, [], []⟩ with
  | .error () => none
  | .ok (d, s) => some (d, s.biblio)

end SpecDoc
