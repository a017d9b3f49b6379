import SpecDoc.Json
import SpecDoc.Table

/-!
# The table of anchors

A biblio maps every anchor to where it leads: an anchor of the document to itself behind a number sign,
an anchor of another document to a URL. The first to register an anchor keeps it.

* `Biblio.seeded` starts a biblio from the anchors of other documents;
* `Biblio.register?` adds an anchor of the document unless it is taken.
-/

namespace SpecDoc

/-- For each site its anchors, and for each of them what follows the site in its URL. -/
abbrev ExternalAnchors := Table (Table String)

/-- The table of anchors: each anchor with the URL it leads to. -/
abbrev Biblio := Table String

namespace Biblio

/-- The anchors of one site with their URLs. -/
def siteEntries (site : String) (anchors : Table String) : List (String × String) :=
  anchors.entries.map fun e => (e.1, site ++ e.2)

/-- The anchors of other documents. Of two sites with the same anchor the later one counts. -/
def seeded (external : ExternalAnchors) : Biblio :=
  Table.ofList (external.entries.flatMap fun s => siteEntries s.1 s.2)

/-- The URL of an anchor of the document itself. -/
def localUrl (id : String) : String := "#" ++ id

/-- Adds an anchor of the document; `none` if it is taken. -/
def register? (b : Biblio) (id : String) : Option Biblio :=
  if b.contains id then none else some (b.insert id (localUrl id))

/-- Adds an anchor of the document, or leaves the one that is there. -/
def register (b : Biblio) (id : String) : Biblio := (b.register? id).getD b

/-- Whether an anchor leads out of the document. -/
def isExternal (b : Biblio) (id : String) : Bool :=
  (b.find? id).any fun url => url.toList.head? != some '#'

/-- The biblio as a JSON object. -/
def toJson (b : Biblio) : Json := .object (b.entries.map fun e => (e.1, .string e.2))

end Biblio

end SpecDoc
