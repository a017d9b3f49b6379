import SpecDoc.Outline
import SpecDoc.Proofs.Bare.Stages
import SpecDoc.Proofs.Compile
import SpecDoc.Proofs.Import.Link
import SpecDoc.Proofs.Markup.Pieces
import SpecDoc.Proofs.Text.Lines

/-!
# Documents in several files

A document may be written in one file, or in several files that an index imports. Both ways make the
same document, up to the places that its nodes have, and the same biblio.

* `IsSplit` says what it means that a document is written in both ways;
* `SetOut.bare_of_parse`: what the index and the whole document are read as;
* `IsSplit.bare_eq_of_expands`: they are the same when the imports are expanded;
* `bare_eq_of_isSplit`: what is compiled from them is the same.
-/

namespace SpecDoc

open Markup Text

/-! ## Two ways to write a document -/

/-- A part of a document: the label and the name of the file in the link to it, and the source in
this file. -/
structure Part where
  label : List Char
  name : List Char
  source : String

namespace Part

/-- The line of the index that imports a part. -/
def importLines (p : Part) : List (List Char) := [importHeading p.label p.name]

/-- The lines of a part itself. -/
def lines (p : Part) : List (List Char) := Text.lines p.source.toList

/-- Whether the first line of a part that is not blank is a heading with one number sign. -/
def StartsSection (p : Part) : Prop :=
  ∃ line text, (p.lines.find? fun l => !allBlank l) = some line ∧ heading? line = some (1, text)

/-- The node for the import of a part, without its place. -/
def importNode (p : Part) : Node := .leaf (.importLink (String.ofList p.name)) (some .origin)

end Part

/-- `SetOut f parts ls`: the lines `ls` are the lines `f` of the parts, one part after the other,
with blank lines in any places between them. -/
inductive SetOut (f : Part → List (List Char)) : List Part → List (List Char) → Prop where
  | nil : SetOut f [] []
  | blank {parts : List Part} {line : List Char} {ls : List (List Char)}
      (hline : allBlank line = true) (h : SetOut f parts ls) : SetOut f parts (line :: ls)
  | part {parts : List Part} {ls : List (List Char)} (p : Part) (h : SetOut f parts ls) :
      SetOut f (p :: parts) (f p ++ ls)

/-- Lines that are those of the parts, each with a line feed behind it, are set out, as long as no
part ends with a carriage return, which would become part of the line break. -/
theorem SetOut.of_flatMap {f : Part → List (List Char)} {g : Part → List Char} {parts : List Part}
    (hlines : ∀ p ∈ parts, f p = Text.lines (g p))
    (hreturn : ∀ p ∈ parts, (g p).getLast? ≠ some '\r') :
    SetOut f parts (Text.lines (parts.flatMap fun p => g p ++ ['\n'])) := by
  induction parts with
  | nil => exact .nil
  | cons p parts ih =>
      rw [List.forall_mem_cons] at hlines hreturn
      have h := ih hlines.2 hreturn.2
      rw [List.flatMap_cons, List.append_assoc, List.singleton_append]
      rcases lines_append hreturn.1 (parts.flatMap fun p => g p ++ ['\n']) with heq | heq
      · rw [heq, ← hlines.1]
        exact .part p h
      · rw [heq, ← hlines.1]
        exact .part p (.blank rfl h)

/-- A document with a title line and parts, written in two ways. In the library `lib` the file at
`path` is an index: below the title it imports the parts, which have files of their own with plain
names next to it. In the library `whole` the file at `path'` in the same directory has the parts
themselves below the title, each on lines of its own. Any other file that can be read in both
libraries is the same. -/
structure IsSplit (lib whole : Library) (path path' : Path) (title : List Char)
    (parts : List Part) : Prop where
  heading : ∃ text, heading? title = some (1, text)
  index : ∃ source ls, lib.read path = .ok source ∧ lines source.toList = title :: ls ∧
    SetOut Part.importLines parts ls
  single : ∃ source ls, whole.read path' = .ok source ∧ lines source.toList = title :: ls ∧
    SetOut Part.lines parts ls
  directory : path.parent = path'.parent
  names : ∀ p ∈ parts, isPlainName p.name = true
  files : ∀ p ∈ parts, lib.read (path.sibling (String.ofList p.name)) = .ok p.source
  starts : ∀ p ∈ parts, p.StartsSection
  others : ∀ q, q.IsNormal → q ≠ path → q ≠ path' → ∀ source source',
    lib.read q = .ok source → whole.read q = .ok source' → source = source'

/-! ## Pieces -/

/-- Lines that start a section and can stand in a file of their own, with the tree that they are
read as there. -/
structure IsPiece (ls : List (List Char)) (ns : List Node) : Prop where
  ne_nil : ls ≠ []
  boundary : StartsAtBoundary ls
  starts : Nesting.StartsSection (bareItems ls)
  tree : ∃ s, Nesting.PlacedAll .imported .empty (bareItems ls) s ∧ s.finish = ns

/-- A part that starts a section has a first line, and this line is a boundary. -/
theorem Part.StartsSection.blocks {p : Part} (h : p.StartsSection) :
    p.lines ≠ [] ∧ StartsAtBoundary p.lines ∧ Nesting.StartsSection (bareItems p.lines) := by
  obtain ⟨line, text, hfind, hheading⟩ := h
  generalize p.lines = ls at hfind ⊢
  have hboundary : StartsAtBoundary ls := by
    cases ls with
    | nil => simp [StartsAtBoundary]
    | cons l ls =>
        rintro _ ⟨⟩
        rw [List.find?_cons] at hfind
        split at hfind
        · cases hfind
          rw [isBoundary, hheading]
          simp
        · next hblank =>
          rw [Bool.not_eq_eq_eq_not, Bool.not_false] at hblank
          rw [isBoundary, hblank, Bool.true_or]
  refine ⟨?_, hboundary, ?_⟩
  · rintro rfl
    cases hfind
  · clear hboundary
    induction ls with
    | nil => cases hfind
    | cons l ls ih =>
        rw [List.find?_cons] at hfind
        split at hfind
        · next hblank =>
          cases hfind
          rw [Bool.not_eq_eq_eq_not, Bool.not_true] at hblank
          have hcontent : ∀ tail, blockContent none 1 line tail = .heading 1 text := by
            intro tail
            rw [blockContent, hheading]
          rw [bareItems_cons_of_not_allBlank hblank, hcontent]
          exact ⟨_, _, text, rfl, rfl⟩
        · next hblank =>
          rw [Bool.not_eq_eq_eq_not, Bool.not_false] at hblank
          rw [bareItems_cons_of_allBlank hblank]
          exact ih hfind

/-- A part is a piece with the tree of its file. -/
theorem Part.isPiece_lines {p : Part} (h : p.StartsSection) {file : Option String} {d : Document}
    (hparse : Document.parse .imported file p.source = .ok d) :
    IsPiece p.lines (d.contents.map Node.bare) := by
  obtain ⟨hne, hboundary, hsection⟩ := h.blocks
  refine ⟨hne, hboundary, hsection, ?_⟩
  obtain ⟨n, rest, s, htitled, hplaced, hfinish, -⟩ := Document.exists_bare_of_parse hparse
  generalize d.title = title at htitled
  cases htitled
  exact ⟨s, hplaced, hfinish⟩

/-- An import heading is a piece with the import as its tree. -/
theorem Part.isPiece_importLines {p : Part} (h : isPlainName p.name = true) :
    IsPiece p.importLines [p.importNode] where
  ne_nil := List.cons_ne_nil _ _
  boundary := by
    rintro _ ⟨⟩
    rw [isBoundary, heading?_importHeading]
    rfl
  starts := by
    rw [importLines, bareItems_importHeading]
    exact ⟨_, _, linkText p.label p.name, rfl, rfl⟩
  tree := by
    have hplaced : Nesting.Placed .imported .empty
        ⟨1, .origin, .heading 1 (linkText p.label p.name)⟩
        ((Nesting.empty.closed 1).addHeading 1 (linkText p.label p.name) .origin) := by
      refine .heading rfl ?_
      rw [Nesting.closed_empty]
      intro deepest hdeepest
      cases hdeepest
    have hadded : (Nesting.empty.closed 1).addHeading 1 (linkText p.label p.name) .origin
        = Nesting.empty.behind [p.importNode] := by
      rw [Nesting.closed_empty, Nesting.addHeading, importPath?_linkText p.label h]
      rfl
    rw [importLines, bareItems_importHeading]
    refine ⟨_, .cons hplaced (.nil _), ?_⟩
    rw [hadded, Nesting.finish_behind, Nesting.finish_eq, Nesting.closed_empty]
    rfl

/-! ## Documents in pieces -/

/-- The blocks of parts that are set out are those of the parts one by one. -/
theorem SetOut.bareItems {f : Part → List (List Char)} {parts : List Part}
    {ls : List (List Char)} {forests : List (List Node)} (h : SetOut f parts ls)
    (hpieces : List.Forall₂ (fun p ns => IsPiece (f p) ns) parts forests) :
    Markup.bareItems ls = (parts.map fun p => Markup.bareItems (f p)).flatten ∧
      StartsAtBoundary ls := by
  induction h generalizing forests with
  | nil => exact ⟨bareItems_nil, by simp [StartsAtBoundary]⟩
  | blank hline _ ih =>
      obtain ⟨hitems, -⟩ := ih hpieces
      refine ⟨by rw [bareItems_cons_of_allBlank hline, hitems], ?_⟩
      rintro _ ⟨⟩
      rw [isBoundary, hline, Bool.true_or]
  | part p _ ih =>
      cases hpieces with
      | cons hpiece hpieces =>
          obtain ⟨hne, hstarts, -, s, hplaced, -⟩ := hpiece
          obtain ⟨hitems, hboundary⟩ := ih hpieces
          refine ⟨?_, ?_⟩
          · rw [bareItems_append hplaced.content_ne_openFence hboundary, hitems, List.map_cons,
              List.flatten_cons]
          · intro l hl
            rw [List.head?_append_of_ne_nil _ hne] at hl
            exact hstarts l hl

/-- A document that starts with a title line has its title, and its blocks are those of the lines
below. -/
theorem title_of_titled {title text : List Char} {ls rest : List (List Char)} {t : Option String}
    {n : ℕ} (hheading : heading? title = some (1, text))
    (h : Titled .initial (title :: ls) t n rest) : t = some (String.ofList text) ∧ rest = ls := by
  cases h with
  | initial htitle =>
      have hblank : allBlank title = false := by
        have hsome : (heading? title).isSome := by rw [hheading]; rfl
        obtain ⟨r, rfl⟩ := exists_eq_cons_of_heading? hsome
        rfl
      rw [titleLine, if_neg (by simp [hblank]), hheading] at htitle
      split at htitle
      · next heq =>
        cases heq
        split at htitle
        · cases htitle
          exact ⟨rfl, rfl⟩
        · cases htitle
      · cases htitle

/-- Lines that are set out below a title line are read as a document with the title and the trees of
the pieces. -/
theorem SetOut.bare_of_parse {f : Part → List (List Char)} {parts : List Part}
    {ls : List (List Char)} {forests : List (List Node)} (h : SetOut f parts ls)
    (hpieces : List.Forall₂ (fun p ns => IsPiece (f p) ns) parts forests) {title text : List Char}
    (hheading : heading? title = some (1, text)) {file : Option String} {source : String}
    {d : Document} (hlines : lines source.toList = title :: ls)
    (hparse : Document.parse .initial file source = .ok d) :
    d.bare = ⟨some (String.ofList text), forests.flatten, some .origin⟩ := by
  obtain ⟨n, rest, s, htitled, hplaced, hfinish, hspan⟩ := Document.exists_bare_of_parse hparse
  rw [hlines] at htitled hspan
  obtain ⟨htitle, rfl⟩ := title_of_titled hheading htitled
  rw [(h.bareItems hpieces).1] at hplaced
  have hforests : List.Forall₂ (fun is ns => Nesting.StartsSection is ∧
      (∀ item ∈ is, ∀ level text, item.content = .heading level text → 1 ≤ level) ∧
      ∃ t, Nesting.PlacedAll .imported .empty is t ∧ t.finish = ns)
      (parts.map fun p => Markup.bareItems (f p)) forests := by
    refine List.forall₂_map_left_iff.2 (hpieces.imp ?_)
    intro p ns hpiece
    exact ⟨hpiece.starts, fun i hi level text => one_le_of_mem_bareItems hi, hpiece.tree⟩
  have hcontents := Nesting.finish_of_pieces Nesting.sound_empty hforests hplaced
  have hempty : Nesting.empty.finish = [] := by
    rw [Nesting.finish_eq, Nesting.closed_empty]
    rfl
  rw [hfinish, hempty, List.nil_append] at hcontents
  rw [Document.bare, htitle, hcontents, hspan]
  rfl

/-! ## Resolved documents -/

/-- The imports of an index expand to what the contents of their files expand to, seen from any file
in the directory of these. -/
theorem expands_importNodes {load : Path → Document → Prop} {path path' : Path}
    {Q : Part → List Node → Prop} {parts : List Part} {ns : List Node}
    (hdirectory : ∀ p ∈ parts,
      (importTarget path (String.ofList p.name)).parent = path'.parent)
    (hload : ∀ p ∈ parts, ∀ d, load (importTarget path (String.ofList p.name)) d → Q p d.contents)
    (h : Expands load path (parts.map Part.importNode) ns) :
    ∃ forests, List.Forall₂ Q parts forests ∧ Expands load path' forests.flatten ns := by
  induction parts generalizing ns with
  | nil =>
      cases h
      exact ⟨[], .nil, .nil path'⟩
  | cons p parts ih =>
      rw [List.forall_mem_cons] at hdirectory hload
      cases h with
      | leaf hl _ => exact absurd rfl (hl _)
      | @importLink _ _ _ d _ _ _ hd hcontents hns =>
          obtain ⟨forests, hforests, hexpands⟩ := ih hdirectory.2 hload.2 hns
          exact ⟨d.contents :: forests, .cons (hload.1 d hd) hforests,
            (hcontents.relocate hdirectory.1).append hexpands⟩

namespace IsSplit

variable {lib whole : Library} {path path' : Path} {title : List Char} {parts : List Part}

/-- Below the two entries the same documents are read, if any. -/
theorem loads_unique (h : IsSplit lib whole path path' title parts) {q : Path}
    (hq : q.IsNormal) {d d' : Document} (hd : lib.LoadsBelow path q d)
    (hd' : whole.LoadsBelow path' q d') : d = d' := by
  obtain ⟨hne, source, hread, hparse⟩ := hd
  obtain ⟨hne', source', hread', hparse'⟩ := hd'
  obtain rfl := h.others q hq hne hne' source source' hread hread'
  rw [hparse, Except.ok.injEq] at hparse'
  exact hparse'

/-- What the index and the whole document expand to is the same. -/
theorem bare_eq_of_expands (h : IsSplit lib whole path path' title parts) (hpath : path.IsNormal)
    {d d' : Document} (hd : Expands.File (lib.Loads .initial) (lib.LoadsBelow path) path d)
    (hd' : Expands.File (whole.Loads .initial) (whole.LoadsBelow path') path' d') :
    d.bare = d'.bare := by
  obtain ⟨d₀, ⟨source₀, hread₀, hparse₀⟩, hexpands₀, htitle₀, hspan₀⟩ := hd
  obtain ⟨d₁, ⟨source₁, hread₁, hparse₁⟩, hexpands₁, htitle₁, hspan₁⟩ := hd'
  obtain ⟨text, hheading⟩ := h.heading
  obtain ⟨source, ls, hread, hlines, hset⟩ := h.index
  obtain ⟨source', ls', hread', hlines', hset'⟩ := h.single
  rw [hread, Except.ok.injEq] at hread₀
  rw [hread', Except.ok.injEq] at hread₁
  subst hread₀ hread₁
  have htarget : ∀ p ∈ parts, importTarget path (String.ofList p.name)
      = path.sibling (String.ofList p.name) :=
    fun p hp => importTarget_of_isPlainName (h.names p hp) hpath
  have hdirectory : ∀ p ∈ parts,
      (importTarget path (String.ofList p.name)).parent = path'.parent := by
    intro p hp
    rw [htarget p hp, Path.parent_sibling, h.directory]
  have hpieces : ∀ p ∈ parts, ∀ d,
      (∃ e, lib.LoadsBelow path (importTarget path (String.ofList p.name)) e ∧ e.bare = d) →
        IsPiece p.lines d.contents := by
    rintro p hp _ ⟨e, ⟨-, source, hread, hparse⟩, rfl⟩
    rw [htarget p hp, h.files p hp, Except.ok.injEq] at hread
    subst hread
    exact Part.isPiece_lines (h.starts p hp) hparse
  have hload : ∀ p raw d d', (∃ e, lib.LoadsBelow path (importTarget p raw) e ∧ e.bare = d) →
      (∃ e, whole.LoadsBelow path' (importTarget p raw) e ∧ e.bare = d') → d = d' := by
    rintro p raw _ _ ⟨e, he, rfl⟩ ⟨e', he', rfl⟩
    rw [h.loads_unique (Library.isNormal_importTarget p raw) he he']
  -- The index is read as the imports of the parts, whose files are pieces of a document.
  have himports : List.Forall₂ (fun p ns => IsPiece p.importLines ns) parts
      (parts.map fun p => [p.importNode]) :=
    List.forall₂_map_right_iff.2
      (List.forall₂_same.2 fun p hp => Part.isPiece_importLines (h.names p hp))
  have hindex := hset.bare_of_parse himports hheading hlines hparse₀
  rw [Document.bare, Document.mk.injEq] at hindex
  obtain ⟨hindexTitle, hindexContents, hindexSpan⟩ := hindex
  have hbare₀ := hexpands₀.bare
  rw [hindexContents, ← List.flatMap_def, ← List.map_eq_flatMap] at hbare₀
  obtain ⟨forests, hforests, hexpands⟩ := expands_importNodes hdirectory hpieces hbare₀
  -- The whole document is read as these pieces, and they expand in the same way.
  have hwhole := hset'.bare_of_parse hforests hheading hlines' hparse₁
  rw [Document.bare, Document.mk.injEq] at hwhole
  obtain ⟨hwholeTitle, hwholeContents, hwholeSpan⟩ := hwhole
  have hbare₁ := hexpands₁.bare
  rw [hwholeContents] at hbare₁
  rw [Document.bare, Document.bare, hexpands.unique hload hbare₁, htitle₀, htitle₁, hspan₀, hspan₁,
    hindexTitle, hwholeTitle, hindexSpan, hwholeSpan]

end IsSplit

/-! ## Compiled documents -/

/-- **Splitting a document.** If a document is compiled from an index of its parts and from a single
file with all parts, the results are equal but for their spans, and so are the biblios. -/
theorem bare_eq_of_isSplit {lib whole : Library} {o : CompileOptions} {entry entry' : String}
    {title : List Char} {parts : List Part} {a a' : Annotated}
    (hsplit : IsSplit lib whole (Path.ofString entry).normalize (Path.ofString entry').normalize
      title parts)
    (h : (compile lib o entry).run = some (.ok a))
    (h' : (compile whole o entry').run = some (.ok a')) :
    a.document.bare = a'.document.bare ∧ a.biblio = a'.biblio := by
  obtain ⟨d, d₁, reads, hresolve, hnumber, hanchors⟩ := exists_of_run_eq_ok h
  obtain ⟨d', d₁', reads', hresolve', hnumber', hanchors'⟩ := exists_of_run_eq_ok h'
  have hresolved : d.bare = d'.bare :=
    hsplit.bare_eq_of_expands (Path.isNormal_normalize _) (Library.expands_of_resolve hresolve)
      (Library.expands_of_resolve hresolve')
  have hnumbered : d₁.bare = d₁'.bare := bare_eq_of_numberSections hresolved hnumber hnumber'
  exact bare_eq_of_assignAnchors? (bare_numberExamples hnumbered) hanchors hanchors'

/-- The parts of a short document. -/
def toolParts : List Part :=
  [⟨"Scope".toList, "scope.md".toList, "# Scope\n\n**Aim**\n\nNote: Short."⟩,
    ⟨"Syntax".toList, "syntax.md".toList, "# Syntax\n\n## [Terms](terms/index.md)\n\nName : A\n"⟩]

/-- The file that both ways to write this document import. -/
def toolTerms : String × Except ReadFailure String :=
  ("spec/terms/index.md", .ok "## Terms\n\n:: A *name* is a word.\n")

/-- The document in several files. -/
def toolLibrary : Library :=
  .ofFiles [("spec/index.md", .ok "# Tool\n# [Scope](scope.md)\n# [Syntax](syntax.md)\n"),
    ("spec/scope.md", .ok "# Scope\n\n**Aim**\n\nNote: Short."),
    ("spec/syntax.md", .ok "# Syntax\n\n## [Terms](terms/index.md)\n\nName : A\n"), toolTerms]

/-- The document with its parts in one file. -/
def toolWhole : Library :=
  .ofFiles [("spec/index.md", .ok (String.ofList ("# Tool".toList ++ '\n' ::
    toolParts.flatMap fun p => p.source.toList ++ ['\n']))), toolTerms]

/-- The several files and the single one are two ways to write one document. -/
theorem isSplit_tool :
    IsSplit toolLibrary toolWhole (Path.ofString "spec/index.md").normalize
      (Path.ofString "spec/index.md").normalize "# Tool".toList toolParts where
  heading := ⟨_, rfl⟩
  index := ⟨_, _, rfl, by decide +kernel,
    .of_flatMap (g := fun p => importHeading p.label p.name) (by decide) (by decide)⟩
  single := ⟨_, _, rfl, by decide +kernel,
    .of_flatMap (g := fun p => p.source.toList) (fun p _ => rfl) (by decide)⟩
  directory := rfl
  names := by decide
  files := by decide +kernel
  starts := by
    intro p hp
    rw [toolParts, List.mem_cons, List.mem_singleton] at hp
    rcases hp with rfl | rfl
    · exact ⟨_, _, rfl, rfl⟩
    · exact ⟨_, _, rfl, rfl⟩
  others := by
    intro q hq hne _ source source' h h'
    obtain ⟨f, hf, hpath, hsource⟩ := Library.exists_of_read_ofFiles hq h
    obtain ⟨f', hf', hpath', hsource'⟩ := Library.exists_of_read_ofFiles hq h'
    simp only [List.mem_cons, List.not_mem_nil, or_false] at hf hf'
    rcases hf' with rfl | rfl
    · exact absurd hpath'.symm hne
    · rcases hf with rfl | rfl | rfl | rfl
      · exact absurd (hpath.trans hpath'.symm) (by decide +kernel)
      · exact absurd (hpath.trans hpath'.symm) (by decide +kernel)
      · exact absurd (hpath.trans hpath'.symm) (by decide +kernel)
      · rw [hsource, Except.ok.injEq] at hsource'
        exact hsource'

/-- The lines of the outline of the short document. -/
def toolOutline : List String :=
  ["Document \"Tool\"",
    "  Section 1 \"Scope\" #sec-Scope",
    "    Subsection \"Aim\" #sec-Scope.Aim",
    "      Note #note-c9145",
    "        Paragraph",
    "  Section 2 \"Syntax\" #sec-Syntax",
    "    Section 2.1 \"Terms\" #sec-Terms",
    "      DefinitionParagraph",
    "        DefinitionTerm \"name\" #def-name",
    "    Production \"Name\" #Name"]

/-- Both ways are compiled, to the same document with these titles and ids. -/
theorem bare_eq_of_isSplit_tool :
    ∃ a a', (compile toolLibrary .standard "spec/index.md").run = some (.ok a) ∧
      (compile toolWhole .standard "spec/index.md").run = some (.ok a') ∧
      a.document.outline = String.join (toolOutline.map fun line => line ++ "\n") ∧
      a.document.bare = a'.document.bare ∧ a.biblio = a'.biblio := by
  have houtline : (compile toolLibrary .standard "spec/index.md").run.map
        (fun r => r.toOption.map fun a => a.document.outline)
      = some (some (String.join (toolOutline.map fun line => line ++ "\n"))) := by
    decide +kernel
  have hsucceeds' : (compile toolWhole .standard "spec/index.md").run.map Except.toBool
      = some true := by
    decide +kernel
  obtain ⟨r, hrun, hr⟩ := Option.map_eq_some_iff.1 houtline
  obtain ⟨r', hrun', hr'⟩ := Option.map_eq_some_iff.1 hsucceeds'
  cases r with
  | error e => cases hr
  | ok a =>
      cases r' with
      | error e => cases hr'
      | ok a' =>
          exact ⟨a, a', hrun, hrun', Option.some.inj hr, bare_eq_of_isSplit isSplit_tool hrun hrun'⟩

end SpecDoc
