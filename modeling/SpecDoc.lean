import SpecDoc.Text.Blank
import SpecDoc.Text.Case
import SpecDoc.Text.Line
import SpecDoc.Text.Slug
import SpecDoc.Text.Percent
import SpecDoc.Text.Sha256
import SpecDoc.Text.Word
import SpecDoc.Path
import SpecDoc.Span
import SpecDoc.Table
import SpecDoc.Json.Reader
import SpecDoc.Node
import SpecDoc.Node.PlainText
import SpecDoc.Snapshot
import SpecDoc.Outline
import SpecDoc.Biblio
import SpecDoc.Error
import SpecDoc.Markup.LineForm
import SpecDoc.Markup.Inline
import SpecDoc.Markup
import SpecDoc.Annotation
import SpecDoc.Compile
import SpecDoc.Import.Disk
import SpecDoc.Traversal.Script
import SpecDoc.Load
import SpecDoc.Build
import SpecDoc.Settings
import SpecDoc.Command
import SpecDoc.Main
import SpecDoc.Proofs.Traversal.Brackets
import SpecDoc.Proofs.SectionId.Letters
import SpecDoc.Proofs.SectionId.Order
import SpecDoc.Proofs.Numbering
import SpecDoc.Proofs.Numbering.Pinned
import SpecDoc.Proofs.Anchors.Search
import SpecDoc.Proofs.Anchors.Registered
import SpecDoc.Proofs.Anchors.Digests
import SpecDoc.Proofs.Path
import SpecDoc.Proofs.Forest
import SpecDoc.Proofs.Markup.Nesting
import SpecDoc.Proofs.Markup.AsRead
import SpecDoc.Proofs.Import.Expansion
import SpecDoc.Proofs.Import.Resolution
import SpecDoc.Proofs.Import.Graph
import SpecDoc.Proofs.Compile
import SpecDoc.Proofs.Annotated
import SpecDoc.Proofs.Bare
import SpecDoc.Proofs.Markup.Blocks
import SpecDoc.Proofs.Markup.Pieces
import SpecDoc.Proofs.Bare.Stages
import SpecDoc.Proofs.Import.Link
import SpecDoc.Proofs.Split
import SpecDoc.Proofs.Text.Lines
import SpecDoc.Proofs.Import.Cancellation
import SpecDoc.Proofs.Markup.Extent
import SpecDoc.Proofs.Markup.Levels
import SpecDoc.Proofs.Import.Trail
import SpecDoc.Proofs.Erasure.Stages
import SpecDoc.Proofs.Anchors.Sections
import SpecDoc.Proofs.Traversal.Halt
import SpecDoc.Proofs.Traversal.Coverage
import SpecDoc.Proofs.Text.Margins
import SpecDoc.Proofs.Reindent.Alike
import SpecDoc.Proofs.Reindent.Lines
import SpecDoc.Proofs.Reindent.Reading
import SpecDoc.Proofs.Reindent.Stages
import SpecDoc.Proofs.Reindent
import SpecDoc.Proofs.Spans
import SpecDoc.Proofs.Markup.Moved
import SpecDoc.Proofs.Path.Under
import SpecDoc.Proofs.Import.Splice
import SpecDoc.Proofs.Import.Calls
import SpecDoc.Proofs.Import.Schedule
import SpecDoc.Proofs.Import.Moved
import SpecDoc.Proofs.Import.Substitution
import SpecDoc.Proofs.Traversal.Splicer
import SpecDoc.Proofs.Traversal.Editor
import SpecDoc.Proofs.Anchors.Hashed
import SpecDoc.Proofs.Markup.Written
import SpecDoc.Proofs.Sweep.Stops
import SpecDoc.Proofs.Numbering.Entries
import SpecDoc.Proofs.Numbering.Accepted
import SpecDoc.Proofs.Numbering.Override
import SpecDoc.Proofs.Numbering.Refused
import SpecDoc.Proofs.SectionId.Counting
import SpecDoc.Proofs.Anchors.Terms
import SpecDoc.Proofs.Path.Spelling
import SpecDoc.Proofs.Markup.Faults
import SpecDoc.Proofs.Numbering.Examples
import SpecDoc.Proofs.Anchors.Subsections
import SpecDoc.Proofs.Json
import SpecDoc.Proofs.Markup.Throughout
import SpecDoc.Proofs.Snapshot
import SpecDoc.Proofs.Markup.OneLine
import SpecDoc.Proofs.Outline.Fits
import SpecDoc.Proofs.Outline.Compiled
import SpecDoc.Proofs.Outline.Lines
import SpecDoc.Proofs.Excerpt
import SpecDoc.Proofs.Markup.Lookahead
import SpecDoc.Proofs.Import.Heading
import SpecDoc.Proofs.Anchors.Shared
import SpecDoc.Proofs.Text.Normalized
import SpecDoc.Proofs.Settings.Keys
import SpecDoc.Proofs.Settings.Reading
import SpecDoc.Proofs.Settings.Precedence
import SpecDoc.Proofs.Command
