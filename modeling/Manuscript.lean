import Manuscript.Main
import Manuscript.Proofs.Cache.Calls
import Manuscript.Proofs.Cache.Meaning
import Manuscript.Proofs.Cache.Restore
import Manuscript.Proofs.Cache.Plain
import Manuscript.Proofs.Source.Calls
import Manuscript.Proofs.Source.RoundTrip
import Manuscript.Proofs.Source.Balance
import Manuscript.Proofs.Document.Forest
import Manuscript.Proofs.Footnotes.Collect
import Manuscript.Proofs.Footnotes.Place
import Manuscript.Proofs.Document.Shape
import Manuscript.Proofs.Footnotes.Parsed
import Manuscript.Proofs.Footnotes.Boundaries
import Manuscript.Proofs.Text.Numeral
import Manuscript.Proofs.Numbering.Positions
import Manuscript.Proofs.Numbering.Visits
import Manuscript.Proofs.Numbering.Chapters
import Manuscript.Proofs.Numbering.Counts
import Manuscript.Proofs.Numbering.Ordinals
import Manuscript.Proofs.Numbering.Anchors
import Manuscript.Proofs.Numbering.Labels
import Manuscript.Proofs.References
import Manuscript.Proofs.Highlight.Runs
import Manuscript.Proofs.Text.Trim
import Manuscript.Proofs.Text.Lines
import Manuscript.Proofs.Text.Utf8
import Manuscript.Proofs.Files
import Manuscript.Proofs.Json.RoundTrip
import Manuscript.Proofs.Source.Reading
import Manuscript.Proofs.Source.Requests
import Manuscript.Proofs.Source.Opacity
import Manuscript.Proofs.Source.Names
import Manuscript.Proofs.Inclusion.Annotation
import Manuscript.Proofs.Inclusion.Capture
import Manuscript.Proofs.Cache.Reading
import Manuscript.Proofs.Highlight.Sharing
import Manuscript.Proofs.LabelNames
import Manuscript.Proofs.Numbering.Carried
import Manuscript.Proofs.Html.Nesting
import Manuscript.Proofs.Html.Locality
import Manuscript.Proofs.Html.Lists
import Manuscript.Proofs.Html.Vocabulary
import Manuscript.Proofs.Html.FootnoteLinks
import Manuscript.Proofs.Highlight.Flushes
import Manuscript.Proofs.Highlight.Spans
import Manuscript.Proofs.Inclusion.Origin
import Manuscript.Proofs.Fixpoint
import Manuscript.Proofs.Cache.WriteOnce
import Manuscript.Proofs.Source.Separation
import Manuscript.Proofs.Source.Shielded
import Manuscript.Proofs.Inclusion.Literal
import Manuscript.Proofs.Cache.Parts
import Manuscript.Proofs.Cache.Erasing
import Manuscript.Proofs.Numbering.Idempotence
import Manuscript.Proofs.Words
import Manuscript.Proofs.Phrases
import Manuscript.Proofs.Highlight.Kept
import Manuscript.Proofs.Salt.Script
import Manuscript.Proofs.Salt.Alike
import Manuscript.Proofs.Salt.Reference
import Manuscript.Proofs.Salt.Xml
import Manuscript.Proofs.Salt.Clear
import Manuscript.Proofs.Salt.Document
import Manuscript.Proofs.Salt.Numbering
import Manuscript.Proofs.Salt.References
import Manuscript.Proofs.Salt.Footnotes
import Manuscript.Proofs.Salt.Html
import Manuscript.Proofs.Salt.Tokens
import Manuscript.Proofs.Salt.Runs
import Manuscript.Proofs.Footnotes.Spacing
import Manuscript.Proofs.Highlight.Rows
import Manuscript.Proofs.Highlight.Bodies
import Manuscript.Proofs.Cache.Revealed
import Manuscript.Proofs.Footnotes.Sentences
import Manuscript.Proofs.Footnotes.Veiled
import Manuscript.Proofs.Inclusion.Replacement
import Manuscript.Proofs.Inclusion.Printed
import Manuscript.Proofs.Cache.Labels
import Manuscript.Proofs.Document.Mapped
import Manuscript.Proofs.Inclusion.Ranges
import Manuscript.Proofs.Inclusion.Parts
import Manuscript.Proofs.PhraseStarts
import Manuscript.Proofs.Source.Fences
