import Manuscript.Document.Parser
import Manuscript.Footnotes
import Manuscript.Html.Body
import Manuscript.Html.Sanitize
import Manuscript.Inclusion.Expand
import Manuscript.References
import Manuscript.Source.Tokens

/-!
The conversion of a manuscript: its inclusions are expanded, tokens take the place of opaque spans, a structural
parser makes a document of it, the document is numbered and its references are resolved, footnotes are placed,
and in the HTML that is written in the end the spans take the place of their tokens.
-/

namespace Manuscript

/-- How manuscripts are converted. -/
structure Conversion where
  format : Format
  /-- Sections are the top level, and chapters are not numbered. -/
  isArticle : Bool
  footnotes : FootnoteStyle
  /-- The HTML is cleaned by the allow-list. -/
  isSanitized : Bool
  words : Words
  highlighter : Highlighter
  parser : StructuralParser
  /-- What makes the tokens of a run its own. -/
  salt : Text

/-- Where conversions find files and keep results. -/
structure Workspace where
  sources : Inclusion.Sources
  store : Highlight.Store

/-- What a manuscript has been converted into. -/
structure Converted where
  body : Text
  /-- The outline in HTML; there is none in markup. -/
  outline : Option Text
  warnings : List Warning

/-- Why a manuscript is not converted. -/
inductive ConversionError where
  | source (error : Source.Error)
  | parser (error : ParserError)

/-- The wording of a conversion error. -/
def ConversionError.message : ConversionError → Text
  | .source error => error.message
  | .parser error => error.message

namespace Conversion

/-- The HTML of a document and of its outline, with the spans in place of their tokens. -/
def write (c : Conversion) (cache : Cache) (d : Document) : Converted :=
  let (d, labels, repeated) := d.number cache c.isArticle
  let (d, undefined) := d.resolve labels c.words cache
  let (d, _) := d.placeFootnotes c.footnotes
  let outline := d.outline c.isArticle
  let finish := fun html =>
    let html := cache.restore html .html
    if c.isSanitized then Html.sanitize html else html
  ⟨finish (d.html ⟨c.words, some outline⟩), some (finish outline.html), repeated ++ undefined⟩

/-- What a manuscript with tokens is converted into. -/
def finish (c : Conversion) (cache : Cache) (tokens : Text) : Except ParserError Converted :=
  match c.format with
  | .markup => .ok ⟨cache.restore tokens .markup, none, []⟩
  | .html => (c.parser tokens).map (c.write cache)

/-- Keeps the results of highlighting; a failure is only a warning. -/
def keepResults (w : Workspace) : List Warning × Workspace :=
  match w.store.flush w.sources.tree with
  | .ok (store, tree) => ([], ⟨{ w.sources with tree }, store⟩)
  | .error e => ([.resultsNotKept e], w)

/-- Converts a manuscript.  What was highlighted before an error stays in the store. -/
def run (c : Conversion) (w : Workspace) (source : Text) : Except ConversionError Converted × Workspace :=
  let (expanded, failures) := Inclusion.expand w.sources.provider source
  let (tokens, gathered) := Source.tokenize c.highlighter c.format ⟨.empty c.salt, w.store⟩ expanded
  let w := { w with store := gathered.store }
  match tokens with
  | .error e => (.error (.source e), w)
  | .ok tokens =>
    match c.finish gathered.cache tokens with
    | .error e => (.error (.parser e), w)
    | .ok converted =>
      let (unkept, w) := keepResults w
      (.ok { converted with warnings := failures ++ converted.warnings ++ unkept }, w)

end Conversion

end Manuscript
