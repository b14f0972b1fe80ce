import Manuscript.Cache
import Manuscript.Highlight.Store
import Manuscript.Source.Inline
import Manuscript.Source.Passage

/-!
A manuscript in which a token stands for every opaque span.  Passage by passage, and item by item within
prose, the spans are cached and their tokens are written where the spans stood.
-/

namespace Manuscript.Source

/-- What is gathered while tokens are written. -/
structure Gathered where
  cache : Cache
  store : Highlight.Store

namespace Gathered

/-- Caches a span. -/
def add (g : Gathered) (kind : SpanKind) (content : Text) : Text × Gathered :=
  let (token, cache) := g.cache.add kind content
  (token, { g with cache })

/-- Caches a span together with the way in which it is delimited. -/
def addDelimited (g : Gathered) (kind : SpanKind) (context content : Text) : Text × Gathered :=
  let (token, cache) := g.cache.addDelimited kind context content
  (token, { g with cache })

/-- Gives labels tokens. -/
def addLabels (g : Gathered) : List Text → List Text × Gathered
  | [] => ([], g)
  | label :: rest =>
    let (token, cache) := g.cache.addLabel label
    let (tokens, g) := addLabels { g with cache } rest
    (token :: tokens, g)

end Gathered

/-- An item of prose with a token for its span. -/
def Item.tokens (g : Gathered) : Item → Text × Gathered
  | .escaped c => (['\\', c], g)
  | .character c => ([c], g)
  | .verb _ delimiter body =>
    let (token, g) := g.add .literal body
    ("\\verb" ++ delimiter :: token ++ [delimiter], g)
  | .math fence body =>
    let (token, g) := g.addDelimited .math fence.context body
    (fence.opening ++ token ++ fence.closing, g)
  | .link command target =>
    let (token, g) := g.add .url target
    (command.opening ++ token ++ "\x7d", g)
  | .beyondAscii first others => g.add .unicode (first :: others)

/-- Items of prose with tokens for their spans. -/
def itemTokens (g : Gathered) : List Item → Text × Gathered
  | [] => ([], g)
  | i :: rest =>
    let (t, g) := i.tokens g
    let (ts, g) := itemTokens g rest
    (t ++ ts, g)

/-- A rendered code block.  Blocks without options are looked up in the store first and kept there. -/
def renderCode (highlighter : Highlighter) (format : Format) (store : Highlight.Store) (body : Text)
    (hint : Hint) : Text × Highlight.Store :=
  if hint.options.isDefault then
    let key := Highlight.Store.key body hint.language format
    match store.get? key with
    | some kept => (kept, store)
    | none =>
      let fresh := highlighter body hint.language format hint.options
      (fresh, store.insert key fresh)
  else (highlighter body hint.language format hint.options, store)

/-- A code block with a token for its rendered form.  In markup the rendered form is an environment of its
own. -/
def codeTokens (highlighter : Highlighter) (format : Format) (g : Gathered) (body : Text)
    (hint : Hint) (isInListing : Bool) : List Text × Gathered :=
  let (rendered, store) := renderCode highlighter format g.store body hint
  let (token, cache) :=
    g.cache.addCode body rendered ⟨hint.language, format, isInListing, hint.options⟩
  let lines : List Text :=
    match format with
    | .markup => [token]
    | .html => ["\\begin\x7bcode\x7d", token, "\\end\x7bcode\x7d"]
  (lines, ⟨cache, store⟩)

/-- A mathematical environment with a token for its body.  A line that only defines a label has a token of its
own after the body. -/
def mathTokens (g : Gathered) (environment first : Text) (body : List Text) (last : Text) :
    List Text × Gathered :=
  let (labels, g) := g.addLabels (body.filterMap loneLabel?)
  let (token, g) :=
    g.addDelimited .math environment (Text.unlines (body.filter fun line => (loneLabel? line).isNone))
  (first :: token :: labels ++ [last], g)

/-- A passage with tokens for its spans. -/
def Passage.tokens (highlighter : Highlighter) (format : Format) (g : Gathered) :
    Passage → List Text × Gathered
  | .hint _ => ([], g)
  | .rawHtml _ html =>
    let (token, g) := g.add .rawHtml html
    ([token], g)
  | .literal first body last =>
    let (token, g) := g.add .literal (Text.unlines body)
    ([first, token, last], g)
  | .code _ body _ a isInListing =>
    codeTokens highlighter format g (Text.unlines body) a isInListing
  | .math environment first body last => mathTokens g environment first body last
  | .comment line => ([line], g)
  | .prose line =>
    let (t, g) := itemTokens g (items line)
    ([t], g)

/-- Passages with tokens for their spans. -/
def passageTokens (highlighter : Highlighter) (format : Format) (g : Gathered) :
    List Passage → List Text × Gathered
  | [] => ([], g)
  | p :: rest =>
    let (lines, g) := p.tokens highlighter format g
    let (more, g) := passageTokens highlighter format g rest
    (lines ++ more, g)

/-- A manuscript with tokens for its spans.  What was gathered before an error is kept. -/
def tokenize (highlighter : Highlighter) (format : Format) (g : Gathered) (source : Text) :
    Except Error Text × Gathered :=
  let (ps, error) := passages .start (source.splitOn '\n')
  let (lines, g) := passageTokens highlighter format g ps
  match error with
  | some e => (.error e, g)
  | none => (.ok (Text.unlines lines), g)

end Manuscript.Source
