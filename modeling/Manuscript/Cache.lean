import Manuscript.Digest
import Manuscript.Highlight.Block

/-!
Opaque spans of a manuscript and the tokens that stand for them.  A token is the digest of a salt and of all
that the span is cached for, so that it is plain ASCII and occurs nowhere else.  Labels found inside
mathematics have tokens of their own in a table of their own.
-/

namespace Manuscript

/-- What a cached span is. -/
inductive SpanKind where
  | literal
  | code
  | math
  | unicode
  | url
  | rawHtml
  deriving DecidableEq

/-- The word for a kind of span in digests. -/
def SpanKind.name : SpanKind → Text
  | .literal => "literal"
  | .code => "code"
  | .math => "math"
  | .unicode => "unicode"
  | .url => "url"
  | .rawHtml => "raw_html"

/-- All that the rendering of a code block depends on, besides its code. -/
structure CodeKey where
  language : Text
  format : Format
  /-- The block stands inside a `codelisting` environment. -/
  isInListing : Bool
  options : Highlight.Options

/-- What a token can stand for. -/
inductive Cacheable where
  | span (kind : SpanKind) (content : Text)
  /-- A span together with the way in which it is delimited: `inline`, `display` or an environment. -/
  | delimited (kind : SpanKind) (context content : Text)
  | code (source : Text) (key : CodeKey)
  | label (name : Text)

/-- The parts that the token of a span is the digest of. -/
def Cacheable.parts (salt : Text) : Cacheable → List Text
  | .span kind content => [salt, kind.name, content]
  | .delimited kind context content => [salt, kind.name, context, content]
  | .code source key =>
    [salt, SpanKind.code.name, source, key.language, key.format.name,
      if key.isInListing then "listing" else "bare", key.options.canonical]
  | .label name => [salt, "label", name]

/-- The token of a span. -/
def Cacheable.token (salt : Text) (span : Cacheable) : Text := digest (span.parts salt)

/-- A cached span. -/
structure Entry where
  token : Text
  content : Text
  kind : SpanKind
  /-- How the span is delimited; for code, its language. -/
  context : Option Text

namespace Entry

/-- An environment around a body, each marker on a line of its own. -/
def environment (name body : Text) : Text :=
  "\\begin\x7b" ++ name ++ "\x7d\n" ++ body ++ "\n\\end\x7b" ++ name ++ "\x7d"

/-- The span as it stands in a format. -/
def render (e : Entry) : Format → Text
  | .markup =>
    match e.kind with
    | .rawHtml => "%= " ++ e.content
    | _ => e.content
  | .html =>
    match e.kind with
    | .literal => Html.escapeText e.content
    | .url => Html.escapeAttribute e.content
    | .unicode | .code | .rawHtml => e.content
    | .math =>
      let body := Html.escapeText e.content
      let context := e.context.getD "inline"
      if context = "inline" then "\\(" ++ body ++ "\\)"
      else if context = "display" then "\\[" ++ body ++ "\\]"
      else environment context body

/-- What a reader would see of the span in a heading: nothing of code and raw HTML. -/
def readable (e : Entry) : Text :=
  match e.kind with
  | .code | .rawHtml => []
  | _ => e.content

end Entry

/-- The cached spans of one run. -/
structure Cache where
  salt : Text
  /-- The spans, in the order in which they were first cached. -/
  entries : List Entry
  /-- The tokens of labels, each with its label. -/
  labels : List (Text × Text)

namespace Cache

/-- A cache without spans. -/
def empty (salt : Text) : Cache := ⟨salt, [], []⟩

/-- The entry of a token. -/
def find? (c : Cache) (token : Text) : Option Entry := c.entries.find? fun e => e.token = token

/-- The content behind a token. -/
def get? (c : Cache) (token : Text) : Option Text := (c.find? token).map Entry.content

/-- The label behind a token. -/
def label? (c : Cache) (token : Text) : Option Text :=
  (c.labels.find? fun l => l.1 = token).map Prod.snd

/-- Adds an entry, unless its token has one already. -/
def insert (c : Cache) (e : Entry) : Cache :=
  if (c.find? e.token).isSome then c else { c with entries := c.entries ++ [e] }

/-- Caches a span. -/
def add (c : Cache) (kind : SpanKind) (content : Text) : Text × Cache :=
  let token := (Cacheable.span kind content).token c.salt
  (token, c.insert ⟨token, content, kind, none⟩)

/-- Caches a span together with the way in which it is delimited. -/
def addDelimited (c : Cache) (kind : SpanKind) (context content : Text) : Text × Cache :=
  let token := (Cacheable.delimited kind context content).token c.salt
  (token, c.insert ⟨token, content, kind, some context⟩)

/-- Caches a rendered code block under all that its rendering depends on. -/
def addCode (c : Cache) (source highlighted : Text) (key : CodeKey) : Text × Cache :=
  let token := (Cacheable.code source key).token c.salt
  (token, c.insert ⟨token, highlighted, .code, some key.language⟩)

/-- Gives a label a token. -/
def addLabel (c : Cache) (name : Text) : Text × Cache :=
  let token := (Cacheable.label name).token c.salt
  (token, if (c.label? token).isSome then c else { c with labels := c.labels ++ [(token, name)] })

/-- Replaces the token of each entry, one entry after the other. -/
def replaceEntries (rendering : Entry → Text) (entries : List Entry) (t : Text) : Text :=
  entries.foldl (fun t e => Text.replaceAll e.token (rendering e) t) t

/-- Replaces the token of each label, one label after the other. -/
def replaceLabels (rendering : Text → Text) (labels : List (Text × Text)) (t : Text) : Text :=
  labels.foldl (fun t l => Text.replaceAll l.1 (rendering l.2) t) t

/-- A label as it stands in a format. -/
def renderLabel (format : Format) (label : Text) : Text :=
  match format with
  | .html => []
  | .markup => "\\label\x7b" ++ label ++ "\x7d"

/-- Replaces every token once. -/
def restoreOnce (c : Cache) (format : Format) (t : Text) : Text :=
  replaceLabels (renderLabel format) c.labels (replaceEntries (·.render format) c.entries t)

/-- Replaces tokens until nothing changes, for at most the given number of rounds. -/
def restoreRounds (c : Cache) (format : Format) : (rounds : Nat) → Text → Text
  | 0, t => t
  | rounds + 1, t =>
    let restored := c.restoreOnce format t
    if restored = t then t else restoreRounds c format rounds restored

/-- How deep spans may lie inside one another and still be restored. -/
def maxDepth : Nat := 8

/-- The text with every span put back as it stands in a format. -/
def restore (c : Cache) (t : Text) (format : Format) : Text := c.restoreRounds format maxDepth t

/-- The text as a reader would see it: spans inside spans are not looked for again. -/
def readable (c : Cache) (t : Text) : Text :=
  replaceLabels (fun _ => []) c.labels (replaceEntries Entry.readable c.entries t)

/-- The labels whose tokens occur in a text, each with its position. -/
def foundLabels (c : Cache) (t : Text) : List (Nat × Text) :=
  c.labels.flatMap fun (token, label) => (Text.occurrences token t).map fun position => (position, label)

/-- Takes the tokens of labels out of a text: the rest, and the labels in the order of their tokens. -/
def takeLabels (c : Cache) (t : Text) : Text × List Text :=
  (replaceLabels (fun _ => []) c.labels t,
    ((c.foundLabels t).mergeSort fun a b => a.1 ≤ b.1).map Prod.snd)

end Cache

end Manuscript
