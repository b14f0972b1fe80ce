import Manuscript.Html.TableRules

/-!
The tree of a piece of HTML as it would stand in a division, however badly it is formed.
-/

namespace Manuscript.Html

namespace Builder

/-! Elements of other languages -/

/-- The elements of HTML that end graphics and mathematics. -/
def breakouts : List Text :=
  (["b", "big", "blockquote", "body", "br", "center", "code", "dd", "div", "dl", "dt", "em", "embed", "h1", "h2",
    "h3", "h4", "h5", "h6", "head", "hr", "i"] : List Text) ++
  (["img", "li", "listing", "menu", "meta", "nobr", "ol", "p", "pre", "ruby", "s", "small", "span", "strong",
    "strike", "sub", "sup", "table", "tt", "u", "ul", "var"] : List Text)

/-- Does the tag end graphics and mathematics? -/
def isBreakout (tag : Tag) : Bool :=
  tag.name ∈ breakouts ||
    (tag.name = "font" && tag.attributes.any fun a => a.1 ∈ (["color", "face", "size"] : List Text))

/-- Is it a part of mathematics that holds text? -/
def isMathText (f : Frame) : Bool := f.space = .mathml && f.name ∈ Frames.mathTextElements

/-- Is it an element of another language that holds HTML? -/
def isHtmlHolder (f : Frame) : Bool :=
  (f.space = .svg && f.name ∈ Frames.svgTextElements) ||
    (f.space = .mathml && f.name = "annotation-xml" &&
      (f.attributes.lookup ("encoding" : Text)).any fun v =>
        v.map Char.toLower ∈ (["text/html", "application/xhtml+xml"] : List Text))

/-- Is the innermost element one of another language? -/
def isForeign (b : Builder) : Bool := b.frames.head?.any (·.space ≠ .html)

/-- Do the rules of other languages hold for a token? -/
def isForeignToken (b : Builder) (token : Token) : Bool :=
  match b.frames with
  | [] => false
  | f :: _ =>
    if f.space = .html then false
    else
      match token with
      | .opens tag =>
        !(isMathText f && tag.name ≠ "mglyph" && tag.name ≠ "malignmark") &&
          !(f.space = .mathml && f.name = "annotation-xml" && tag.name = "svg") && !isHtmlHolder f
      | .text _ | .verbatim _ => !isMathText f && !isHtmlHolder f
      | _ => true

/-- Leaves graphics and mathematics. -/
def breakOut (b : Builder) : Builder :=
  b.within fun frames => frames.finishWhile fun f => f.space ≠ .html && !isMathText f && !isHtmlHolder f

/-- How many elements of another language a closing tag ends; `none` if the rules of HTML say so. -/
def foreignDepth? (name : Text) : Frames → Option Nat
  | [] | [_] => some 0
  | f :: rest =>
    if !f.isLeft && f.space = .html then none
    else if !f.isLeft && f.name = name then some 1
    else (foreignDepth? name rest).map fun n => if n = 0 then 0 else n + 1

/-- What a token does in graphics and mathematics. -/
def inForeign (b : Builder) (token : Token) : Outcome :=
  match token with
  | .text t | .verbatim t => .done (b.addText (t.map replaceNull))
  | .opens tag =>
    if isBreakout tag then .again b.breakOut
    else .done (b.openForeign ((b.frames.head?.map (·.space)).getD .html) tag)
  | .closes name =>
    if name = "br" ∨ name = "p" then .again b.breakOut
    else
      match foreignDepth? name b.frames with
      | none => .done (b.run token)
      | some depth => .done (b.within fun frames => if depth = 0 then frames else frames.finish depth)
  | .nothing => .done b

/-! Building -/

/-- What a token does by the rules of the mode. -/
def byMode (b : Builder) (token : Token) : Outcome :=
  match b.mode with
  | .body => .done (b.run token)
  | .table => b.inTable token
  | .caption => b.inCaption token
  | .columnGroup => b.inColumnGroup token
  | .tableBody => b.inTableBody token
  | .row => b.inRow token
  | .cell => b.inCell token
  | .select => b.inSelect token
  | .selectInTable => b.inSelectInTable token
  | .template => b.inTemplate token

/-- Takes a token, looking at it again a number of times. -/
def take : (looks : Nat) → Builder → Token → Builder
  | 0, b, _ => b
  | looks + 1, b, token =>
    match if b.isForeignToken token then b.inForeign token else b.byMode token with
    | .done b => b
    | .again b => take looks b token

/-- The number of times that a token is looked at; each time but the last ends a part of a table, a choice or
graphics, and no more are around each other before the rules for running text hold. -/
def looks : Nat := 16

/-- The text of a token without a line feed at its start. -/
def skipLineFeed : Token → Token
  | .text ('\n' :: t) => .text t
  | token => token

/-- Takes a token. -/
def add (b : Builder) (token : Token) : Builder :=
  take looks { b with skipsLineFeed := false } (if b.skipsLineFeed then skipLineFeed token else token)

/-- Takes the text of an element without markup, and ends the element. -/
def addContent (b : Builder) (t : Text) : Builder :=
  let t := if b.skipsLineFeed then (Text.after? "\n" t).getD t else t
  { (b.addText (t.map replaceNull)).within fun frames => frames.finish 1 with
    skipsLineFeed := false
    content := .markup }

/-- Reads the next piece of text. -/
def step? (b : Builder) (t : Text) : Option (Builder × Text) :=
  match b.content with
  | .markup => (token? b.isForeign t).map fun (token, rest) => (b.add token, rest)
  | .raw name =>
    let (inside, rest) := untilEndTag name .nothing t
    some (b.addContent inside, rest)
  | .escapable name =>
    let (inside, rest) := untilEndTag name .nothing t
    some (b.addContent (resolve false inside), rest)
  | .plain => some (b.addContent t, [])

/-- Reads a text to its end. -/
def build (b : Builder) (t : Text) : Builder :=
  match b.step? t with
  | none => b
  | some (b, rest) => if rest.length < t.length then build b rest else b
termination_by t.length

end Builder

/-- The nodes of a piece of HTML. -/
def fragment (t : Text) : List Tree :=
  let frames := (Builder.start.build (normalize t)).frames
  match Frames.close frames.length frames with
  | [] => []
  | root :: _ => root.children.reverse

end Manuscript.Html
