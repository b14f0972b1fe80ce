import Manuscript.Html.Builder

/-!
What a token does in running text, outside the parts that tables and choices consist of.
-/

namespace Manuscript.Html.Builder

/-- The elements that begin a block of their own. -/
def blocks : List Text :=
  ["address", "article", "aside", "blockquote", "center", "details", "dialog", "dir", "div", "dl", "fieldset",
   "figcaption", "figure", "footer", "header", "hgroup", "main", "menu", "nav", "ol", "p", "search", "section",
   "summary", "ul"]

/-- The elements whose end tags end what is inside them. -/
def closedBlocks : List Text := "button" :: "listing" :: "pre" :: blocks.filter (· ≠ "p")

/-- The headings. -/
def headings : List Text := ["h1", "h2", "h3", "h4", "h5", "h6"]

/-- The elements that go on after they have been ended by another one. -/
def formattingElements : List Text :=
  ["b", "big", "code", "em", "font", "i", "s", "small", "strike", "strong", "tt", "u"]

/-- The elements that formatting does not go through. -/
def embeddings : List Text := ["applet", "marquee", "object"]

/-- The parts of tables and pages, whose tags mean nothing in running text. -/
def misplaced : List Text :=
  ["caption", "col", "colgroup", "frame", "head", "tbody", "td", "tfoot", "th", "thead", "tr", "html", "body",
   "frameset"]

/-- The elements that hold nothing and stand in a line. -/
def emptyInline : List Text := ["area", "br", "embed", "img", "keygen", "wbr", "input"]

/-- The elements that hold nothing and show nothing. -/
def emptyHidden : List Text := ["base", "basefont", "bgsound", "link", "meta", "param", "source", "track"]

/-- The elements that belong to a head but may be anywhere. -/
def headElements : List Text := ["noframes", "script", "style", "template", "title"]

/-- The elements whose end tags table cells, captions and the like imply. -/
def thoroughlyImplied : List Text :=
  (["caption", "colgroup", "tbody", "td", "tfoot", "th", "thead", "tr"] : List Text) ++ Frames.impliedEnds

/-- Is a template open? -/
def isInTemplate (b : Builder) : Bool := b.frames.any (·.isOpen ["template"])

/-- Sets the mode by the elements that are open, innermost first. -/
def modeOf (templates : List Mode) : Frames → Mode
  | [] => .body
  | f :: rest =>
    if f.isOpen ["select"] then
      let inTemplate := rest.takeWhile fun g => !g.isOpen ["template"]
      if inTemplate.any (·.isOpen ["table"]) then .selectInTable else .select
    else if f.isOpen ["td", "th"] then .cell
    else if f.isOpen ["tr"] then .row
    else if f.isOpen ["tbody", "thead", "tfoot"] then .tableBody
    else if f.isOpen ["caption"] then .caption
    else if f.isOpen ["colgroup"] then .columnGroup
    else if f.isOpen ["table"] then .table
    else if f.isOpen ["template"] then templates.head?.getD .body
    else modeOf templates rest

/-- Sets the mode by the elements that are open. -/
def resetMode (b : Builder) : Builder := { b with mode := modeOf b.templates b.frames }

/-- Opens an element of a head. -/
def openHead (b : Builder) (tag : Tag) : Builder :=
  if tag.name = "title" then b.openEscapable tag
  else if tag.name = "template" then
    { (b.openTag tag).mark with mode := .template, templates := .template :: b.templates }
  else b.openRaw tag

/-- Ends a template. -/
def closeTemplate (b : Builder) : Builder :=
  if b.isInTemplate then
    let b := b.within fun frames =>
      (frames.finishWhile (·.isNamed thoroughlyImplied)).finishThrough (·.isNamed ["template"])
    { b.clearToMark with templates := b.templates.tail }.resetMode
  else b

/-- The name of the item that a new item with one of the names ends. -/
def itemBefore? (names : List Text) : Frames → Option Text
  | [] => none
  | f :: rest =>
    if f.isOpen names then some f.name
    else if !f.isLeft && isSpecial f && !f.isNamed ["address", "div", "p"] then none
    else itemBefore? names rest

/-- Opens an item of a list, after the item before it. -/
def openItem (b : Builder) (names : List Text) (tag : Tag) : Builder :=
  let b :=
    match itemBefore? names b.frames with
    | none => b
    | some name => b.within fun frames => (frames.finishImplied name).finishThrough (·.isNamed [name])
  b.closeParagraph.openTag tag

/-- Opens a link; one link is not inside another. -/
def openLink (b : Builder) (tag : Tag) : Builder :=
  let b :=
    match b.findFormatting? "a" with
    | none => b
    | some e =>
      let b := (b.closeFormatting "a").forget e.serial
      b.within fun frames => frames.leave e.serial
  b.reconstruct.openFormatting tag

/-- Opens text that does not break; it is not inside another such text. -/
def openUnbroken (b : Builder) (tag : Tag) : Builder :=
  let b := b.reconstruct
  let b :=
    if b.frames.hasInScope ["nobr"] then
      let e? := b.findFormatting? "nobr"
      let b := b.closeFormatting "nobr"
      let b := e?.elim b fun e => (b.forget e.serial).within fun frames => frames.leave e.serial
      b.reconstruct
    else b
  b.openFormatting tag

/-- Opens a form, unless one is open. -/
def openForm (b : Builder) (tag : Tag) : Builder :=
  if b.form.isSome && !b.isInTemplate then b
  else
    let b := b.closeParagraph
    { b.openTag tag with form := if b.isInTemplate then b.form else some b.next }

/-- Opens an element of another language. -/
def openForeign (b : Builder) (space : Space) (tag : Tag) : Builder :=
  let b := b.push space tag.name tag.attributes
  if tag.isClosed then b.within fun frames => frames.finish 1 else b

/-- Opens a choice. -/
def openSelect (b : Builder) (tag : Tag) : Builder :=
  let isInTable := b.mode ∈ [Mode.table, .caption, .tableBody, .row, .cell]
  { b.reconstruct.openTag tag with mode := if isInTable then .selectInTable else .select }

/-- Opens a block. -/
def openBlock (b : Builder) (tag : Tag) : Builder :=
  if tag.name ∈ headings then (b.closeParagraph.closeTop headings).openTag tag
  else if tag.name = "pre" ∨ tag.name = "listing" then
    { b.closeParagraph.openTag tag with skipsLineFeed := true }
  else if tag.name = "plaintext" then { b.closeParagraph.openTag tag with content := .plain }
  else if tag.name = "xmp" then b.closeParagraph.reconstruct.openRaw tag
  else if tag.name = "table" then { b.closeParagraph.openTag tag with mode := .table }
  else if tag.name = "hr" then b.closeParagraph.addEmpty tag
  else b.closeParagraph.openTag tag

/-- Opens an element that stands in a line, or one without rules of its own. -/
def openInline (b : Builder) (tag : Tag) : Builder :=
  let name := tag.name
  if name ∈ formattingElements then b.reconstruct.openFormatting tag
  else if name ∈ embeddings then (b.reconstruct.openTag tag).mark
  else if name ∈ emptyInline then b.reconstruct.addEmpty tag
  else if name = "image" then b.reconstruct.addEmpty { tag with name := "img" }
  else if name = "button" then
    (if b.frames.hasInScope ["button"] then b.within fun frames => frames.closeNamed ["button"] else b)
      |>.reconstruct.openTag tag
  else if name = "option" ∨ name = "optgroup" then (b.closeTop ["option"]).reconstruct.openTag tag
  else if name = "math" then b.reconstruct.openForeign .mathml tag
  else if name = "svg" then b.reconstruct.openForeign .svg tag
  else b.reconstruct.openTag tag

/-- Opens an annotation of characters or one of its parts. -/
def openRuby (b : Builder) (tag : Tag) : Builder :=
  if b.frames.hasInScope ["ruby"] then
    let kept : Text := if tag.name = "rp" ∨ tag.name = "rt" then "rtc" else []
    (b.within fun frames => frames.finishImplied kept).openTag tag
  else b.openTag tag

/-- What an opening tag does. -/
def opens (b : Builder) (tag : Tag) : Builder :=
  let name := tag.name
  if name ∈ misplaced then b
  else if name ∈ headElements then b.openHead tag
  else if name ∈ emptyHidden then b.addEmpty tag
  else if name ∈ blocks ∨ name ∈ headings ∨
      name ∈ (["pre", "listing", "plaintext", "xmp", "table", "hr"] : List Text) then b.openBlock tag
  else if name = "li" then b.openItem ["li"] tag
  else if name = "dd" ∨ name = "dt" then b.openItem ["dd", "dt"] tag
  else if name = "a" then b.openLink tag
  else if name = "nobr" then b.openUnbroken tag
  else if name = "form" then b.openForm tag
  else if name = "textarea" then { b.openEscapable tag with skipsLineFeed := true }
  else if name ∈ (["iframe", "noembed", "noscript"] : List Text) then b.openRaw tag
  else if name = "select" then b.openSelect tag
  else if name ∈ (["rb", "rtc", "rp", "rt"] : List Text) then b.openRuby tag
  else b.openInline tag

/-- Ends a form. -/
def closeForm (b : Builder) : Builder :=
  if b.isInTemplate then
    if b.frames.hasInScope ["form"] then b.within fun frames => frames.closeNamed ["form"] else b
  else
    match b.form with
    | none => b
    | some serial =>
      let b := { b with form := none }
      if isInScope serial b.frames then
        b.within fun frames => (frames.finishImplied []).leave serial
      else b

/-- What a closing tag does. -/
def closes (b : Builder) (name : Text) : Builder :=
  if name = "template" then b.closeTemplate
  else if name = "body" ∨ name = "html" then b
  else if name ∈ closedBlocks then
    if b.frames.hasInScope [name] then b.within fun frames => frames.closeNamed [name] else b
  else if name = "form" then b.closeForm
  else if name = "p" then
    let b := if b.frames.hasInButtonScope ["p"] then b else b.openTag ⟨"p", [], false⟩
    b.within fun frames => (frames.finishImplied "p").finishThrough (·.isNamed ["p"])
  else if name = "li" then
    if b.frames.hasInListScope ["li"] then
      b.within fun frames => (frames.finishImplied name).finishThrough (·.isNamed ["li"])
    else b
  else if name = "dd" ∨ name = "dt" then
    if b.frames.hasInScope [name] then
      b.within fun frames => (frames.finishImplied name).finishThrough (·.isNamed [name])
    else b
  else if name ∈ headings then
    if b.frames.hasInScope headings then b.within fun frames => frames.closeNamed headings else b
  else if name = "a" ∨ name = "nobr" ∨ name ∈ formattingElements then b.closeFormatting name
  else if name ∈ embeddings then
    if b.frames.hasInScope [name] then (b.within fun frames => frames.closeNamed [name]).clearToMark else b
  else if name = "br" then b.reconstruct.addEmpty ⟨"br", [], false⟩
  else b.closeOther name

/-- What text does; characters of null are dropped. -/
def addsText (b : Builder) (t : Text) : Builder :=
  let t := t.filter fun c => c.toNat ≠ 0
  if t = [] then b else b.reconstruct.addText t

/-- What a token does in running text. -/
def run (b : Builder) (token : Token) : Builder :=
  match token with
  | .text t | .verbatim t => b.addsText t
  | .opens tag => b.opens tag
  | .closes name => b.closes name
  | .nothing => b

end Manuscript.Html.Builder
