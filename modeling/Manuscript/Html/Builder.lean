import Manuscript.Html.Open

/-!
The state of the construction of an HTML tree, and the steps that its rules are made of.

Formatting elements that are ended out of order, or by the end of an element around them, are opened again where
the text goes on.  For this a list of them is kept beside the open elements.
-/

namespace Manuscript.Html

/-- The rules that hold for the next token. -/
inductive Mode where
  | body
  | table
  | caption
  | columnGroup
  | tableBody
  | row
  | cell
  | select
  | selectInTable
  | template
  deriving DecidableEq

/-- A formatting element that is to be opened again where it is missing. -/
structure Formatting where
  serial : Nat
  name : Text
  attributes : List (Text × Text)

/-- How the next text is read. -/
inductive Content where
  | markup
  /-- As it stands, up to the end tag of an element. -/
  | raw (name : Text)
  /-- Up to the end tag of an element, with references. -/
  | escapable (name : Text)
  /-- As it stands, to the end. -/
  | plain

/-- The state of the construction. -/
structure Builder where
  frames : Frames
  /-- Formatting elements, latest first; nothing before a `none` is opened again after it. -/
  formatting : List (Option Formatting)
  mode : Mode
  /-- The rules that hold inside the templates that are open, innermost first. -/
  templates : List Mode
  /-- The form that is open. -/
  form : Option Nat
  /-- The serial of the next element. -/
  next : Nat
  /-- What does not belong into a table goes before it. -/
  isFostering : Bool
  /-- A line feed right after the tag does not count. -/
  skipsLineFeed : Bool
  content : Content

namespace Builder

/-- The construction at its start, inside a division. -/
def start : Builder :=
  ⟨[⟨0, .html, "html", [], [], false, false⟩], [], .body, [], none, 1, false, false, .markup⟩

/-- The parts of a table that hold no text. -/
def tableParts : List Text := ["table", "tbody", "tfoot", "thead", "tr"]

/-- Does a new node go before the table? -/
def goesBefore (b : Builder) : Bool := b.isFostering && b.frames.topIs tableParts

/-- Adds text. -/
def addText (b : Builder) (t : Text) : Builder :=
  if t = [] then b else { b with frames := b.frames.place b.goesBefore (.text t) }

/-- Opens an element. -/
def push (b : Builder) (space : Space) (name : Text) (attributes : List (Text × Text)) : Builder :=
  { b with
    frames := ⟨b.next, space, name, attributes, [], b.goesBefore, false⟩ :: b.frames
    next := b.next + 1 }

/-- Opens an element of HTML for its tag. -/
def openTag (b : Builder) (tag : Tag) : Builder := b.push .html tag.name tag.attributes

/-- Adds an empty element of HTML. -/
def addEmpty (b : Builder) (tag : Tag) : Builder :=
  let b := b.openTag tag
  { b with frames := b.frames.finish 1 }

/-- Opens an element whose text is read as it stands. -/
def openRaw (b : Builder) (tag : Tag) : Builder := { b.openTag tag with content := .raw tag.name }

/-- Opens an element whose text is read without markup. -/
def openEscapable (b : Builder) (tag : Tag) : Builder := { b.openTag tag with content := .escapable tag.name }

/-- Changes the open elements. -/
def within (b : Builder) (f : Frames → Frames) : Builder := { b with frames := f b.frames }

/-- Ends a paragraph in scope. -/
def closeParagraph (b : Builder) : Builder := b.within Frames.closeParagraph

/-- Ends the innermost element if it has one of the names. -/
def closeTop (b : Builder) (names : List Text) : Builder :=
  if b.frames.topIs names then b.within fun frames => frames.finish 1 else b

/-! Formatting elements -/

/-- Notes that formatting elements from outside stay outside. -/
def mark (b : Builder) : Builder := { b with formatting := none :: b.formatting }

/-- Forgets the formatting elements up to and with the last mark. -/
def clearToMark (b : Builder) : Builder :=
  { b with formatting := (b.formatting.dropWhile Option.isSome).tail }

/-- Is the formatting element missing among the open ones? -/
def isMissing (b : Builder) (entry : Option Formatting) : Bool :=
  entry.any fun e => !b.frames.hasSerial e.serial

/-- Opens formatting elements again, the first one innermost. -/
def reopen (b : Builder) : List (Option Formatting) → Builder
  | [] => b
  | none :: rest => reopen b rest
  | some e :: rest =>
    let b := reopen b rest
    { b.push .html e.name e.attributes with formatting := some { e with serial := b.next } :: b.formatting }

/-- Opens the formatting elements that are missing where text goes on. -/
def reconstruct (b : Builder) : Builder :=
  { b with formatting := b.formatting.dropWhile b.isMissing }.reopen (b.formatting.takeWhile b.isMissing)

/-- Do a formatting element and a tag have the same name and attributes? -/
def isAlike (tag : Tag) (entry : Option Formatting) : Bool :=
  entry.any fun e =>
    e.name = tag.name && e.attributes.length = tag.attributes.length && e.attributes.all (· ∈ tag.attributes)

/-- Removes the last formatting element like the tag, if there are three since the last mark. -/
def trimAlike (tag : Tag) (formatting : List (Option Formatting)) : List (Option Formatting) :=
  let recent := formatting.takeWhile Option.isSome
  if (recent.filter (isAlike tag)).length < 3 then formatting
  else
    let kept := recent.reverse
    (kept.takeWhile (!isAlike tag ·) ++ (kept.dropWhile (!isAlike tag ·)).tail).reverse ++
      formatting.dropWhile Option.isSome

/-- Opens a formatting element. -/
def openFormatting (b : Builder) (tag : Tag) : Builder :=
  { b.openTag tag with
    formatting := some ⟨b.next, tag.name, tag.attributes⟩ :: trimAlike tag b.formatting }

/-- The latest formatting element with a name since the last mark. -/
def findFormatting? (b : Builder) (name : Text) : Option Formatting :=
  (b.formatting.takeWhile Option.isSome).findSome? fun entry => entry.filter (·.name = name)

/-- Is it the formatting element with the serial? -/
def isEntry (serial : Nat) (entry : Option Formatting) : Bool := entry.any (·.serial = serial)

/-- Forgets a formatting element. -/
def forget (b : Builder) (serial : Nat) : Builder :=
  { b with formatting := b.formatting.filter (!isEntry serial ·) }

/-! Ends of elements -/

/-- The elements that an end tag does not reach beyond, unless it says so. -/
def specialElements : List Text :=
  (["address", "applet", "area", "article", "aside", "base", "basefont", "bgsound", "blockquote", "body", "br",
    "button", "caption", "center", "col", "colgroup", "dd", "details", "dir", "div", "dl", "dt", "embed",
    "fieldset", "figcaption", "figure", "footer", "form", "frame", "frameset"] : List Text) ++
  (["h1", "h2", "h3", "h4", "h5", "h6", "head", "header", "hgroup", "hr", "html", "iframe", "img", "input", "li",
    "link", "listing", "main", "marquee", "menu", "meta", "nav", "noembed", "noframes", "noscript", "object",
    "ol", "p", "param", "plaintext", "pre"] : List Text) ++
  (["script", "section", "select", "source", "style", "summary", "table", "tbody", "td", "template", "textarea",
    "tfoot", "th", "thead", "title", "tr", "track", "ul", "wbr", "xmp"] : List Text)

/-- Is it an element that an end tag does not reach beyond? -/
def isSpecial (f : Frame) : Bool := f.isNamed specialElements || (f.space ≠ .html && Frames.isBarrier f)

/-- The number of elements up to and with the one that an end tag ends, as long as none is special. -/
def endDepth? (name : Text) : Frames → Option Nat
  | [] => none
  | f :: rest =>
    if f.isOpen [name] then some 1
    else if !f.isLeft && isSpecial f then none
    else (endDepth? name rest).map (· + 1)

/-- Ends the innermost element with a name, unless a special one is inside it. -/
def closeOther (b : Builder) (name : Text) : Builder :=
  match endDepth? name b.frames with
  | none => b
  | some _ => b.within fun frames => (frames.finishImplied name).finishThrough (·.isNamed [name])

/-- Is the element with the serial in scope? -/
def isInScope (serial : Nat) : Frames → Bool
  | [] => false
  | f :: rest =>
    if f.isLeft then isInScope serial rest
    else f.serial = serial || (!Frames.isBarrier f && isInScope serial rest)

/-- An element opened again with a new serial and no children. -/
def clone (f : Frame) (serial : Nat) : Frame :=
  { f with serial := serial, children := [], isFostered := false }

/-- The formatting elements after `e` has moved into a special element: those that were opened again are known by
their new serials, and `e` comes right after the innermost of them, or stays in its place. -/
def moveEntry (e : Formatting) (serial : Nat) (renamed : List (Nat × Nat))
    (formatting : List (Option Formatting)) : List (Option Formatting) :=
  let moved := some { e with serial := serial }
  formatting.flatMap fun entry =>
    match entry with
    | none => [none]
    | some f =>
      if f.serial = e.serial then if renamed.isEmpty then [moved] else []
      else
        match renamed.lookup f.serial with
        | none => [some f]
        | some new =>
          if (renamed.head?.any fun r => r.1 = f.serial) then [moved, some { f with serial := new }]
          else [some { f with serial := new }]

/-- Ends the formatting element `e` around a special element.  What is inside the special element gets a formatting
element of its own, and so do up to three formatting elements between the two; the rest ends where it is. -/
def split (b : Builder) (e : Formatting) (special : Nat) : Builder :=
  let inner := b.frames.takeWhile (·.serial ≠ special)
  match b.frames.dropWhile (·.serial ≠ special) with
  | [] => b
  | block :: around =>
    let middle := around.takeWhile (·.serial ≠ e.serial)
    let opened := middle.filter (!·.isLeft)
    let isListed := fun f : Frame => b.formatting.any (isEntry f.serial)
    let again := (opened.take 3).filter isListed
    let clones := (List.range again.length).zipWith (fun i f => clone f (b.next + 1 + i)) again
    let renamed := (again.map (·.serial)).zip (clones.map (·.serial))
    let outer := Frames.finish around (middle.length + 1)
    let isFostered := b.isFostering && Frames.topIs outer tableParts
    let chain := { block with children := [], isFostered := false } :: clones
    let chain := chain.dropLast ++ chain.getLast?.toList.map fun f => { f with isFostered := isFostered }
    let lost := (opened.drop 3).map (·.serial)
    { b with
      frames := inner ++ [⟨b.next, .html, e.name, e.attributes, block.children, false, false⟩] ++ chain ++ outer
      formatting := moveEntry e b.next renamed
        (b.formatting.filter fun entry => !(entry.any (·.serial ∈ lost)))
      next := b.next + 1 + clones.length }

/-- Ends a formatting element that may be around others, in a number of rounds. -/
def closeRounds (name : Text) : (rounds : Nat) → Builder → Builder
  | 0, b => b
  | rounds + 1, b =>
    match b.findFormatting? name with
    | none => b.closeOther name
    | some e =>
      if !b.frames.hasSerial e.serial then b.forget e.serial
      else if !isInScope e.serial b.frames then b
      else
        let inside := b.frames.takeWhile (·.serial ≠ e.serial)
        match inside.reverse.find? fun f => !f.isLeft && isSpecial f with
        | none => (b.within fun frames => frames.finishThrough (·.serial = e.serial)).forget e.serial
        | some block => closeRounds name rounds (b.split e block.serial)

/-- Ends a formatting element. -/
def closeFormatting (b : Builder) (name : Text) : Builder :=
  let isPlain := b.frames.head?.any fun f => f.isNamed [name] && !b.formatting.any (isEntry f.serial)
  if isPlain then b.within fun frames => frames.finish 1 else closeRounds name 8 b

end Builder

end Manuscript.Html
