import Manuscript.Outline
import Manuscript.Words

/-!
A document in HTML: each block on lines of its own, two spaces further in than the block around it.
-/

namespace Manuscript.Html

/-- What is needed besides the document. -/
structure Setting where
  words : Words
  /-- What is shown as the table of contents. -/
  outline : Option Outline

/-- A line at some indentation. -/
def line (indent : Nat) (t : Text) : Text := List.replicate (2 * indent) ' ' ++ t ++ "\n"

/-- A block whose opening tag has the given attributes. -/
def element (indent : Nat) (tag attributes content : Text) : Text :=
  line indent ("<" ++ tag ++ attributes ++ ">") ++ content ++ line indent ("</" ++ tag ++ ">")

/-- A line, unless there is nothing but blanks to show. -/
def lineUnlessBlank (indent : Nat) (shown t : Text) : Text :=
  if Text.isBlankOnly shown then [] else line indent t

/-- Is the node a block? -/
def isBlock (n : Node) : Bool :=
  match n.kind with
  | .document | .frontmatter | .mainmatter | .heading _ | .title | .float _ | .caption | .paragraph
  | .verbatim | .codeBlock | .displayMath | .list _ | .item | .tableOfContents | .footnoteList _
  | .footnoteItem _ => true
  | _ => false

/-- The tag of a heading. -/
def headingTag : Level → Text
  | .chapter => "h1"
  | .sect => "h2"
  | .subsect => "h3"
  | .subsubsect => "h4"

/-- The heading of a chapter or section, which links to itself. -/
def heading (s : Setting) (level : Level) (a : Attrs) (number : Option Text) (children : List Node) :
    Text :=
  let badge : Text :=
    match number with
    | none => []
    | some number =>
      "<span class=\"number\">" ++
        escapeText (if level = .chapter then s.words.chapterBadge number else number) ++ "</span> "
  "<" ++ headingTag level ++ "><a href=\"#" ++ escapeAttribute (a.id.getD []) ++ "\" class=\"heading\">" ++
    badge ++ headingTitle children ++ "</a></" ++ headingTag level ++ ">"

/-- A caption with what stands before its text. -/
def caption (header : Text) (children : List Node) : Text :=
  "<div class=\"caption\">" ++ header ++ "<span class=\"description\">" ++ inlines .body children ++
    "</span></div>"

/-- The word and number of a float, before its caption. -/
def captionHeader (s : Setting) (kind : FloatKind) (number : Option Text) : Text :=
  match number with
  | some number =>
    "<span class=\"header\">" ++ escapeText (s.words.floatWord kind) ++ " " ++ number ++ "</span>"
  | none => []

/-- The number after an equation. -/
def equationNumber (indent : Nat) (kind : FloatKind) (number : Option Text) : Text :=
  match kind, number with
  | .equation, some number => line indent ("<div class=\"equation_number\">(" ++ number ++ ")</div>")
  | _, _ => []

/-- The content of a footnote: its paragraphs follow one another. -/
def noteContent (children : List Node) : Text :=
  children.flatMap fun child =>
    if child.kind = .paragraph then inlines .body child.children else inline .body child

/-- A footnote in its list. -/
def noteLine (isMarked : Bool) (mark : Mark) (children : List Node) : Text :=
  let shown : Text := if isMarked then "<sup>" ++ escapeText mark.display ++ "</sup> " else []
  "<li id=\"" ++ mark.noteId ++ "\">" ++ shown ++ Text.trim (noteContent children) ++
    " <a class=\"arrow\" href=\"#" ++ mark.originId ++ "\">↑</a></li>"

/-- Is the node a footnote that is marked by something else than its index? -/
def isSymbolNote (n : Node) : Bool :=
  match n.kind with
  | .footnoteItem mark => mark.display ≠ Text.ofNat mark.index
  | _ => false

/-- The footnotes of a chapter. -/
def footnoteList (indent : Nat) (chapter : UInt32) (children : List Node) : Text :=
  let isMarked := children.any isSymbolNote
  let notes := children.flatMap fun child =>
    match child.kind with
    | .footnoteItem mark => line (indent + 2) (noteLine isMarked mark child.children)
    | _ => []
  let class' : Text := if isMarked then "footnotes nonumbers" else "footnotes"
  element indent "div"
    (" id=\"cha-" ++ Text.ofNat chapter.toNat ++ "_footnotes\" class=\"footnotes\"" : Text)
    (element (indent + 1) "ol" (" class=\"" ++ class' ++ "\"" : Text) notes)

/-- The outline, each of its lines indented. -/
def outlineLines (indent : Nat) (o : Option Outline) : Text :=
  match o with
  | some o => (Text.lines o.html).flatMap (line indent)
  | none => []

/-- An item of a list, given its children as blocks: on one line, if none of them is a block. -/
def itemLines (indent : Nat) (children : List Node) (asBlocks : Text) : Text :=
  if children.any isBlock then element indent "li" [] asBlocks
  else line indent ("<li>" ++ Text.trim (inlines .body children) ++ "</li>")

mutual

/-- A node as a block. -/
def block (s : Setting) (indent : Nat) : Node → Text
  | ⟨kind, a, number, children⟩ =>
    match kind with
    | .document => blocks s indent children
    | .frontmatter => element indent "div" " id=\"frontmatter\"" (blocks s (indent + 1) children)
    | .mainmatter => element indent "div" " id=\"mainmatter\"" (blocks s (indent + 1) children)
    | .heading level =>
      element indent "div" (attrs a (some level.name))
        (line (indent + 1) (heading s level a number children) ++ blocks s (indent + 1) children)
    | .float kind =>
      element indent "div" (attrs a (some kind.name))
        (floatBlocks s (indent + 1) (captionHeader s kind number) children ++
          equationNumber (indent + 1) kind number)
    | .title | .footnoteItem _ => []
    | .caption => line indent (caption [] children)
    | .paragraph =>
      let content := inlines .body children
      lineUnlessBlank indent content ("<p" ++ attrs a none ++ ">" ++ content ++ "</p>")
    | .verbatim =>
      line indent ("<pre class=\"verbatim\">" ++
        escapeText (Text.trimChar '\n' (Node.plainTexts children)) ++ "</pre>")
    | .codeBlock =>
      element indent "div" (attrs a (some "code"))
        (line (indent + 1) (Text.trimChar '\n' (Node.plainTexts children)))
    | .displayMath =>
      line indent ("<div class=\"equation\">" ++ Text.trim (inlines .body children) ++ "</div>")
    | .list isOrdered =>
      element indent (if isOrdered then "ol" else "ul" : String) (attrs a none) (items s (indent + 1) children)
    | .item => itemLines indent children (blocks s (indent + 1) children)
    | .tableOfContents => outlineLines indent s.outline
    | .footnoteList chapter => footnoteList indent chapter children
    | kind =>
      let content := inline .body ⟨kind, a, number, children⟩
      lineUnlessBlank indent content content

/-- Nodes as blocks. -/
def blocks (s : Setting) (indent : Nat) : List Node → Text
  | [] => []
  | node :: rest => block s indent node ++ blocks s indent rest

/-- The contents of a float, whose captions have its number before them. -/
def floatBlocks (s : Setting) (indent : Nat) (header : Text) : List Node → Text
  | [] => []
  | node :: rest =>
    let first :=
      if node.kind = .caption then line indent (caption header node.children) else block s indent node
    first ++ floatBlocks s indent header rest

/-- A node as an item of a list. -/
def item (s : Setting) (indent : Nat) : Node → Text
  | ⟨_, _, _, children⟩ => itemLines indent children (blocks s (indent + 1) children)

/-- Nodes as items of a list. -/
def items (s : Setting) (indent : Nat) : List Node → Text
  | [] => []
  | node :: rest => item s indent node ++ items s indent rest

end

end Manuscript.Html

namespace Manuscript

/-- The document in HTML, without a line feed at its end. -/
def Document.html (d : Document) (s : Html.Setting) : Text :=
  let written := Html.blocks s 0 d.children
  (Text.before? "\n" written).getD written

end Manuscript
