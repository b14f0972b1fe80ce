import Manuscript.Document.Basic
import Manuscript.Html.Escape

/-!
The inline parts of a document in HTML.  Inside a heading, which is a link itself, links are reduced to what
they show and footnotes are left out.
-/

namespace Manuscript.Html

/-- Where inline parts stand. -/
inductive Place where
  | body
  | heading
  deriving DecidableEq

/-- The id and classes of a node, after a class that all nodes of its kind have. -/
def attrs (a : Attrs) (base : Option Text) : Text :=
  let classes := base.toList ++ a.classes
  let id : Text :=
    match a.id with
    | some id => " id=\"" ++ escapeAttribute id ++ "\""
    | none => []
  let class' : Text :=
    if classes.isEmpty then [] else " class=\"" ++ escapeAttribute (Text.join " " classes) ++ "\""
  id ++ class'

/-- The number of a reference as it is shown. -/
def refNumber (style : RefStyle) (number : Text) : Text :=
  match style with
  | .plain => number
  | .equation => "(" ++ number ++ ")"

/-- A reference to a label. -/
def ref (place : Place) (label : Text) (style : RefStyle) (target : Option Target)
    (phrase : Option Text) : Text :=
  match target with
  | none => "<span class=\"undefined_ref\">" ++ escapeText label ++ "</span>"
  | some target =>
    let shown := escapeText (phrase.getD []) ++ "<span class=\"ref\">" ++
      escapeText (refNumber style target.number) ++ "</span>"
    match place with
    | .body => "<a href=\"#" ++ escapeAttribute target.id ++ "\" class=\"hyperref\">" ++ shown ++ "</a>"
    | .heading => shown

/-- A footnote's mark, or its content as long as it has none. -/
def footnote (place : Place) (mark : Option Mark) (content : Text) : Text :=
  match place, mark with
  | .heading, _ => []
  | .body, some mark =>
    "<sup id=\"" ++ mark.originId ++ "\" class=\"footnote\"><a href=\"#" ++ mark.noteId ++ "\">" ++
      escapeText mark.display ++ "</a></sup>"
  | .body, none => "<span class=\"footnote\">" ++ content ++ "</span>"

/-- An address that is shown as it is. -/
def url (place : Place) (address : Text) : Text :=
  match place with
  | .body => "<a href=\"" ++ address ++ "\" class=\"url\">" ++ address ++ "</a>"
  | .heading => "<span class=\"url\">" ++ address ++ "</span>"

/-- A link. -/
def link (place : Place) (a : Attrs) (href content : Text) : Text :=
  match place with
  | .body => "<a href=\"" ++ escapeAttribute href ++ "\"" ++ attrs a none ++ ">" ++ content ++ "</a>"
  | .heading => content

mutual

/-- A node within a line. -/
def inline (place : Place) : Node → Text
  | ⟨kind, a, _, children⟩ =>
    let content := inlines place children
    match kind with
    | .text t => escapeText t
    | .emph => "<em>" ++ content ++ "</em>"
    | .strong => "<strong>" ++ content ++ "</strong>"
    | .inlineCode => "<code class=\"tt\">" ++ content ++ "</code>"
    | .span => "<span" ++ attrs a none ++ ">" ++ content ++ "</span>"
    | .inlineMath => "<span class=\"inline_math\">" ++ content ++ "</span>"
    | .url => url place (Text.trim (Node.plainTexts children))
    | .link href => link place a href content
    | .ref label style target phrase => ref place label style target phrase
    | .footnote mark => footnote place mark content
    | .intersentenceSpace => "<span class=\"intersentencespace\"></span>"
    | .lineBreak => "<br />"
    | .graphic src =>
      "<img src=\"" ++ escapeAttribute src ++ "\" alt=\"" ++ escapeAttribute src ++ "\" />"
    | .tableOfContents | .footnoteList _ | .footnoteItem _ => []
    | _ => content

/-- Nodes within a line. -/
def inlines (place : Place) : List Node → Text
  | [] => []
  | node :: rest => inline place node ++ inlines place rest

end

/-- The title among the children of a heading. -/
def headingTitle (children : List Node) : Text :=
  match Node.title? children with
  | some title => inlines .heading title.children
  | none => []

end Manuscript.Html
