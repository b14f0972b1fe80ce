import Manuscript.Document.Basic
import Manuscript.Xml.Tree

/-!
The document that an XML tree stands for.  An element with a name of no meaning becomes a span with that name
as its class, so that nothing is lost.
-/

namespace Manuscript.Document

/-- The value of an attribute. -/
def attribute? (attributes : List (Text × Text)) (name : Text) : Option Text := attributes.lookup name

/-- The kinds that need no attributes, each with the elements that stand for it. -/
def kindTable : List (Kind × List Text) :=
  [(.frontmatter, ["frontmatter"]), (.mainmatter, ["mainmatter"]), (.heading .chapter, ["chapter"]),
   (.heading .sect, ["section"]), (.heading .subsect, ["subsection"]),
   (.heading .subsubsect, ["subsubsection"]), (.title, ["title", "head"]), (.float .figure, ["figure"]),
   (.float .table, ["table"]), (.float .equation, ["equation", "align", "gather", "multline", "eqnarray"]),
   (.float .aside, ["aside"]), (.float .codelisting, ["codelisting"]), (.caption, ["caption"]),
   (.paragraph, ["p"]), (.emph, ["em", "emph"]), (.strong, ["strong", "textbf"]),
   (.inlineCode, ["tt", "code"]), (.verbatim, ["verbatim"]), (.codeBlock, ["codeblock"]),
   (.inlineMath, ["math", "inlinemath"]), (.displayMath, ["displaymath"]), (.url, ["url"]),
   (.footnote none, ["footnote"]), (.intersentenceSpace, ["intersentencespace"]), (.lineBreak, ["br"]),
   (.list false, ["itemize", "ul"]), (.list true, ["enumerate", "ol"]), (.item, ["item", "li"]),
   (.tableOfContents, ["tableofcontents"])]

/-- The elements in which text of blanks alone says nothing. -/
def blockContainers : List Text :=
  ["document", "frontmatter", "mainmatter", "chapter", "section", "subsection", "subsubsection",
   "figure", "table", "equation", "aside", "codelisting", "itemize", "enumerate", "ul", "ol"]

/-- The reference that an element with some text in it stands for. -/
def refKind (style : RefStyle) (attributes : List (Text × Text)) (text : Text) : Kind :=
  .ref ((attribute? attributes "target").getD (Text.trim text)) style none none

/-- The kind of an element with some text in it. -/
def kindOf (name : Text) (attributes : List (Text × Text)) (text : Text) : Kind :=
  if name = "ref" then refKind .plain attributes text
  else if name = "eqref" then refKind .equation attributes text
  else if name = "a" ∨ name = "link" then .link ((attribute? attributes "href").getD [])
  else if name = "img" ∨ name = "graphic" then
    .graphic (((attribute? attributes "src") <|> (attribute? attributes "file")).getD [])
  else ((kindTable.find? fun row => name ∈ row.2).map Prod.fst).getD .span

/-- The values of the attribute `starred` that star an element. -/
def starValues : List Text := ["true", "yes", "1"]

/-- The attributes of the node that an element becomes. -/
def attrsOf (name : Text) (kind : Kind) (attributes : List (Text × Text)) : Attrs :=
  let own : List Text := if kind = .span ∧ name ≠ "span" then [name] else []
  let given := Text.words ((attribute? attributes "class").getD [])
  let plain : Attrs :=
    ⟨attribute? attributes "id", attribute? attributes "label",
      (attribute? attributes "starred").any (· ∈ starValues),
      (attribute? attributes "seq") <|> (attribute? attributes "id-text"), []⟩
  (own ++ given).foldl Attrs.addClass plain

/-- Is the kind a reference? -/
def isRef : Kind → Bool
  | .ref .. => true
  | _ => false

mutual

/-- The node that an XML node stands for. -/
def nodeOfXml : Xml → Node
  | .text t => .new (.text t) []
  | .element name attributes children =>
    let kind := kindOf name attributes (Xml.allTexts children)
    let nodes := nodesOfXml (name ∈ blockContainers) children
    ⟨kind, attrsOf name kind attributes, none, if isRef kind then [] else nodes⟩

/-- The nodes that some XML nodes stand for; in a block container, blanks between them are dropped. -/
def nodesOfXml (isBlock : Bool) : List Xml → List Node
  | [] => []
  | child :: rest =>
    let isDropped :=
      match child with
      | .text t => isBlock && Text.isBlankOnly t
      | .element .. => false
    if isDropped then nodesOfXml isBlock rest else nodeOfXml child :: nodesOfXml isBlock rest

end

/-- The document that an XML tree stands for; a root element named `document` is the document itself. -/
def ofXml : Xml → Document
  | .text t => ⟨[nodeOfXml (.text t)]⟩
  | .element name attributes children =>
    if name = "document" then ⟨nodesOfXml true children⟩
    else ⟨[nodeOfXml (.element name attributes children)]⟩

/-- The document that an XML text stands for. -/
def parse? (t : Text) : Option Document := (Xml.parse? t).map ofXml

end Manuscript.Document
