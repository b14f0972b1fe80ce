import Manuscript.Text.Basic
import Manuscript.Text.Numeral

/-!
Documents: trees of headings, floats, paragraphs and inline parts.
-/

namespace Manuscript

/-- The levels of headings. -/
inductive Level where
  | chapter
  | sect
  | subsect
  | subsubsect
  deriving DecidableEq

/-- The word for a level. -/
def Level.name : Level → Text
  | .chapter => "chapter"
  | .sect => "section"
  | .subsect => "subsection"
  | .subsubsect => "subsubsection"

/-- The kinds of floats. -/
inductive FloatKind where
  | figure
  | table
  | equation
  | aside
  | codelisting
  deriving DecidableEq

/-- The word for a kind of float. -/
def FloatKind.name : FloatKind → Text
  | .figure => "figure"
  | .table => "table"
  | .equation => "equation"
  | .aside => "aside"
  | .codelisting => "codelisting"

/-- How the number of a reference is shown. -/
inductive RefStyle where
  | plain
  /-- In parentheses. -/
  | equation
  deriving DecidableEq

/-- What a reference leads to. -/
structure Target where
  id : Text
  number : Text
  deriving DecidableEq

/-- The mark of a footnote: the chapter that it belongs to and its place among the footnotes there. -/
structure Mark where
  chapter : UInt32
  index : Nat
  /-- What is shown: the index or a symbol. -/
  display : Text
  deriving DecidableEq

namespace Mark

/-- The id of a footnote's text. -/
def noteId (m : Mark) : Text :=
  "cha-" ++ Text.ofNat m.chapter.toNat ++ "_footnote-" ++ Text.ofNat m.index

/-- The id of the place that a footnote is attached to. -/
def originId (m : Mark) : Text :=
  "cha-" ++ Text.ofNat m.chapter.toNat ++ "_footnote-ref-" ++ Text.ofNat m.index

end Mark

/-- What a node is. -/
inductive Kind where
  | document
  | frontmatter
  | mainmatter
  | heading (level : Level)
  | title
  | float (kind : FloatKind)
  | caption
  | paragraph
  | text (t : Text)
  | emph
  | strong
  | inlineCode
  | span
  | verbatim
  | codeBlock
  | inlineMath
  | displayMath
  | url
  | link (href : Text)
  /-- A reference to a label: what it leads to, and the linking phrase that has joined it. -/
  | ref (label : Text) (style : RefStyle) (target : Option Target) (phrase : Option Text)
  | footnote (mark : Option Mark)
  | footnoteList (chapter : UInt32)
  | footnoteItem (mark : Mark)
  | intersentenceSpace
  | lineBreak
  | list (isOrdered : Bool)
  | item
  | graphic (src : Text)
  | tableOfContents
  deriving DecidableEq

/-- What may be said of any node. -/
structure Attrs where
  id : Option Text
  label : Option Text
  isStarred : Bool
  /-- The number that the parser suggests. -/
  seq : Option Text
  classes : List Text
  deriving DecidableEq

namespace Attrs

/-- Nothing is said. -/
def none : Attrs := ⟨.none, .none, false, .none, []⟩

/-- Adds a class that is not there yet. -/
def addClass (a : Attrs) (c : Text) : Attrs :=
  if c ∈ a.classes then a else { a with classes := a.classes ++ [c] }

end Attrs

/-- A node of a document. -/
structure Node where
  kind : Kind
  attrs : Attrs
  number : Option Text
  children : List Node

namespace Node

/-- A node of which nothing is said. -/
def new (kind : Kind) (children : List Node) : Node := ⟨kind, .none, none, children⟩

mutual

/-- The text in a node. -/
def plainText : Node → Text
  | ⟨kind, _, _, children⟩ =>
    let own : Text :=
      match kind with
      | .text t => t
      | _ => []
    own ++ plainTexts children

/-- The text in some nodes. -/
def plainTexts : List Node → Text
  | [] => []
  | node :: rest => plainText node ++ plainTexts rest

end

mutual

/-- The texts in a node, in the order of the document. -/
def texts : Node → List Text
  | ⟨kind, _, _, children⟩ =>
    let own :=
      match kind with
      | .text t => [t]
      | _ => []
    own ++ textsIn children

/-- The texts in some nodes, in the order of the document. -/
def textsIn : List Node → List Text
  | [] => []
  | node :: rest => texts node ++ textsIn rest

end

/-- The title among the children of a heading. -/
def title? (children : List Node) : Option Node := children.find? fun child => child.kind = .title

/-- The number of a numbered chapter. -/
def chapterNumber? (node : Node) : Option UInt32 :=
  match node.kind, node.number with
  | .heading .chapter, some number => (Text.natBelow? Text.bound32 number).map UInt32.ofNat
  | _, _ => none

end Node

/-- A document: the nodes at its top. -/
structure Document where
  children : List Node

/-- The document as one node. -/
def Document.root (d : Document) : Node := .new .document d.children

end Manuscript
