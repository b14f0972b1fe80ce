import Manuscript.Html.Body
import Manuscript.Proofs.Document.Forest

/-!
The footnotes and the items of their lists that a document shows.  A footnote is not shown in a title, nor where only
the text of a node counts; an item is shown where its list is a block.
-/

namespace Manuscript

/-- An end of the links between a footnote's origin and its text. -/
inductive FootnoteEnd where
  | origin (mark : Mark)
  | note (mark : Mark)
  deriving DecidableEq

/-- The mark of an origin. -/
def FootnoteEnd.origin? : FootnoteEnd → Option Mark
  | .origin mark => some mark
  | .note _ => none

/-- The mark of a note. -/
def FootnoteEnd.note? : FootnoteEnd → Option Mark
  | .origin _ => none
  | .note mark => some mark

/-- What a footnote shows, given what its content shows. -/
def footnoteEnds (place : Html.Place) (mark : Option Mark) (content : List FootnoteEnd) : List FootnoteEnd :=
  match place, mark with
  | .heading, _ => []
  | .body, some mark => [.origin mark]
  | .body, none => content

mutual

/-- The origins of footnotes that a node shows within a line. -/
def Node.inlineEnds (place : Html.Place) : Node → List FootnoteEnd
  | ⟨kind, _, _, children⟩ =>
    match kind with
    | .footnote mark => footnoteEnds place mark (Forest.inlineEnds place children)
    | .text _ | .url | .ref .. | .intersentenceSpace | .lineBreak | .graphic _ | .tableOfContents | .footnoteList _
    | .footnoteItem _ => []
    | _ => Forest.inlineEnds place children

/-- The origins of footnotes that some nodes show within a line. -/
def Forest.inlineEnds (place : Html.Place) : List Node → List FootnoteEnd
  | [] => []
  | n :: rest => n.inlineEnds place ++ Forest.inlineEnds place rest

end

namespace Forest

/-- A title shows no footnotes. -/
theorem inlineEnds_heading (l : List Node) : inlineEnds .heading l = [] := by
  induction l using Forest.induction with
  | nil => rfl
  | cons n rest ihChildren ihRest =>
      rw [inlineEnds, ihRest, List.append_nil]
      obtain ⟨kind, a, number, children⟩ := n
      cases kind with
      | footnote mark => cases mark <;> rfl
      | _ => first | rfl | exact ihChildren

/-- What is shown within a line are no items. -/
theorem notes_inlineEnds (place : Html.Place) (l : List Node) :
    (inlineEnds place l).filterMap FootnoteEnd.note? = [] := by
  induction l using Forest.induction with
  | nil => rfl
  | cons n rest ihChildren ihRest =>
      rw [inlineEnds, List.filterMap_append, ihRest, List.append_nil]
      obtain ⟨kind, a, number, children⟩ := n
      cases kind with
      | footnote mark => cases place <;> cases mark <;> first | rfl | exact ihChildren
      | _ => first | rfl | exact ihChildren

/-- The items that a list of footnotes shows, with the footnotes in them. -/
def noteEnds (children : List Node) : List FootnoteEnd :=
  children.flatMap fun child =>
    match child.kind with
    | .footnoteItem mark => .note mark :: inlineEnds .body child.children
    | _ => []

/-- What an item shows, given what its children show as blocks. -/
def itemEndsOf (children : List Node) (asBlocks : List FootnoteEnd) : List FootnoteEnd :=
  if children.any Html.isBlock then asBlocks else inlineEnds .body children

end Forest

mutual

/-- The footnotes and items that a node shows as a block. -/
def Node.blockEnds : Node → List FootnoteEnd
  | ⟨kind, a, number, children⟩ =>
    match kind with
    | .document | .frontmatter | .mainmatter | .heading _ | .float _ => Forest.blockEnds children
    | .title | .footnoteItem _ | .verbatim | .codeBlock | .tableOfContents => []
    | .caption | .paragraph | .displayMath => Forest.inlineEnds .body children
    | .list _ => Forest.itemsEnds children
    | .item => Forest.itemEndsOf children (Forest.blockEnds children)
    | .footnoteList _ => Forest.noteEnds children
    | kind => Node.inlineEnds .body ⟨kind, a, number, children⟩

/-- The footnotes and items that some nodes show as blocks. -/
def Forest.blockEnds : List Node → List FootnoteEnd
  | [] => []
  | n :: rest => n.blockEnds ++ Forest.blockEnds rest

/-- The footnotes and items that a node shows as an item of a list. -/
def Node.itemEnds : Node → List FootnoteEnd
  | ⟨_, _, _, children⟩ => Forest.itemEndsOf children (Forest.blockEnds children)

/-- The footnotes and items that some nodes show as items of a list. -/
def Forest.itemsEnds : List Node → List FootnoteEnd
  | [] => []
  | n :: rest => n.itemEnds ++ Forest.itemsEnds rest

end

end Manuscript
