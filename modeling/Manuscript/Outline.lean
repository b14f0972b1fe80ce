import Manuscript.Html.Inline

/-!
The outline of a document: its headings down to subsections, and the nested lists that show them.
-/

namespace Manuscript

/-- A heading of the outline. -/
structure OutlineEntry where
  depth : Nat
  level : Level
  id : Text
  number : Option Text
  /-- The title in HTML. -/
  title : Text
  deriving DecidableEq

/-- The headings of a document, in order. -/
abbrev Outline := List OutlineEntry

namespace Outline

/-- How deep the headings of a level lie in the outline. -/
def depth? (isArticle : Bool) : Level → Option Nat
  | .chapter => if isArticle then none else some 1
  | .sect => some (if isArticle then 1 else 2)
  | .subsect => some (if isArticle then 2 else 3)
  | .subsubsect => none

/-- The entry of a node that is a heading with an id. -/
def ofHeading? (isArticle : Bool) (kind : Kind) (a : Attrs) (number : Option Text) (children : List Node) :
    Option OutlineEntry := do
  let level ← match kind with
    | .heading level => some level
    | _ => none
  let depth ← depth? isArticle level
  let id ← a.id
  return ⟨depth, level, id, number, Html.headingTitle children⟩

mutual

/-- The headings in a node. -/
def ofNode (isArticle : Bool) : Node → Outline
  | ⟨kind, a, number, children⟩ =>
    (ofHeading? isArticle kind a number children).toList ++ ofNodes isArticle children

/-- The headings in some nodes. -/
def ofNodes (isArticle : Bool) : List Node → Outline
  | [] => []
  | node :: rest => ofNode isArticle node ++ ofNodes isArticle rest

end

/-- Ends the item and the list at each of some levels. -/
def closeLists (levels : Nat) : Text := (List.replicate levels ("</li>\n</ul>\n" : Text)).flatten

/-- Begins a list at each of some levels; an item without a heading holds each list but the first. -/
def openLists : (levels : Nat) → Text
  | 0 => []
  | 1 => "<ul>\n"
  | levels + 2 => "<ul>\n<li>\n" ++ openLists (levels + 1)

/-- The link of an entry. -/
def entryLink (e : OutlineEntry) : Text :=
  let number : Text :=
    match e.number with
    | some number => "<span class=\"number\">" ++ number ++ "</span> "
    | none => []
  "<li class=\"" ++ e.level.name ++ "\"><a href=\"#" ++ Html.escapeAttribute e.id ++
    "\" class=\"heading\">" ++ number ++ e.title ++ "</a>\n"

/-- What leads from an entry at one depth to the next entry at another: lists and items are ended and
begun. -/
def between (depth next : Nat) : Text :=
  let ended : Text := if next ≤ depth ∧ 0 < next then "</li>\n" else []
  closeLists (depth - next) ++ ended ++ openLists (next - depth)

/-- The items of some entries, inside lists of a depth, and the ends of all lists. -/
def items : (depth : Nat) → Outline → Text
  | depth, [] => closeLists depth
  | depth, e :: rest => between depth e.depth ++ entryLink e ++ items e.depth rest

/-- The outline in HTML. -/
def html (o : Outline) : Text := "<div id=\"table_of_contents\">\n" ++ items 0 o ++ "</div>"

end Outline

/-- The outline of a document. -/
def Document.outline (d : Document) (isArticle : Bool) : Outline := Outline.ofNodes isArticle d.children

end Manuscript
