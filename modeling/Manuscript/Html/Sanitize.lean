import Manuscript.Html.AllowList
import Manuscript.Html.Fragment

/-!
HTML from a source that is not trusted, with what is on the allow-list only.  An element that is not let through
leaves its children behind, but scripts, styles and the elements of other languages go with their content.
-/

namespace Manuscript.Html

/-- Does an element go with its content? -/
def isRemoved (space : Space) (name : Text) : Bool :=
  name ∈ (["script", "style"] : List Text) ||
    match space with
    | .html => name = "template" || AllowList.isForeignName name
    | .svg => name ≠ "svg"
    | .mathml => name ≠ "math"

/-- What every link says of the page it leads to. -/
def linkRelation : Text × Text := ("rel", "noopener noreferrer")

/-- The attributes of an element that are let through. -/
def cleanAttributes (element : Text) (attributes : List (Text × Text)) : List (Text × Text) :=
  attributes.filter (AllowList.allows element) ++ if element = "a" then [linkRelation] else []

mutual

/-- What is let through of a node. -/
def Tree.clean : Tree → List Tree
  | .text t => [.text t]
  | .element space name attributes children =>
    if isRemoved space name then []
    else if name ∈ AllowList.elements then
      [.element space name (cleanAttributes name attributes) (cleanAll children)]
    else cleanAll children

/-- What is let through of nodes. -/
def cleanAll : List Tree → List Tree
  | [] => []
  | node :: rest => node.clean ++ cleanAll rest

end

/-- The HTML with what is on the allow-list only. -/
def sanitize (t : Text) : Text := writeAll (cleanAll (fragment t))

end Manuscript.Html
