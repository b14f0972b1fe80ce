import Manuscript.Html.Escape

/-!
Trees of HTML, and how they are written.
-/

namespace Manuscript.Html

/-- The language that an element belongs to. -/
inductive Space where
  | html
  | svg
  | mathml
  deriving DecidableEq

/-- A node of an HTML tree. -/
inductive Tree where
  | text (t : Text)
  | element (space : Space) (name : Text) (attributes : List (Text × Text)) (children : List Tree)

/-- The elements that hold nothing and are not ended. -/
def voidElements : List Text :=
  ["area", "base", "basefont", "bgsound", "br", "col", "embed", "frame", "hr", "img", "input", "keygen",
   "link", "meta", "param", "source", "track", "wbr"]

/-- A character with its reference, where it needs one; a no-break space has one too. -/
def writtenCharacter (isInAttribute : Bool) (c : Char) : Text :=
  if c = '\u00A0' then "&nbsp;" else if isInAttribute then attributeCharacter c else textCharacter c

/-- The attributes of a tag as they are written. -/
def writeAttributes (attributes : List (Text × Text)) : Text :=
  attributes.flatMap fun (name, value) =>
    (" " ++ name ++ "=\"" ++ value.flatMap (writtenCharacter true) ++ "\"" : Text)

mutual

/-- A node as it is written. -/
def Tree.write : Tree → Text
  | .text t => t.flatMap (writtenCharacter false)
  | .element _ name attributes children =>
    let opening := "<" ++ name ++ writeAttributes attributes ++ ">"
    if name ∈ voidElements then opening
    else opening ++ writeAll children ++ ("</" ++ name ++ ">")

/-- Nodes as they are written. -/
def writeAll : List Tree → Text
  | [] => []
  | node :: rest => node.write ++ writeAll rest

end

end Manuscript.Html
