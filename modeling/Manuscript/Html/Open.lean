import Manuscript.Html.Token
import Manuscript.Html.Tree

/-!
The elements that are open while a tree is built, innermost first, each with the children that it has so far.
The last one is the root and stays open.

An element can lose its place among the open ones and still be around others that keep theirs; such an element
is marked as left, counts nowhere, and is closed together with the element inside it.
-/

namespace Manuscript.Html

/-- An element around the place where nodes are added. -/
structure Frame where
  /-- Tells the element from others with the same tag. -/
  serial : Nat
  space : Space
  name : Text
  attributes : List (Text × Text)
  /-- The children so far, backwards. -/
  children : List Tree
  /-- The element goes before the innermost table instead of into the element around it. -/
  isFostered : Bool
  isLeft : Bool

namespace Frame

/-- The element, all of whose children have been added. -/
def tree (f : Frame) : Tree := .element f.space f.name f.attributes f.children.reverse

/-- Adds a child. -/
def add (f : Frame) (child : Tree) : Frame := { f with children := child :: f.children }

/-- Is it an element of HTML with one of the names? -/
def isNamed (f : Frame) (names : List Text) : Bool := f.space = .html && f.name ∈ names

/-- Is it an open element of HTML with one of the names? -/
def isOpen (f : Frame) (names : List Text) : Bool := !f.isLeft && f.isNamed names

end Frame

/-- The frames at some place, innermost first. -/
abbrev Frames := List Frame

namespace Frames

/-- Adds a node to the innermost element. -/
def add (frames : Frames) (node : Tree) : Frames :=
  match frames with
  | [] => []
  | f :: rest => f.add node :: rest

/-- Adds a node before the innermost table, or to the root when there is none. -/
def addFostered (frames : Frames) (node : Tree) : Frames :=
  match frames with
  | [] => []
  | [root] => [root.add node]
  | f :: rest => if f.isOpen ["table"] then f :: add rest node else f :: addFostered rest node

/-- Adds a node where it belongs. -/
def place (frames : Frames) (isFostered : Bool) (node : Tree) : Frames :=
  if isFostered then addFostered frames node else add frames node

/-- Closes a number of elements; the root is not closed. -/
def close : (count : Nat) → Frames → Frames
  | count + 1, f :: g :: rest => close count (place (g :: rest) f.isFostered f.tree)
  | _, frames => frames

/-- Closes a number of elements, and those around them that have been left. -/
def finish (frames : Frames) (count : Nat) : Frames :=
  close (count + ((List.drop count frames).takeWhile Frame.isLeft).length) frames

/-- Closes the innermost elements that satisfy `p`. -/
def finishWhile (frames : Frames) (p : Frame → Bool) : Frames :=
  frames.finish (frames.takeWhile fun f => f.isLeft || p f).length

/-- Closes elements up to and with the innermost open one that satisfies `p`. -/
def finishThrough (frames : Frames) (p : Frame → Bool) : Frames :=
  frames.finish ((frames.takeWhile fun f => f.isLeft || !p f).length + 1)

/-- Is the innermost element one with one of the names? -/
def topIs (frames : Frames) (names : List Text) : Bool := frames.head?.any fun f => f.isNamed names

/-- Is an element with one of the names open, with no barrier before it? -/
def hasBefore (frames : Frames) (isBarrier : Frame → Bool) (names : List Text) : Bool :=
  match frames with
  | [] => false
  | f :: rest =>
    if f.isLeft then hasBefore rest isBarrier names
    else if f.isNamed names then true
    else if isBarrier f then false
    else hasBefore rest isBarrier names

/-- The parts of mathematics that hold text. -/
def mathTextElements : List Text := ["mi", "mo", "mn", "ms", "mtext"]

/-- The parts of graphics that hold HTML. -/
def svgTextElements : List Text := ["foreignobject", "desc", "title"]

/-- The elements that nothing inside them reaches beyond. -/
def isBarrier (f : Frame) : Bool :=
  match f.space with
  | .html =>
    f.name ∈ (["applet", "caption", "html", "table", "td", "th", "marquee", "object", "template"] : List Text)
  | .mathml => f.name ∈ mathTextElements || f.name = "annotation-xml"
  | .svg => f.name ∈ svgTextElements

/-- Is an element with one of the names in scope? -/
def hasInScope (frames : Frames) (names : List Text) : Bool := frames.hasBefore isBarrier names

/-- Is an element in scope, buttons being barriers too? -/
def hasInButtonScope (frames : Frames) (names : List Text) : Bool :=
  frames.hasBefore (fun f => isBarrier f || f.isNamed ["button"]) names

/-- Is an element in scope, lists being barriers too? -/
def hasInListScope (frames : Frames) (names : List Text) : Bool :=
  frames.hasBefore (fun f => isBarrier f || f.isNamed ["ol", "ul"]) names

/-- Is an element in scope, tables being the only barriers? -/
def hasInTableScope (frames : Frames) (names : List Text) : Bool :=
  frames.hasBefore (·.isNamed ["html", "table", "template"]) names

/-- Is an element in scope, all but options being barriers? -/
def hasInSelectScope (frames : Frames) (names : List Text) : Bool :=
  frames.hasBefore (fun f => !f.isNamed ["optgroup", "option"]) names

/-- The elements whose end need not be written. -/
def impliedEnds : List Text := ["dd", "dt", "li", "optgroup", "option", "p", "rb", "rp", "rt", "rtc"]

/-- Closes the innermost elements whose end need not be written, but none with the name. -/
def finishImplied (frames : Frames) (name : Text) : Frames :=
  frames.finishWhile fun f => f.isNamed impliedEnds && f.name ≠ name

/-- Closes elements up to and with one of the names, of which those whose end need not be written come
first. -/
def closeNamed (frames : Frames) (names : List Text) : Frames :=
  (frames.finishImplied []).finishThrough (·.isNamed names)

/-- Closes a paragraph in scope. -/
def closeParagraph (frames : Frames) : Frames :=
  if frames.hasInButtonScope ["p"] then frames.finishThrough (·.isNamed ["p"]) else frames

/-- Takes an element out of the open ones; those inside it stay open. -/
def leave (frames : Frames) (serial : Nat) : Frames :=
  match frames with
  | [] => []
  | f :: rest =>
    if f.serial = serial then finish (f :: rest) 1
    else f :: rest.map fun g => if g.serial = serial then { g with isLeft := true } else g

/-- Is the element with the serial open? -/
def hasSerial (frames : Frames) (serial : Nat) : Bool :=
  frames.any fun f => f.serial = serial && !f.isLeft

end Frames

end Manuscript.Html
