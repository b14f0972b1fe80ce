import Manuscript.Cache
import Manuscript.Document.Basic
import Manuscript.Text.Case
import Manuscript.Warning

/-!
Numbers and anchors for headings and floats, in the order of the document, and the table of labels that they
make up.

A chapter resets all other counters, a section those of the two lower levels, a subsection that of the lowest.
In an article chapters have no numbers and the numbers of sections and floats leave the chapter out.
-/

namespace Manuscript

/-- The counters, as they stand at some place of a document. -/
structure Counters where
  isArticle : Bool
  chapter : UInt32
  sect : UInt32
  subsect : UInt32
  subsubsect : UInt32
  floats : FloatKind → UInt32

namespace Counters

/-- The counters at the start of a document. -/
def start (isArticle : Bool) : Counters := ⟨isArticle, 0, 0, 0, 0, fun _ => 0⟩

/-- The numbers with points between them. -/
def dotted (parts : List UInt32) : Text := Text.join "." (parts.map fun n => Text.ofNat n.toNat)

/-- The counters that make up the number of a heading. -/
def headingParts (c : Counters) : Level → List UInt32
  | .chapter => [c.chapter]
  | .sect => [c.chapter, c.sect]
  | .subsect => [c.chapter, c.sect, c.subsect]
  | .subsubsect => [c.chapter, c.sect, c.subsect, c.subsubsect]

/-- The number of the heading that was last entered at a level. -/
def headingNumber (c : Counters) (level : Level) : Text :=
  dotted (if c.isArticle ∧ level ≠ .chapter then (c.headingParts level).tail else c.headingParts level)

/-- Counts a heading. -/
def enter (c : Counters) : Level → Counters
  | .chapter => ⟨c.isArticle, c.chapter + 1, 0, 0, 0, fun _ => 0⟩
  | .sect => { c with sect := c.sect + 1, subsect := 0, subsubsect := 0 }
  | .subsect => { c with subsect := c.subsect + 1, subsubsect := 0 }
  | .subsubsect => { c with subsubsect := c.subsubsect + 1 }

/-- The number of the float of a kind that was last counted. -/
def floatNumber (c : Counters) (kind : FloatKind) : Text :=
  if c.isArticle then Text.ofNat (c.floats kind).toNat else dotted [c.chapter, c.floats kind]

/-- A number below 2^32. -/
def number? (t : Text) : Option UInt32 := (Text.natBelow? Text.bound32 t).map UInt32.ofNat

/-- The place among the floats of its kind that a suggested number gives, if it is about this chapter. -/
def suggested? (c : Counters) (seq : Text) : Option UInt32 :=
  let seq := Text.trim seq
  if c.isArticle then number? seq
  else do
    let (chapter, ordinal) ← Text.cut? "." seq
    if (← number? chapter) = c.chapter then number? ordinal else none

/-- Counts a float.  A suggested number is taken when it leads forward; the count goes on from it. -/
def addFloat (c : Counters) (kind : FloatKind) (seq : Option Text) : Counters :=
  let next := c.floats kind + 1
  let ordinal := ((seq.bind c.suggested?).filter fun n => next ≤ n).getD next
  { c with floats := fun k => if k = kind then ordinal else c.floats k }

end Counters

/-- What a label leads to. -/
structure LabelTarget where
  /-- The number that is shown; for a heading without a number, its text. -/
  number : Text
  id : Text
  /-- The word for what is labelled. -/
  kind : Text
  deriving DecidableEq

/-- The labels of a document with what they lead to, in the order of their definitions. -/
abbrev LabelTable := List (Text × LabelTarget)

/-- What a label leads to. -/
def LabelTable.target? (labels : LabelTable) (label : Text) : Option LabelTarget := labels.lookup label

namespace Numbering

/-- The id that a heading's text gives: its letters, digits and underscores in lower case. -/
def slug (title : Text) : Text :=
  (title.filter fun c => isLetterOrNumber c || c == '_').flatMap lowerChar

/-- What is known at some place of a document. -/
structure State where
  counters : Counters
  /-- The ids of headings and floats so far. -/
  ids : List Text
  labels : LabelTable
  warnings : List Warning
  isInFront : Bool

/-- What is known at the start of a document. -/
def State.start (isArticle : Bool) : State := ⟨.start isArticle, [], [], [], false⟩

/-- The ids that may be made of one, in the order in which they are tried. -/
def candidates (ids : List Text) (base : Text) : List Text :=
  base :: (List.range (ids.length + 1)).map fun n => base ++ "-" ++ Text.ofNat (n + 2)

/-- The first id made of one that is not in use. -/
def freshId (ids : List Text) (base : Text) : Text :=
  ((candidates ids base).find? fun id => id ∉ ids).getD base

/-- Enters a label; one that is defined already keeps its first target. -/
def State.register (s : State) (label : Option Text) (target : LabelTarget) : State :=
  match label with
  | none => s
  | some label =>
    if (s.labels.target? label).isSome then
      { s with warnings := s.warnings ++ [.duplicateLabel label] }
    else { s with labels := s.labels ++ [(label, target)] }

/-- Gives a node its id: the label, or the id that it has, or else a new one. -/
def anchor (a : Attrs) (new : Text) : Text := (a.label <|> a.id).getD new

/-- Numbers a heading with the given title: its attributes, its number and what is known inside it. -/
def heading (s : State) (level : Level) (a : Attrs) (title : Text) : Attrs × Option Text × State :=
  if a.isStarred || s.isInFront || (s.counters.isArticle && level == .chapter) then
    let base := slug title
    let id := anchor a (freshId s.ids (if base = [] then level.name else base))
    let s := { s with ids := id :: s.ids }
    ({ a.addClass "unnumbered" with id := some id }, none,
      s.register a.label ⟨Text.trim title, id, level.name⟩)
  else
    let counters := s.counters.enter level
    let number := counters.headingNumber level
    let id := anchor a (level.name ++ "-" ++ number.map fun c => if c = '.' then '-' else c)
    let s := { s with counters, ids := id :: s.ids }
    ({ a with id := some id }, some number, s.register a.label ⟨number, id, level.name⟩)

/-- Numbers a float: its attributes, its number and what is known inside it. -/
def float (s : State) (kind : FloatKind) (a : Attrs) : Attrs × Option Text × State :=
  if a.isStarred then ({ a.addClass "unnumbered" with id := a.label <|> a.id }, none, s)
  else
    let counters := s.counters.addFloat kind a.seq
    let number := counters.floatNumber kind
    let id := anchor a (kind.name ++ "-" ++ number.map fun c => if c = '.' then '-' else c)
    let s := { s with counters, ids := id :: s.ids }
    ({ a with id := some id }, some number, s.register a.label ⟨number, id, kind.name⟩)

/-- What is left of a text inside a number of equations: each of them takes the tokens of labels out. -/
def stripped (cache : Cache) (equations : Nat) (t : Text) : Text :=
  Nat.repeat (fun t => (cache.takeLabels t).1) equations t

/-- The title of a heading as a reader would see it. -/
def readableTitle (cache : Cache) (equations : Nat) (children : List Node) : Text :=
  ((Node.title? children).map fun title =>
    cache.readable (title.texts.map (stripped cache equations)).flatten).getD []

/-- The label that an equation takes over from the text inside it: the first one whose token the equations
around it have left there. -/
def liftedLabel? (cache : Cache) (equations : Nat) (kind : FloatKind) (children : List Node) : Option Text :=
  if kind = .equation then
    ((Node.textsIn children).flatMap fun t => (cache.takeLabels (stripped cache equations t)).2).head?
  else none

/-- What a node's place in the document adds to what is known. -/
def enter (cache : Cache) (equations : Nat) (s : State) (kind : Kind) (a : Attrs)
    (number : Option Text) (children : List Node) : Attrs × Option Text × State :=
  match kind with
  | .frontmatter => (a, number, { s with isInFront := true })
  | .mainmatter => (a, number, { s with isInFront := false })
  | .heading level =>
    let (a, new, s) := heading s level a (readableTitle cache equations children)
    (a, new <|> number, s)
  | .float kind =>
    let lifted := liftedLabel? cache equations kind children
    let (a, new, s) := float s kind { a with label := a.label <|> lifted }
    (a, new <|> number, s)
  | _ => (a, number, s)

/-- The front matter ends with its node. -/
def leave (kind : Kind) (outer inner : State) : State :=
  match kind with
  | .frontmatter => { inner with isInFront := outer.isInFront }
  | _ => inner

mutual

/-- Numbers a node and all inside it.  The tokens of labels are taken out of the text inside equations, of which
there are `equations` around the node. -/
def node (cache : Cache) (equations : Nat) (s : State) : Node → Node × State
  | ⟨kind, a, number, children⟩ =>
    let (a, number, inner) := enter cache equations s kind a number children
    let (children, inner) :=
      nodes cache (if kind = .float .equation then equations + 1 else equations) inner children
    let kind :=
      match kind with
      | .text t => .text (stripped cache equations t)
      | kind => kind
    (⟨kind, a, number, children⟩, leave kind s inner)

/-- Numbers some nodes and all inside them. -/
def nodes (cache : Cache) (equations : Nat) (s : State) : List Node → List Node × State
  | [] => ([], s)
  | first :: rest =>
    let (first, s) := node cache equations s first
    let (rest, s) := nodes cache equations s rest
    (first :: rest, s)

end

end Numbering

/-- The document with its headings and floats numbered, the labels, and what is wrong with them. -/
def Document.number (d : Document) (cache : Cache) (isArticle : Bool) :
    Document × LabelTable × List Warning :=
  let (children, s) := Numbering.nodes cache 0 (.start isArticle) d.children
  (⟨children⟩, s.labels, s.warnings)

end Manuscript
