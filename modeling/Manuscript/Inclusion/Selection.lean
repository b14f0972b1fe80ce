import Manuscript.Text.Numeral

/-!
Selecting lines of a file: by a list of numbers and ranges, or by the comments that begin and end a named
part.
-/

namespace Manuscript.Inclusion

/-- The lines numbered from `first` to `last`, or none when `last` comes before `first`. -/
def lineRange (lines : List Text) (first last : Nat) : List Text := (lines.take last).drop (first - 1)

/-- Reads a line number. -/
def lineNumber? (t : Text) : Option Nat := Text.natBelow? Text.bound64 (Text.trim t)

/-- The lines that one part of a line specification selects: a number, or a range that may run backwards. -/
def selectRange (lines : List Text) (spec : Text) : List Text :=
  match Text.cut? "-" spec with
  | none =>
    match lineNumber? spec with
    | some n => if n = 0 then [] else lineRange lines n n
    | none => []
  | some (first, last) =>
    match lineNumber? first, lineNumber? last with
    | some first, some last =>
      if first ≤ last then lineRange lines first last else (lineRange lines last first).reverse
    | _, _ => []

/-- The lines that a line specification selects, in the order of its parts. -/
def selectLines (lines : List Text) (spec : Text) : List Text :=
  (spec.splitOn ',').flatMap (selectRange lines)

/-- The openings of comments. -/
def commentOpenings : List Text := ["<!--", "/*", "//", "--", "#", "%", ";"]

/-- A comment that delimits a part of a file. -/
inductive PartMark where
  | opens (name : Text)
  | closes
  deriving DecidableEq

/-- The text of a comment line. -/
def commentText? (line : Text) : Option Text :=
  (commentOpenings.findSome? fun opening => Text.after? opening (Text.trim line)).map fun body =>
    Text.trim (Text.trimEndCopies "*/" (Text.trimEndCopies "-->" (Text.trim body)))

/-- Reads a comment that delimits a part of a file. -/
def partMark? (line : Text) : Option PartMark :=
  match (commentText? line).map Text.words with
  | some (word :: rest) =>
    if word = "begin" then rest.head?.map .opens
    else if word = "end" then some .closes
    else none
  | _ => none

/-- The lines up to the comment that closes a part, of which `inner` parts inside are open. -/
def partBody : (inner : Nat) → List Text → List Text
  | _, [] => []
  | inner, line :: rest =>
    match partMark? line, inner with
    | some (.opens _), inner => line :: partBody (inner + 1) rest
    | some .closes, 0 => []
    | some .closes, inner + 1 => line :: partBody inner rest
    | none, inner => line :: partBody inner rest

/-- The lines of a named part; one that is not closed runs to the end of the file. -/
def selectPart? (lines : List Text) (name : Text) : Option (List Text) :=
  match lines.dropWhile fun line => partMark? line ≠ some (.opens name) with
  | [] => none
  | _ :: rest => some (partBody 0 rest)

end Manuscript.Inclusion
