import Manuscript.Document.Basic
import Manuscript.Json.Reader
import Manuscript.Text.Case

/-!
The words of a document's language: what chapters, floats and the outline are called, and which words may join
the reference that follows them.
-/

namespace Manuscript

/-- Where the word for a chapter goes. -/
inductive WordOrder where
  /-- Before the number. -/
  | standard
  /-- After the number. -/
  | reverse
  deriving DecidableEq

/-- The words of a language. -/
structure Words where
  chapter : Text
  order : WordOrder
  sect : Text
  figure : Text
  table : Text
  equation : Text
  aside : Text
  listing : Text
  contents : Text
  deriving DecidableEq

namespace Words

/-- The words of English. -/
def default : Words :=
  ⟨"Chapter", .standard, "Section", "Figure", "Table", "Equation", "Box", "Listing", "Contents"⟩

/-- The word for a kind of float. -/
def floatWord (w : Words) : FloatKind → Text
  | .figure => w.figure
  | .table => w.table
  | .equation => w.equation
  | .aside => w.aside
  | .codelisting => w.listing

/-- The number of a chapter with its word. -/
def chapterBadge (w : Words) (number : Text) : Text :=
  match w.order with
  | .standard => w.chapter ++ " " ++ number
  | .reverse => number ++ " " ++ w.chapter

/-- The words that may join a reference, the longest first: a word may be the end of another. -/
def linkingWords (w : Words) : List Text :=
  ([w.chapter, w.sect, w.figure, w.table, w.equation, w.aside, w.listing].filter (· ≠ [])).mergeSort
    fun a b => b.length ≤ a.length

/-- The characters that may stand between a linking word and a reference. -/
def separators : List Char := [' ', '\u00A0', '~']

/-- Splits a text after a number of bytes, if a character ends there. -/
def splitAtByte? (bytes : Nat) : Text → Option (Text × Text)
  | [] => if bytes = 0 then some ([], []) else none
  | c :: t =>
    if bytes = 0 then some ([], c :: t)
    else if bytes < c.utf8Size then none
    else (splitAtByte? (bytes - c.utf8Size) t).map fun (head, tail) => (c :: head, tail)

/-- Splits a linking word off the end of a text, letter case ignored.  A text whose length changes with its
case is not split; the word has to be delimited from a word before it. -/
def splitWord? (before word : Text) : Option (Text × Text) := do
  let lowerBefore := Text.lower before
  let lowerWord := Text.lower word
  if !Text.endsWith lowerWord lowerBefore || Text.byteLength lowerBefore != Text.byteLength before then none
  let (head, tail) ← splitAtByte? (Text.byteLength before - Text.byteLength lowerWord) before
  if head.getLast?.all fun c => !isLetterOrNumber c then some (head, tail) else none

/-- Splits a linking phrase, a word and a separator, off the end of a text. -/
def splitPhrase? (w : Words) (t : Text) : Option (Text × Text) := do
  let separator ← t.getLast?
  if separator ∉ separators then none
  let (head, tail) ← w.linkingWords.findSome? (splitWord? t.dropLast)
  return (head, tail ++ [separator])

/-- The text of a JSON string. -/
def textOf? : Json → Option Text
  | .string value => value
  | _ => none

/-- The order that a JSON value names. -/
def orderOfName? (name : Text) : Option WordOrder :=
  if name = "standard" then some .standard else if name = "reverse" then some .reverse else none

/-- The order that a JSON value stands for: its name, or an object with that name as its only key. -/
def orderOf? : Json → Option WordOrder
  | .string (some name) => orderOfName? name
  | .object [(some name, .null)] => orderOfName? name
  | _ => none

/-- Pairs the values of a JSON object or array with the names of the fields that they set.  An array gives the
fields in their order and must not be longer. -/
def fieldValues? (names : List Text) : Json → Option (List (Text × Json))
  | .object members => members.mapM fun (key, value) => key.map fun key => (key, value)
  | .array items => if items.length ≤ names.length then some (names.zip items) else none
  | _ => none

/-- The fields of the word for a chapter. -/
def chapterFields : List Text := ["word", "order"]

/-- Sets a field of the word for a chapter; other fields mean nothing. -/
def setChapterField? (w : Words) (f : Text × Json) : Option Words :=
  if f.1 = "word" then (textOf? f.2).map fun t => { w with chapter := t }
  else if f.1 = "order" then (orderOf? f.2).map fun order => { w with order }
  else some w

/-- The fields of the words. -/
def fields : List Text :=
  ["chapter", "section", "figure", "table", "equation", "aside", "listing", "contents"]

/-- Sets a field of the words; other fields mean nothing. -/
def setField? (w : Words) (f : Text × Json) : Option Words :=
  if f.1 = "chapter" then do
    let values ← fieldValues? chapterFields f.2
    values.foldlM setChapterField? { w with chapter := default.chapter, order := default.order }
  else if f.1 ∈ fields then do
    let t ← textOf? f.2
    if f.1 = "section" then some { w with sect := t }
    else if f.1 = "figure" then some { w with figure := t }
    else if f.1 = "table" then some { w with table := t }
    else if f.1 = "equation" then some { w with equation := t }
    else if f.1 = "aside" then some { w with aside := t }
    else if f.1 = "listing" then some { w with listing := t }
    else some { w with contents := t }
  else some w

/-- The words that a JSON value stands for; fields that are missing keep the words of English. -/
def ofJson? (j : Json) : Option Words := do
  let values ← fieldValues? fields j
  values.foldlM setField? default

end Words

end Manuscript
