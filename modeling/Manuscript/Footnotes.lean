import Manuscript.Document.Basic
import Manuscript.SortedMap

/-!
Footnotes: they are counted by chapter, and their contents are moved to a list before the next numbered
chapter or at the end of the document.

A footnote belongs to the nearest numbered chapter that precedes or encloses it; those before the first one
belong to chapter 0.
-/

namespace Manuscript

/-- How footnotes are marked. -/
inductive FootnoteStyle where
  | numbered
  | symbols
  deriving DecidableEq

namespace Footnotes

/-- The symbols, in the order in which they are used. -/
def symbols : List Text := ["*", "†", "‡", "§", "¶", "‖", "**", "††", "‡‡"]

/-- The symbol of a footnote; they are used over again when they run out. -/
def symbol (index : Nat) : Text := symbols.getD ((max index 1 - 1) % symbols.length) []

/-- What is shown for a footnote. -/
def display (style : FootnoteStyle) (index : Nat) : Text :=
  match style with
  | .numbered => Text.ofNat index
  | .symbols => symbol index

/-- A footnote with its content. -/
structure Note where
  mark : Mark
  content : List Node

/-- The footnotes of each chapter, in order. -/
abbrev Notes := SortedMap UInt32 (List Note)

/-- The footnotes of a chapter. -/
def Notes.of (notes : Notes) (chapter : UInt32) : List Note := (notes.get? chapter).getD []

/-- How many footnotes there are. -/
def Notes.count (notes : Notes) : Nat := notes.toList.foldl (fun n p => n + p.2.length) 0

/-- What has been collected up to some place of a document. -/
structure State where
  chapter : UInt32
  notes : Notes

namespace State

/-- Counts a footnote of the chapter; its content follows later. -/
def add (s : State) (style : FootnoteStyle) : Mark × State :=
  let notes := s.notes.of s.chapter
  let index := notes.length + 1
  let mark : Mark := ⟨s.chapter, index, display style index⟩
  (mark, { s with notes := s.notes.insert s.chapter (notes ++ [⟨mark, []⟩]) })

/-- Sets the content of the footnote with an index in the chapter, if there is one. -/
def fill (s : State) (index : Nat) (content : List Node) : State :=
  match s.notes.get? s.chapter with
  | none => s
  | some notes =>
    { s with notes := s.notes.insert s.chapter (notes.modify (index - 1) ({ · with content })) }

end State

/-- Is the node a footnote? -/
def isFootnote (n : Node) : Bool :=
  match n.kind with
  | .footnote _ => true
  | _ => false

/-- Is the node an inter-sentence space? -/
def isSpaceMark (n : Node) : Bool := n.kind = .intersentenceSpace

/-- An inter-sentence space. -/
def spaceMark : Node := .new .intersentenceSpace []

/-- The characters that may stand between the end of a sentence and the end of a text. -/
def sentenceClosers : List Char := [')', '\'', '"', '’', '”', ']']

/-- Does the node end a sentence? -/
def endsSentence (n : Node) : Bool :=
  match n.kind with
  | .text t =>
    let t := Text.trimEndWhere sentenceClosers.contains (Text.trimEnd t)
    t.getLast?.any fun c => c == '.' || c == '?' || c == '!'
  | _ => false

/-- Is the node more than blanks and inter-sentence spaces? -/
def isSubstance (n : Node) : Bool :=
  match n.kind with
  | .text t => !Text.isBlankOnly t
  | .intersentenceSpace => false
  | _ => true

/-- The siblings with an inter-sentence space after each footnote that ends a sentence and has something
after it, and with none after a footnote that ends no sentence.  `before` is the sibling before them. -/
def spaceSentences (before : Option Node) : List Node → List Node
  | [] => []
  | [n] => [n]
  | n :: next :: rest =>
    if !isFootnote n then n :: spaceSentences (some n) (next :: rest)
    else if before.any endsSentence then
      if (next :: rest).any isSubstance && !isSpaceMark next then
        n :: spaceMark :: spaceSentences (some spaceMark) (next :: rest)
      else n :: spaceSentences (some n) (next :: rest)
    else if isSpaceMark next then n :: spaceSentences (some n) rest
    else n :: spaceSentences (some n) (next :: rest)

mutual

/-- Collects the footnotes of a node: the node with marks in place of their contents.  The content of a
footnote is filed after the footnotes inside it have been counted. -/
def node (style : FootnoteStyle) (s : State) : Node → Node × State
  | ⟨kind, a, number, children⟩ =>
    let s := { s with chapter := (Node.chapterNumber? ⟨kind, a, number, []⟩).getD s.chapter }
    match kind with
    | .footnote _ =>
      let (mark, s) := s.add style
      let (content, s) := nodes style s children
      (⟨.footnote (some mark), a, number, []⟩, s.fill mark.index (spaceSentences none content))
    | kind =>
      let (children, s) := nodes style s children
      (⟨kind, a, number, spaceSentences none children⟩, s)

/-- Collects the footnotes of some nodes. -/
def nodes (style : FootnoteStyle) (s : State) : List Node → List Node × State
  | [] => ([], s)
  | first :: rest =>
    let (first, s) := node style s first
    let (rest, s) := nodes style s rest
    (first :: rest, s)

end

/-- A list of the footnotes of a chapter. -/
def listNode (chapter : UInt32) (notes : List Note) : Node :=
  .new (.footnoteList chapter) (notes.map fun note => .new (.footnoteItem note.mark) note.content)

/-- The lists of the chapters in `notes`. -/
def listNodes (notes : List (UInt32 × List Note)) : List Node :=
  notes.map fun (chapter, notes) => listNode chapter notes

/-- Splits off the footnotes of the chapters before a numbered chapter. -/
def due (notes : List (UInt32 × List Note)) (n : Node) :
    List (UInt32 × List Note) × List (UInt32 × List Note) :=
  match n.chapterNumber? with
  | some chapter => (notes.filter fun p => p.1 < chapter, notes.filter fun p => ¬ p.1 < chapter)
  | none => ([], notes)

mutual

/-- Puts lists before the numbered chapters inside a node; what is inside a footnote is left alone. -/
def placeIn (notes : List (UInt32 × List Note)) : Node → Node × List (UInt32 × List Note)
  | ⟨kind, a, number, children⟩ =>
    match kind with
    | .footnote _ => (⟨kind, a, number, children⟩, notes)
    | kind =>
      let (children, notes) := place notes children
      (⟨kind, a, number, children⟩, notes)

/-- Puts lists before the numbered chapters among some nodes and inside them. -/
def place (notes : List (UInt32 × List Note)) : List Node → List Node × List (UInt32 × List Note)
  | [] => ([], notes)
  | first :: rest =>
    let (lists, notes) := due notes first
    let (first, notes) := placeIn notes first
    let (rest, notes) := place notes rest
    (listNodes lists ++ first :: rest, notes)

end

end Footnotes

/-- The document with the contents of its footnotes in lists, and how many footnotes there are. -/
def Document.placeFootnotes (d : Document) (style : FootnoteStyle) : Document × Nat :=
  let (children, s) := Footnotes.nodes style ⟨0, .empty⟩ d.children
  let (children, notes) := Footnotes.place s.notes.toList (Footnotes.spaceSentences none children)
  (⟨children ++ Footnotes.listNodes notes⟩, s.notes.count)

end Manuscript
