import Manuscript.Numbering
import Manuscript.Words

/-!
References and links to labels, once the labels are known.  A linking word that stands right before a
reference joins it, so that both are shown as one link.

Texts are compared as a reader would see them, since parts of them may be tokens.
-/

namespace Manuscript

namespace References

/-- All that references are resolved against. -/
structure Scope where
  labels : LabelTable
  words : Words
  cache : Cache

/-- Resolves what a node is, and reports a label that nothing defines. -/
def resolveKind (s : Scope) (kind : Kind) : Kind × Option Warning :=
  match kind with
  | .ref label style target phrase =>
    match s.labels.target? label with
    | some found => (.ref label style (some ⟨found.id, found.number⟩) phrase, none)
    | none => (.ref label style target phrase, some (.undefinedReference label))
  | .link href =>
    match Text.after? "#" (s.cache.readable href) with
    | none => (.link href, none)
    | some label =>
      match s.labels.target? label with
      | some found => (.link ('#' :: found.id), none)
      | none => (.link href, some (.undefinedLink label))
  | kind => (kind, none)

/-- The class of references and links that lead nowhere. -/
def undefinedClass : Text := "undefined_ref"

/-- Splits a text into `head` and the shortest end that reads as `phrase`. -/
def splitReading? (cache : Cache) (phrase : Text) : (backwards tail : Text) → Option (Text × Text)
  | [], _ => none
  | c :: backwards, tail =>
    if cache.readable (c :: tail) = phrase then some (backwards.reverse, c :: tail)
    else splitReading? cache phrase backwards (c :: tail)

/-- Splits a linking phrase off the end of a text. -/
def splitPhrase? (s : Scope) (t : Text) : Option (Text × Text) := do
  let (_, phrase) ← s.words.splitPhrase? (s.cache.readable t)
  splitReading? s.cache phrase t.reverse []

/-- A phrase with a no-break space for a tilde at its end. -/
def joinPhrase (phrase : Text) : Text :=
  match Text.before? "~" phrase with
  | some word => word ++ ['\u00A0']
  | none => phrase

/-- A resolved reference with the linking phrase at the end of a text before it: what is left of the text, and
the reference with the phrase. -/
def join? (s : Scope) (before reference : Node) : Option (List Node × Node) :=
  match before.kind, reference.kind with
  | .text t, .ref label style (some target) _ =>
    (splitPhrase? s t).map fun (head, phrase) =>
      (if head = [] then [] else [{ before with kind := .text head }],
        { reference with kind := .ref label style (some target) (some (joinPhrase phrase)) })
  | _, _ => none

/-- Joins linking phrases and references among siblings. -/
def joinAll (s : Scope) : List Node → List Node
  | [] => []
  | [only] => [only]
  | before :: next :: rest =>
    match join? s before next with
    | some (left, reference) => left ++ reference :: joinAll s rest
    | none => before :: joinAll s (next :: rest)

mutual

/-- Resolves a node and all inside it. -/
def node (s : Scope) : Node → Node × List Warning
  | ⟨kind, a, number, children⟩ =>
    let (kind, warning) := resolveKind s kind
    let a := if warning.isSome then a.addClass undefinedClass else a
    let (children, warnings) := nodes s children
    (⟨kind, a, number, joinAll s children⟩, warning.toList ++ warnings)

/-- Resolves some nodes and all inside them. -/
def nodes (s : Scope) : List Node → List Node × List Warning
  | [] => ([], [])
  | first :: rest =>
    let (first, found) := node s first
    let (rest, warnings) := nodes s rest
    (first :: rest, found ++ warnings)

end

end References

/-- The document with its references resolved, and the references that lead nowhere. -/
def Document.resolve (d : Document) (labels : LabelTable) (words : Words) (cache : Cache) :
    Document × List Warning :=
  let scope : References.Scope := ⟨labels, words, cache⟩
  let (children, warnings) := References.nodes scope d.children
  (⟨References.joinAll scope children⟩, warnings)

end Manuscript
