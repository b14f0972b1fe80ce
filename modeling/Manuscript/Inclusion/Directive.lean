import Manuscript.Text.Basic

/-!
Inclusion directives: `%= <<(path[subset], lang: L, options: O, git: {tag: T, repo: R})`, where all but the
path may be absent.

The git clause is looked for first, wherever it stands, then the options, which run to the end; a language is
the only attribute that may stand before them.
-/

namespace Manuscript.Inclusion

/-- The part of a file that is included. -/
inductive Subset where
  | whole
  /-- Line numbers and ranges, as they are written. -/
  | lines (spec : Text)
  | part (name : Text)
  deriving DecidableEq

/-- A tagged revision of a repository. -/
structure Revision where
  tag : Text
  repo : Text
  deriving DecidableEq

/-- What a directive asks for. -/
structure Directive where
  path : Text
  subset : Subset
  language : Option Text
  /-- The options of the code block, as they are written. -/
  options : Option Text
  revision : Option Revision
  deriving DecidableEq

/-- Why an inclusion fails. -/
inductive Failure where
  | missingFile (path : Text)
  | missingPart (name path : Text)
  | missingTag (tag repo : Text)
  | missingRepository (repo : Text)
  | malformed (directive : Text)
  deriving DecidableEq

/-- The wording of a failure. -/
def Failure.message : Failure → Text
  | .missingFile path => "file `" ++ path ++ "` could not be read"
  | .missingPart name path => "section `" ++ name ++ "` not found in `" ++ path ++ "`"
  | .missingTag tag repo => "tag `" ++ tag ++ "` not found in repository `" ++ repo ++ "`"
  | .missingRepository repo => "repository `" ++ repo ++ "` not found"
  | .malformed directive => "malformed inclusion directive `" ++ directive ++ "`"

/-- What stands between the brackets of a directive. -/
def inner? (line : Text) : Option Text := do
  let rest ← Text.after? "%=" (Text.trim line)
  let rest ← Text.after? "<<(" (Text.trimStart rest)
  let inner ← Text.before? ")" rest
  if '\n' ∈ inner then none else some inner

/-- A text without the blanks around it; of blanks alone the last one counts. -/
def valueOf? (t : Text) : Option Text :=
  match t.getLast? with
  | none => none
  | some c => some (if Text.isBlankOnly t then [c] else Text.trim t)

/-- Reads a value up to `closing`, which no character of `barred` may precede. -/
def value? (closing : Char) (barred : List Char) (t : Text) : Option (Text × Text) := do
  let isEnd := fun c => c == closing || barred.contains c
  let value ← valueOf? (t.takeWhile fun c => !isEnd c)
  let rest ← Text.after? [closing] (t.dropWhile fun c => !isEnd c)
  return (value, rest)

/-- Reads a git clause, `git: {tag: T, repo: R}`. -/
def gitClause? (t : Text) : Option (Revision × Text) := do
  let rest ← Text.after? "git:" t
  let rest ← Text.after? "\x7b" (Text.trimStart rest)
  let rest ← Text.after? "tag:" (Text.trimStart rest)
  let (tag, rest) ← value? ',' ['\x7d'] rest
  let rest ← Text.after? "repo:" (Text.trimStart rest)
  let (repo, rest) ← value? '\x7d' [] rest
  return (⟨tag, repo⟩, rest)

/-- The text before a git clause, without the blanks at its end and the comma before them. -/
def beforeClause (t : Text) : Text :=
  let t := Text.trimEnd t
  (Text.before? "," t).getD t

/-- Takes the first git clause out of a text, of which `backwards` has been passed. -/
def takeRevision (backwards : Text) : Text → Option Revision × Text
  | [] => (none, backwards.reverse)
  | c :: t =>
    match gitClause? (c :: t) with
    | some (revision, rest) => (some revision, beforeClause backwards.reverse ++ rest)
    | none => takeRevision (c :: backwards) t

/-- Takes the options off the end of a text. -/
def takeOptions (t : Text) : Option Text × Text :=
  match Text.cut? "options:" t with
  | none => (none, t)
  | some (before, rest) => ((some (Text.trim rest)).filter (· ≠ []), before)

/-- Splits a text at its first comma outside of square brackets, none of which may close before it is
opened. -/
def splitTarget? (depth : Nat) : Text → Option (Text × Text)
  | [] => some ([], [])
  | c :: t =>
    if c = ',' ∧ depth = 0 then some ([], t)
    else if c = ']' ∧ depth = 0 then none
    else
      let depth := if c = '[' then depth + 1 else if c = ']' then depth - 1 else depth
      (splitTarget? depth t).map fun (target, rest) => (c :: target, rest)

/-- The language that attributes name; the last one counts. -/
def languageOf? (language : Option Text) : List Text → Option (Option Text)
  | [] => some language
  | item :: rest =>
    let item := Text.trim item
    if item = [] then languageOf? language rest
    else
      match Text.after? "lang:" item with
      | none => none
      | some value =>
        if Text.isBlankOnly value then none else languageOf? (some (Text.trim value)) rest

/-- The characters of a line specification. -/
def isLineSpecCharacter (c : Char) : Bool := c.isDigit || c == ',' || c == '-' || isBlank c

/-- The subset that a selector names. -/
def subsetOf (selector : Text) : Subset :=
  if selector = [] then .whole
  else if selector.all isLineSpecCharacter then .lines selector
  else .part selector

/-- Reads a path and the selector after it. -/
def target? (t : Text) : Option (Text × Subset) :=
  match Text.cut? "[" t with
  | none => some (Text.trim t, .whole)
  | some (path, rest) => do
    let (selector, tail) ← Text.cutLast? ']' rest
    if Text.isBlankOnly tail then some (Text.trim path, subsetOf (Text.trim selector)) else none

/-- Reads what stands between the brackets of a directive. -/
def body? (inner : Text) : Option Directive := do
  let (revision, rest) := takeRevision [] inner
  let (options, rest) := takeOptions rest
  let (target, attributes) ← splitTarget? 0 rest
  let language ← languageOf? none (attributes.splitOn ',')
  let (path, subset) ← target? target
  if path = [] then none else some ⟨path, subset, language, options, revision⟩

/-- Reads a directive; a line that is none gives nothing. -/
def directive? (line : Text) : Option (Except Failure Directive) :=
  (inner? line).map fun inner =>
    match body? inner with
    | some d => .ok d
    | none => .error (.malformed (Text.trim line))

end Manuscript.Inclusion
