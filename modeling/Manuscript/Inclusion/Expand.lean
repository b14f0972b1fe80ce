import Manuscript.Html.Escape
import Manuscript.Inclusion.Language
import Manuscript.Inclusion.Provider
import Manuscript.Inclusion.Selection
import Manuscript.Source.Environment
import Manuscript.Warning

/-!
Putting included code in the place of directives.  Directives inside literal environments are left alone, and
what is included is not looked at again.
-/

namespace Manuscript.Inclusion

/-- The lines that a directive asks for. -/
def resolve (provider : Provider) (d : Directive) : Except Failure (List Text) := do
  let text ← match d.revision with
    | some revision => provider.readAt d.path revision
    | none => provider.read d.path
  let lines := Text.lines text
  match d.subset with
  | .whole => .ok lines
  | .lines spec => .ok (selectLines lines spec)
  | .part name =>
    match selectPart? lines name with
    | some selected => .ok selected
    | none => .error (.missingPart name d.path)

/-- The hint that announces included code. -/
def hintLine (d : Directive) : Text :=
  let language := d.language.getD (languageOfPath d.path)
  let options : Text := (d.options.map fun o : Text => (", options: " ++ o : Text)).getD []
  "%= lang:" ++ language ++ options

/-- Included lines as a code block. -/
def codeBlock (d : Directive) (lines : List Text) : List Text :=
  hintLine d :: "\\begin\x7bcode\x7d" :: lines ++ (["\\end\x7bcode\x7d"] : List Text)

/-- The line that stands for an inclusion that failed. -/
def failureLine (failure : Failure) : Text :=
  "%= <span class=\"inline_error\">ERROR: " ++ Html.escapeText failure.message ++ "</span>"

/-- What a line outside of literal environments becomes. -/
def expandLine (provider : Provider) (number : Nat) (line : Text) : List Text × List Warning :=
  match directive? line with
  | none => ([line], [])
  | some parsed =>
    match parsed.bind fun d => (resolve provider d).map fun lines => (d, lines) with
    | .ok (d, lines) => (codeBlock d lines, [])
    | .error failure => ([failureLine failure], [.inclusionFailed number failure])

/-- The literal environment that is open: its name, and how many of the same name are open inside it. -/
abbrev OpenLiteral := Option (Text × Nat)

/-- What is open after a line inside a literal environment. -/
def afterLiteralLine (name : Text) (inner : Nat) (line : Text) : OpenLiteral :=
  if Source.begin? line = some name then some (name, inner + 1)
  else if Source.end? line = some name then
    match inner with
    | 0 => none
    | inner + 1 => some (name, inner)
  else some (name, inner)

/-- Expands some lines, the first of which has the given number. -/
def expandLines (provider : Provider) : OpenLiteral → Nat → List Text → List Text × List Warning
  | _, _, [] => ([], [])
  | some (name, inner), number, line :: rest =>
    let (lines, warnings) := expandLines provider (afterLiteralLine name inner line) (number + 1) rest
    (line :: lines, warnings)
  | none, number, line :: rest =>
    match (Source.begin? line).filter (· ∈ Source.literalEnvironments) with
    | some name =>
      let (lines, warnings) := expandLines provider (some (name, 0)) (number + 1) rest
      (line :: lines, warnings)
    | none =>
      let (first, found) := expandLine provider number line
      let (lines, warnings) := expandLines provider none (number + 1) rest
      (first ++ lines, found ++ warnings)

/-- The manuscript with its inclusions expanded. -/
def expand (provider : Provider) (source : Text) : Text × List Warning :=
  let (lines, warnings) := expandLines provider none 1 (source.splitOn '\n')
  (Text.unlines lines, warnings)

end Manuscript.Inclusion
