import Manuscript.CommandLine.Options
import Manuscript.Conversion
import Manuscript.Page
import Manuscript.Shell.Program
import Manuscript.Toml.Reader

/-!
What the command line does: it reads a manuscript, converts it, reports what was found, and writes the result.
-/

namespace Manuscript.CommandLine

/-- How warnings are reported. -/
inductive Reporting where
  | json
  | pretty
  | off
  deriving DecidableEq

/-- What the arguments ask for. -/
structure Settings where
  /-- The manuscript's file; without one the standard input is read. -/
  input : Option Text
  output : Option Text
  format : Format
  isArticle : Bool
  footnotes : FootnoteStyle
  parser : ParserProgram
  isXml : Bool
  labels : Option Text
  results : Option Text
  root : Text
  outline : Option Text
  isStandalone : Bool
  isSanitized : Bool
  theme : Theme
  title : Option Text
  reporting : Reporting

/-- What some arguments ask for. -/
def Settings.of (g : Given) : Settings where
  input := g.value? inputName
  output := g.value? "output"
  format := if g.value? "format" = some "markup" then .markup else .html
  isArticle := g.has "article"
  footnotes := if g.has "footnote-symbols" then .symbols else .numbered
  parser := ⟨(g.value? "parser").getD [], g.valuesOf "parser-arg"⟩
  isXml := g.has "xml"
  labels := g.value? "labels"
  results := g.value? "highlight-cache"
  root := (g.value? "include-root").getD []
  outline := g.value? "toc"
  isStandalone := g.has "standalone"
  isSanitized := g.has "sanitized"
  theme :=
    if g.value? "theme" = some "dark" then .dark
    else if g.value? "theme" = some "light" then .light
    else .auto
  title := g.value? "title"
  reporting :=
    if g.value? "diagnostics" = some "json" then .json
    else if g.value? "diagnostics" = some "off" then .off
    else .pretty

/-- What the command line finds: files, repositories among them, and the standard input. -/
structure Surroundings where
  tree : FileTree
  repositories : List Inclusion.Repository
  input : Bytes

/-- What the command line leaves behind. -/
structure Outcome where
  status : Nat
  output : Text
  errors : Text
  tree : FileTree

/-! Reading -/

/-- Reads a file. -/
def readFile (tree : FileTree) (path : Text) : Except Text Text :=
  match tree.readText path with
  | .ok t => .ok t
  | .error e => .error ("failed to read " ++ path ++ ": " ++ e.message)

/-- Reads the manuscript. -/
def readInput (s : Settings) (around : Surroundings) : Except Text Text :=
  match s.input with
  | some path => readFile around.tree path
  | none =>
    match Utf8.decode? around.input with
    | some t => .ok t
    | none => .error ("failed to read stdin: " ++ FileError.notText.message)

/-- Reads the words of the language. -/
def readWords (s : Settings) (around : Surroundings) : Except Text Words :=
  match s.labels with
  | none => .ok .default
  | some path => do
    let t ← readFile around.tree path
    match (Toml.parse? t).bind Words.ofJson? with
    | some words => .ok words
    | none => .error ("invalid label dictionary " ++ path)

/-! Reporting -/

/-- A warning as a line. -/
def prettyLine (w : Warning) : Text :=
  let place : Text := w.line?.elim [] fun line => Text.ofNat line ++ ": "
  place ++ Warning.severity ++ " " ++ w.code ++ " " ++ w.message ++ ['\n']

/-- A warning as a JSON object. -/
def warningJson (w : Warning) : Json :=
  let code : Text × Json := ("code", .ofText w.code)
  let severity : Text × Json := ("severity", .ofText Warning.severity)
  let line : List (Text × Json) := w.line?.toList.map fun line => ("line", .ofNat line)
  let message : Text × Json := ("message", .ofText w.message)
  .object ((code :: severity :: line ++ [message]).map fun (key, value) => (some key, value))

/-- The report of some warnings. -/
def report (reporting : Reporting) (warnings : List Warning) : Text :=
  match reporting with
  | .off => []
  | .pretty => warnings.flatMap prettyLine
  | .json => (Json.array (warnings.map warningJson)).pretty 0 ++ ['\n']

/-- The report of what has ended the run. -/
def errorLine (message : Text) : Text := "error: " ++ message ++ ['\n']

/-! Writing -/

/-- Does a body hold mathematics that is left to the reader's program? -/
def hasMath (body : Text) : Bool :=
  Text.contains "\\(" body || Text.contains "\\[" body || Text.contains "\\begin\x7b" body

/-- The text that is written. -/
def resultText (s : Settings) (r : Converted) : Text :=
  if s.isStandalone ∧ s.format = .html then
    Page.html ⟨s.theme, s.title, .empty⟩ r.body true (hasMath r.body)
  else r.body

/-- Writes a file, if there is one to write; what has been written before an error stays. -/
def writeFile (tree : FileTree) (path : Text) (t : Text) : Except Text FileTree :=
  match tree.write path (Utf8.encode t) with
  | .ok tree => .ok tree
  | .error e => .error ("failed to write " ++ path ++ ": " ++ e.message)

/-- Writes the outline, and then the result. -/
def writeResults (s : Settings) (r : Converted) (errors : Text) (tree : FileTree) : Outcome :=
  let outlined :=
    match s.outline, r.outline with
    | some path, some outline => writeFile tree path outline
    | _, _ => .ok tree
  match outlined with
  | .error message => ⟨1, [], errors ++ errorLine message, tree⟩
  | .ok tree =>
    match s.output with
    | none => ⟨0, resultText s r, errors, tree⟩
    | some path =>
      match writeFile tree path (resultText s r) with
      | .ok tree => ⟨0, [], errors, tree⟩
      | .error message => ⟨1, [], errors ++ errorLine message, tree⟩

/-! Running -/

/-- The conversion that is asked for. -/
def conversion (s : Settings) (words : Words) (salt : Text) : Conversion where
  format := s.format
  isArticle := s.isArticle
  footnotes := s.footnotes
  isSanitized := s.isSanitized
  words := words
  highlighter := Highlight.tinted s.theme
  parser := if s.isXml then Document.ofXmlText else s.parser.parse
  salt := salt

/-- Does what the settings ask for. -/
def run (s : Settings) (salt : Text) (around : Surroundings) : Outcome :=
  let asked : Except Text (Text × Words) := do
    let source ← readInput s around
    let words ← readWords s around
    return (source, words)
  match asked with
  | .error message => ⟨1, [], errorLine message, around.tree⟩
  | .ok (source, words) =>
    let store := (s.results.map (Highlight.Store.openAt around.tree)).getD .inMemory
    let sources : Inclusion.Sources := ⟨around.tree, around.repositories, s.root⟩
    let (result, w) := (conversion s words salt).run ⟨sources, store⟩ source
    let tree := w.sources.tree
    match result with
    | .error e => ⟨1, [], errorLine ("conversion failed: " ++ e.message), tree⟩
    | .ok r => writeResults s r (report s.reporting r.warnings) tree

/-- Does what the arguments ask for. -/
def perform (arguments : List Text) (salt : Text) (around : Surroundings) : Outcome :=
  match Given.readAll arguments with
  | .error .misuse => ⟨2, [], misuseText, around.tree⟩
  | .error .help => ⟨0, helpText, [], around.tree⟩
  | .error .version => ⟨0, versionText, [], around.tree⟩
  | .ok g => run (.of g) salt around

end Manuscript.CommandLine
