import Manuscript.Text.Basic

/-!
The options of the command line, and how arguments are read as options with their values.
-/

namespace Manuscript.CommandLine

/-- The values that an option takes. -/
inductive Values where
  | any
  /-- A path, which is not empty. -/
  | path
  | oneOf (names : List Text)
  deriving DecidableEq

/-- The value of an option. -/
structure Parameter where
  placeholder : Text
  values : Values
  default : Option Text
  /-- The option may be given several times, and whatever follows it is its value. -/
  isRepeated : Bool
  deriving DecidableEq

/-- An option; one without a parameter is a flag. -/
structure OptionSpec where
  name : Text
  letter : Option Char
  parameter : Option Parameter
  description : Text
  deriving DecidableEq

/-- A flag. -/
def flag (name description : Text) : OptionSpec := ⟨name, none, none, description⟩

/-- An option whose value is a path or any text. -/
def valued (name placeholder : Text) (values : Values) (default : Option Text) (description : Text) :
    OptionSpec :=
  ⟨name, none, some ⟨placeholder, values, default, false⟩, description⟩

/-- An option whose value is one of some names, of which one is assumed where none is given. -/
def choice (name placeholder : Text) (names : List Text) (default : Text) : OptionSpec :=
  valued name placeholder (.oneOf names) (some default) []

/-- The options, in the order in which they are listed. -/
def options : List OptionSpec :=
  [{ valued "output" "FILE" .path none "Write the result here instead of standard output" with letter := some 'o' },
   choice "format" "FORMAT" ["html", "markup"] "html",
   flag "article" "Sections are the top level and chapters are not numbered",
   flag "footnote-symbols" "Mark footnotes with symbols instead of numbers",
   valued "parser" "PROGRAM" .any (some "folio-parse") "Structural parser executable",
   ⟨"parser-arg", none, some ⟨"ARG", .any, none, true⟩,
    "Extra argument for the structural parser (repeatable)"⟩,
   flag "xml" "The input is already the structural parser's XML",
   valued "labels" "FILE" .path none "TOML file with localized display words",
   valued "highlight-cache" "FILE" .path none "Persist option-free highlight results in this JSON file",
   valued "include-root" "DIR" .path (some ".") "Directory that inclusion paths are relative to",
   valued "toc" "FILE" .path none "Write the table of contents fragment to this file",
   flag "standalone" "Wrap the body in a complete page with the stylesheet inlined",
   flag "sanitized" "Clean the HTML with an allow-list sanitizer",
   choice "theme" "THEME" ["auto", "light", "dark"] "auto",
   valued "title" "TITLE" .any none "Page title for --standalone",
   choice "diagnostics" "DIAGNOSTICS" ["json", "pretty", "off"] "pretty",
   { flag "help" "Print help" with letter := some 'h' },
   { flag "version" "Print version" with letter := some 'V' }]

/-- What the argument that is no option is called. -/
def inputName : Text := "INPUT"

/-- The option that stands for the argument that is none. -/
def inputSpec : OptionSpec :=
  valued inputName inputName .path none "Source document; standard input when omitted"

/-- Why arguments are not read to their end. -/
inductive Halt where
  | misuse
  | help
  | version
  deriving DecidableEq

/-- The arguments that have been read. -/
structure Given where
  /-- The options with their values, those of flags being empty. -/
  values : List (Text × Text)
  /-- The option that waits for its value. -/
  pending : Option OptionSpec
  /-- Nothing that follows is an option. -/
  isTrailing : Bool

namespace Given

/-- Before any argument. -/
def nothing : Given := ⟨[], none, false⟩

/-- Has an option been given? -/
def has (g : Given) (name : Text) : Bool := (g.values.lookup name).isSome

/-- Is the value one that the option takes? -/
def Values.accept (v : Values) (value : Text) : Bool :=
  match v with
  | .any => true
  | .path => value ≠ []
  | .oneOf names => value ∈ names

/-- Gives an option its value. -/
def set (g : Given) (spec : OptionSpec) (value : Text) : Except Halt Given :=
  match spec.parameter with
  | none => .error .misuse
  | some p =>
    if (g.has spec.name && !p.isRepeated) || !Values.accept p.values value then .error .misuse
    else .ok { g with values := g.values ++ [(spec.name, value)], pending := none }

/-- Gives an option whose value may follow. -/
def begin (g : Given) (spec : OptionSpec) : Except Halt Given :=
  if spec.parameter.isSome then .ok { g with pending := some spec }
  else if spec.name = "help" then .error .help
  else if spec.name = "version" then .error .version
  else if g.has spec.name then .error .misuse
  else .ok { g with values := g.values ++ [(spec.name, [])] }

/-- Reads an option by its name, which a value may follow after an equals sign. -/
def readLong (g : Given) (t : Text) : Except Halt Given :=
  let (name, value) :=
    match Text.cut? "=" t with
    | some (name, value) => (name, some value)
    | none => (t, none)
  match options.find? fun spec => spec.name = name, value with
  | none, _ => .error .misuse
  | some spec, none => g.begin spec
  | some spec, some value => g.set spec value

/-- Reads options by their letters; the last one's value may follow. -/
def readLetters (g : Given) : Text → Except Halt Given
  | [] => .ok g
  | c :: rest =>
    match options.find? fun spec => spec.letter = some c with
    | none => .error .misuse
    | some spec =>
      if spec.parameter.isSome ∧ rest ≠ [] then g.set spec ((Text.after? "=" rest).getD rest)
      else
        match g.begin spec with
        | .error halt => .error halt
        | .ok g => readLetters g rest

/-- Does an argument look like an option? -/
def isOption (t : Text) : Bool := t.head? = some '-' && t ≠ "-"

/-- Reads an argument. -/
def read (g : Given) (t : Text) : Except Halt Given :=
  match g.pending with
  | some spec =>
    if isOption t && !(spec.parameter.any Parameter.isRepeated) then .error .misuse else g.set spec t
  | none =>
    if g.isTrailing || !isOption t then g.set inputSpec t
    else
      match Text.after? "--" t with
      | some [] => .ok { g with isTrailing := true }
      | some rest => g.readLong rest
      | none => g.readLetters t.tail

/-- Reads arguments. -/
def readAll (arguments : List Text) : Except Halt Given := do
  let g ← arguments.foldlM read nothing
  if g.pending.isSome then .error .misuse else .ok g

/-- The value of an option, or the one that is assumed. -/
def value? (g : Given) (name : Text) : Option Text :=
  (g.values.lookup name).or
    (((options.find? fun spec => spec.name = name).bind OptionSpec.parameter).bind Parameter.default)

/-- All values of an option. -/
def valuesOf (g : Given) (name : Text) : List Text := (g.values.filter fun v => v.1 = name).map Prod.snd

end Given

/-! Help -/

/-- The name of the program. -/
def programName : Text := "folio"

/-- What is said of the version. -/
def versionText : Text := programName ++ " 0.1.0\n"

/-- An option with its parameter. -/
def OptionSpec.usage (spec : OptionSpec) : Text :=
  match spec.parameter with
  | none => "--" ++ spec.name
  | some p => "--" ++ spec.name ++ " <" ++ p.placeholder ++ ">"

/-- What is said of an option's values. -/
def Parameter.remarks (p : Parameter) : List Text :=
  let default : List Text := p.default.toList.map fun value => "[default: " ++ value ++ "]"
  match p.values with
  | .oneOf names => default ++ ["[possible values: " ++ Text.join ", " names ++ "]"]
  | _ => default

/-- The line of an option, its description after `width` characters of its usage. -/
def OptionSpec.line (width : Nat) (spec : OptionSpec) : Text :=
  let letter : Text := spec.letter.elim "    " fun c => ['-', c] ++ ", "
  let padding := List.replicate (width - spec.usage.length) ' '
  let remarks := (spec.parameter.map Parameter.remarks).getD []
  let description : List Text := if spec.description = [] then [] else [spec.description]
  "  " ++ letter ++ spec.usage ++ padding ++ "  " ++ Text.join " " (description ++ remarks) ++ "\n"

/-- How the program is called. -/
def usageText : Text := "Usage: " ++ programName ++ " [OPTIONS] [" ++ inputName ++ "]\n"

/-- Some calls of the program. -/
def examplesText : Text :=
  "EXAMPLES:\n" ++
    "    folio book.tex -o book.html --standalone      Render a complete page\n" ++
    "    folio --format markup book.tex                Expand inclusions and highlight only\n" ++
    "    folio --xml tree.xml                          Render an already parsed tree\n"

/-- What is said on request. -/
def helpText : Text :=
  let width := (options.map fun spec => spec.usage.length).foldl max 0
  "Numbered, cross-referenced HTML from LaTeX-like sources\n\n" ++ usageText ++
    "\nArguments:\n  [" ++ inputName ++ "]  " ++ inputSpec.description ++
    "\n\nOptions:\n" ++ options.flatMap (·.line width) ++ "\n" ++ examplesText

/-- What is said when the arguments cannot be read. -/
def misuseText : Text :=
  "error: the arguments cannot be read\n\n" ++ usageText ++ "\nFor more information, try '--help'.\n"

end Manuscript.CommandLine
