import Manuscript.Document.Parser
import Manuscript.Shell.Run

/-!
Structural parsers that are programs of their own.  Such a program finds the text in a file of a folder made for
it, and leaves the document in another file there.
-/

namespace Manuscript

/-- A structural parser that is a program, with the arguments that come before the name of the text's file. -/
structure ParserProgram where
  program : Text
  arguments : List Text
  deriving DecidableEq

namespace ParserProgram

/-- The file that the program finds the text in. -/
def inputFile : Text := "document.tex"

/-- The file that the program leaves the document in. -/
def outputFile : Text := "document.xml"

/-- The folders that programs are in; those that are given by name alone are found in the first one. -/
def programFolders : List Text := ["/usr/bin", "/bin"]

/-- Is there a program with the name? -/
def isInstalled (name : Text) : Bool := name = "sh" || (Shell.programs.lookup name).isSome

/-- The folder and the name of a program. -/
def locate? (program : Text) : Option (Text × Text) :=
  match Text.cutLast? '/' program with
  | none => if isInstalled program then programFolders.head?.map fun folder => (folder, program) else none
  | some (folder, name) => if folder ∈ programFolders ∧ isInstalled name then some (folder, name) else none

/-- How a program has ended. -/
structure Ended where
  files : FileTree
  /-- There is no status when the program was ended from outside. -/
  status : Option Nat
  output : Bytes
  errors : Bytes

/-- How deep scripts may be inside words of scripts. -/
def depth : Nat := 8

/-- How a script ends. -/
def runScript (files : FileTree) (arguments : List Text) (script : Text) : Ended :=
  let m := Shell.run depth (.start files arguments) script
  let status :=
    match m.ending with
    | none => some m.status
    | some (.exit status) => some status
    | some .signal => none
  ⟨m.files, status, m.output, m.errors⟩

/-- How the shell ends, which is given a script or the name of its file. -/
def runShell (files : FileTree) (path : Text) : List Text → Ended
  | [] => ⟨files, some 0, [], []⟩
  | a :: rest =>
    if a = "-c" then
      match rest with
      | [] => ⟨files, some 2, [], Utf8.encode (path ++ ": 0: -c requires an argument\n")⟩
      | script :: names => runScript files (if names.isEmpty then [path] else names) script
    else if a.head? = some '-' then runShell files path rest
    else
      match files.readBytes a with
      | .ok bytes => runScript files (a :: rest) (Utf8.decodeLossy bytes)
      | .error _ => ⟨files, some 2, [], Utf8.encode (path ++ ": 0: cannot open " ++ a ++ ": No such file\n")⟩

/-- How a program ends. -/
def runProgram (files : FileTree) (folder name : Text) (arguments : List Text) : Ended :=
  match Shell.programs.lookup name with
  | none => runShell files (folder ++ "/" ++ name) arguments
  | some program =>
    let e := program files [] arguments
    ⟨e.files, some e.status, e.output, e.errors⟩

/-- What is said of a program that has not succeeded: its status, and what it wrote itself. -/
def complaint (e : Ended) : Text :=
  let ending : Text :=
    match e.status with
    | some status => "exited with status " ++ Text.ofNat status
    | none => "terminated by a signal"
  let errors := Text.trim (Utf8.decodeLossy e.errors)
  let output := Text.trim (Utf8.decodeLossy e.output)
  if errors ≠ [] then ending ++ ": " ++ errors
  else if output ≠ [] then ending ++ ": " ++ output
  else ending

/-- The parser that runs the program. -/
def parse (p : ParserProgram) : StructuralParser := fun text =>
  match locate? p.program with
  | none => .error (.unavailable p.program)
  | some (folder, name) =>
    let files := FileTree.empty.setFile [inputFile] (Utf8.encode text)
    let e := runProgram files folder name (p.arguments ++ [inputFile])
    if e.status = some 0 then
      match e.files.readText outputFile with
      | .ok xml => Document.ofXmlText xml
      | .error error =>
        .error (.failed p.program ("no " ++ outputFile ++ " produced: " ++ error.message))
    else .error (.failed p.program (complaint e))

end ParserProgram

end Manuscript
