import Manuscript.Shell.Script
import Manuscript.Shell.Utility

/-!
The run of a script: words are expanded, streams are redirected, and the commands take effect one after the
other.
-/

namespace Manuscript.Shell

/-- How a script ends before its last command. -/
inductive Ending where
  | exit (status : Nat)
  /-- It is ended from outside. -/
  | signal
  deriving DecidableEq

/-- The state of a run. -/
structure Machine where
  files : FileTree
  /-- The name of the script, and its arguments. -/
  arguments : List Text
  assigned : List (Text × Text)
  input : Bytes
  output : Bytes
  errors : Bytes
  status : Nat
  ending : Option Ending

namespace Machine

/-- A run at its start. -/
def start (files : FileTree) (arguments : List Text) : Machine := ⟨files, arguments, [], [], [], [], 0, none⟩

/-- The number of the process that runs the script. -/
def process : Text := "1000"

/-- The value of a parameter. -/
def value (m : Machine) (name : Text) : Text :=
  if name = "?" then Text.ofNat m.status
  else if name = "$" then process
  else if name = "#" then Text.ofNat (m.arguments.length - 1)
  else if name = "@" ∨ name = "*" then Text.join " " m.arguments.tail
  else
    match Text.natBelow? Text.bound32 name with
    | some n => m.arguments.getD n []
    | none => (m.assigned.lookup name).getD []

/-- Writes to the error stream on behalf of a line. -/
def complain (m : Machine) (line status : Nat) (message : Text) : Machine :=
  let t := m.arguments.headD [] ++ ": " ++ Text.ofNat line ++ ": " ++ message ++ ['\n']
  { m with errors := m.errors ++ Utf8.encode t, status := status }

end Machine

/-! Words -/

/-- Adds a part's value to fields, of which the last one is still open. -/
def addValue (isSplit : Bool) (fields : List Text × Option Text) (value : Text) : List Text × Option Text :=
  if isSplit then
    value.foldl (fun (done, current) c =>
      if c = ' ' ∨ c = '\t' ∨ c = '\n' then (done ++ current.toList, none)
      else (done, some (current.getD [] ++ [c]))) fields
  else (fields.1, some (fields.2.getD [] ++ value))

/-- The value of a part, given the outputs of scripts. -/
def partValue (output : Machine → Text → Text) (m : Machine) : Part → Text
  | .text t => t
  | .parameter name => m.value name
  | .output script => output m script

/-- The fields that a word stands for. -/
def fields (output : Machine → Text → Text) (m : Machine) (w : Word) : List Text :=
  let (done, current) := w.foldl (fun acc p =>
    match p.part with
    | .text t => addValue false acc t
    | part => addValue (!p.isQuoted) acc (partValue output m part)) ([], none)
  done ++ current.toList

/-- The text that a word stands for where it is not split. -/
def wordText (output : Machine → Text → Text) (m : Machine) (w : Word) : Text :=
  w.flatMap fun p => partValue output m p.part

/-! Redirections -/

/-- Where a stream goes. -/
inductive Sink where
  | output
  | errors
  | file (path : Text)

/-- The streams of a command. -/
structure Streams where
  input : Bytes
  output : Sink
  errors : Sink

/-- The sink of a stream. -/
def Streams.sink (s : Streams) (stream : Char) : Sink := if stream = '2' then s.errors else s.output

/-- The streams with a sink set. -/
def Streams.set (s : Streams) (stream : Char) (sink : Sink) : Streams :=
  if stream = '2' then { s with errors := sink } else { s with output := sink }

/-- Redirects the streams of a command; a message when that fails. -/
def redirect (output : Machine → Text → Text) (m : Machine) (s : Streams) :
    List Redirection → Except Text (FileTree × Streams)
  | [] => .ok (m.files, s)
  | .input file :: rest =>
    let path := wordText output m file
    match readFile m.files path with
    | .ok bytes => redirect output m { s with input := bytes } rest
    | .error _ => .error ("cannot open " ++ path ++ ": No such file")
  | .output stream file isAppended :: rest =>
    let path := wordText output m file
    let before := if isAppended then (readFile m.files path).toOption.getD [] else []
    match writeFile m.files path before with
    | .ok files => redirect output { m with files := files } (s.set stream (.file path)) rest
    | .error .isAFolder => .error ("cannot create " ++ path ++ ": Is a directory")
    | .error _ => .error ("cannot create " ++ path ++ ": Directory nonexistent")
  | .copy stream other :: rest =>
    match wordText output m other with
    | [c] => redirect output m (s.set stream (s.sink c)) rest
    | t => .error ("Bad fd number: " ++ t)

/-- Sends bytes to a sink. -/
def send (m : Machine) (sink : Sink) (bytes : Bytes) : Machine :=
  match sink with
  | .output => { m with output := m.output ++ bytes }
  | .errors => { m with errors := m.errors ++ bytes }
  | .file path =>
    let before := (readFile m.files path).toOption.getD []
    match writeFile m.files path (before ++ bytes) with
    | .ok files => { m with files := files }
    | .error _ => m

/-! Commands -/

/-- The name and the value of an assignment. -/
def assignment? (t : Text) : Option (Text × Text) :=
  match Text.cut? "=" t with
  | some (name, value) =>
    if name ≠ [] ∧ name.all isNameCharacter ∧ !(name.head?.any Char.isDigit) then some (name, value) else none
  | none => none

/-- Runs a program that is given by its name; `shown` is what it is called when there is none. -/
def callProgram (m : Machine) (s : Streams) (line : Nat) (shown name : Text) (arguments : List Text) :
    Machine :=
  match programs.lookup name with
  | some program =>
    let e := program m.files s.input arguments
    let m := send { m with files := e.files, status := e.status } s.output e.output
    send m s.errors e.errors
  | none =>
    let whole := Machine.complain { m with errors := [] } line 127 (shown ++ ": not found")
    send { m with status := 127 } s.errors whole.errors

/-- Runs what the first word of a command names: a program, or what the shell does itself. -/
def call (m : Machine) (s : Streams) (line : Nat) (name : Text) (arguments : List Text) : Machine :=
  if name = "exit" then
    let status := (arguments.head?.bind (Text.natBelow? Text.bound32)).getD m.status
    { m with status := status % 256, ending := some (.exit (status % 256)) }
  else if name = "kill" then
    if arguments.elem Machine.process then { m with ending := some .signal }
    else m.complain line 1 "kill: No such process"
  else if name = ":" then { m with status := 0 }
  else if name = "exec" then
    match arguments with
    | [] => { m with status := 0 }
    | program :: arguments =>
      let m := callProgram m s line (name ++ ": " ++ program) program arguments
      { m with ending := some (.exit m.status) }
  else callProgram m s line name name arguments

/-- Runs a command. -/
def runCommand (output : Machine → Text → Text) (m : Machine) (c : Command) : Machine :=
  match redirect output m ⟨m.input, .output, .errors⟩ c.redirections with
  | .error message => m.complain c.line 2 message
  | .ok (files, s) =>
    let m := { m with files := files }
    match c.words.flatMap (fields output m) with
    | [] => { m with status := 0 }
    | name :: arguments =>
      match assignment? name with
      | some (target, _) =>
        let value := ((c.words.head?.map (wordText output m)).bind assignment?).map Prod.snd
        { m with assigned := (target, value.getD []) :: m.assigned, status := 0 }
      | none => call m s c.line name arguments

/-- Is a command skipped that follows with a connector?  A command that follows through a pipe is skipped
together with the one before it. -/
def isSkipped (m : Machine) (wasSkipped : Bool) : Connector → Bool
  | .next => false
  | .both => m.status ≠ 0
  | .either => m.status = 0
  | .pipe => wasSkipped

/-- Runs commands.  What one writes before a pipe is what the next one reads. -/
def runCommands (output : Machine → Text → Text) (m : Machine) (wasSkipped : Bool) :
    List (Connector × Command) → Machine
  | [] => m
  | (connector, c) :: rest =>
    if m.ending.isSome then m
    else if isSkipped m wasSkipped connector then runCommands output m true rest
    else
      let pipes := rest.head?.any fun next => next.1 = .pipe
      let before := m.output
      let ran := runCommand output { m with output := if pipes then [] else before } c
      let m :=
        if pipes then { ran with input := ran.output, output := before } else { ran with input := [] }
      runCommands output m false rest

/-- Runs a script.  Scripts inside words are run with one less of `depth`, and
beyond it they write nothing. -/
def run : (depth : Nat) → Machine → Text → Machine
  | 0, m, _ => m
  | depth + 1, m, t =>
    let script := Script.ofText t
    let output := fun m inner =>
      let ran := run depth { m with output := [], errors := [] } inner
      Text.trimEndWhere (· == '\n') (Utf8.decodeLossy ran.output)
    let m := runCommands output m false script.commands
    match m.ending, script.error with
    | none, some (line, message) => { m.complain line 2 message with ending := some (.exit 2) }
    | _, _ => m

end Manuscript.Shell
