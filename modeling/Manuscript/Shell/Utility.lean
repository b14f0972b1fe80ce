import Manuscript.Files.Basic
import Manuscript.Text.Numeral

/-!
The programs that scripts consist of: each reads and writes files and streams, and ends with a status.
-/

namespace Manuscript.Shell

/-- What a program has done. -/
structure Effect where
  files : FileTree
  output : Bytes
  errors : Bytes
  status : Nat

namespace Effect

/-- Nothing but a status. -/
def ends (files : FileTree) (status : Nat) : Effect := ⟨files, [], [], status⟩

/-- Success with some output. -/
def writes (files : FileTree) (output : Bytes) : Effect := ⟨files, output, [], 0⟩

/-- Failure with a message. -/
def fails (files : FileTree) (status : Nat) (message : Text) : Effect :=
  ⟨files, [], Utf8.encode (message ++ ['\n']), status⟩

/-- One effect after the other; failure is remembered. -/
def andThen (e : Effect) (f : FileTree → Effect) : Effect :=
  let e' := f e.files
  ⟨e'.files, e.output ++ e'.output, e.errors ++ e'.errors, max e.status e'.status⟩

/-- The effects for some arguments, one after the other. -/
def each (files : FileTree) (f : Text → FileTree → Effect) : List Text → Effect
  | [] => ends files 0
  | a :: rest => (f a files).andThen fun files => each files f rest

end Effect

/-- The wording of an error without its number. -/
def reason (e : FileError) : Text :=
  match Text.cut? " (" e.message with
  | some (t, _) => t
  | none => e.message

/-- The file that is always empty. -/
def nullFile : Text := "/dev/null"

/-- The content of a file. -/
def readFile (files : FileTree) (path : Text) : Except FileError Bytes :=
  if path = nullFile then .ok [] else files.readBytes path

/-- The files with a file's content set. -/
def writeFile (files : FileTree) (path : Text) (bytes : Bytes) : Except FileError FileTree :=
  if path = nullFile then .ok files else files.write path bytes

/-! Escapes -/

/-- The value of some octal digits. -/
def octal (digits : Text) : UInt8 := UInt8.ofNat (digits.foldl (fun n c => n * 8 + (c.toNat - 48)) 0)

/-- Is it an octal digit? -/
def isOctal (c : Char) : Bool := '0' ≤ c && c ≤ '7'

/-- The byte that a letter after a backslash stands for. -/
def escapeByte? (c : Char) : Option UInt8 :=
  (([('a', 7), ('b', 8), ('t', 9), ('n', 10), ('v', 11), ('f', 12), ('r', 13), ('\\', 92)] :
    List (Char × UInt8)).lookup c)

/-- Reads an escape from after its backslash.  A number may need a zero before its digits. -/
def escape (needsZero : Bool) (t : Text) : Bytes × Text :=
  match t with
  | [] => ([92], [])
  | c :: rest =>
    match escapeByte? c with
    | some byte => ([byte], rest)
    | none =>
      let digits := if needsZero then (rest.take 3).takeWhile isOctal else (t.take 3).takeWhile isOctal
      if needsZero ∧ c = '0' then ([octal digits], rest.drop digits.length)
      else if !needsZero ∧ digits ≠ [] then ([octal digits], t.drop digits.length)
      else ([92], t)

/-- The text with its escapes resolved; `\c` ends it. -/
def unescape (fuel : Nat) (t : Text) : Bytes :=
  match fuel, t with
  | 0, _ | _, [] | _, '\\' :: 'c' :: _ => []
  | fuel + 1, '\\' :: rest =>
    let (bytes, rest) := escape true rest
    bytes ++ unescape fuel rest
  | fuel + 1, c :: rest => Utf8.encode [c] ++ unescape fuel rest

/-! Programs -/

/-- Writes its arguments. -/
def echo (files : FileTree) (arguments : List Text) : Effect :=
  let (isLine, arguments) :=
    match arguments with
    | ['-', 'n'] :: rest => (false, rest)
    | arguments => (true, arguments)
  let t := Text.join " " arguments
  let isCut := Text.contains "\\c" t
  .writes files (unescape (t.length + 1) t ++ if isLine && !isCut then [10] else [])

/-- What a conversion of a format makes of an argument. -/
def convertArgument? (conversion : Char) (argument : Text) : Option Bytes :=
  match conversion with
  | 's' => some (Utf8.encode argument)
  | 'b' => some (unescape (argument.length + 1) argument)
  | 'c' => some (Utf8.encode (argument.take 1))
  | 'd' | 'i' | 'u' =>
    some (Utf8.encode (if argument ≠ [] ∧ argument.all Char.isDigit then argument else "0"))
  | _ => none

/-- Writes a format once, and gives the arguments that are left. -/
def formatOnce : (fuel : Nat) → Text → List Text → Bytes × List Text
  | 0, _, arguments | _, [], arguments => ([], arguments)
  | fuel + 1, c :: rest, arguments =>
    let goOn := fun bytes rest arguments =>
      let (more, arguments) := formatOnce fuel rest arguments
      (bytes ++ more, arguments)
    if c = '\\' then
      let (bytes, rest) := escape false rest
      goOn bytes rest arguments
    else if c = '%' then
      match rest with
      | [] => goOn [37] [] arguments
      | conversion :: rest =>
        match convertArgument? conversion (arguments.head?.getD []) with
        | some bytes => goOn bytes rest arguments.tail
        | none => goOn (if conversion = '%' then [37] else []) rest arguments
    else goOn (Utf8.encode [c]) rest arguments

/-- Writes a format as often as it takes to use up the arguments. -/
def formatAll (format : Text) : (rounds : Nat) → List Text → Bytes
  | 0, _ => []
  | rounds + 1, arguments =>
    let (bytes, left) := formatOnce (format.length + 1) format arguments
    if left = [] ∨ left.length = arguments.length then bytes else bytes ++ formatAll format rounds left

/-- Writes its arguments in a format. -/
def printf (files : FileTree) (arguments : List Text) : Effect :=
  match arguments with
  | [] => .fails files 2 "printf: usage: printf format [arg ...]"
  | format :: arguments => .writes files (formatAll format (arguments.length + 1) arguments)

/-- Writes files. -/
def cat (files : FileTree) (input : Bytes) (arguments : List Text) : Effect :=
  .each files (fun path files =>
    if path = "-" then .writes files input
    else
      match readFile files path with
      | .ok bytes => .writes files bytes
      | .error e => .fails files 1 ("cat: " ++ path ++ ": " ++ reason e)) (if arguments.isEmpty then ["-"] else arguments)

/-- Copies or moves a file. -/
def copy (isMove : Bool) (files : FileTree) (arguments : List Text) : Effect :=
  let name : Text := if isMove then "mv" else "cp"
  match arguments.filter fun a => a.head? ≠ some '-' with
  | [source, target] =>
    match files.readBytes source with
    | .error e => .fails files 1 (name ++ ": cannot stat '" ++ source ++ "': " ++ reason e)
    | .ok bytes =>
      let target :=
        if files.isFolder target then target ++ "/" ++ (FileTree.splitPath source).2 else target
      match writeFile files target bytes, files.locate source with
      | .error e, _ =>
        .fails files 1 (name ++ ": cannot create regular file '" ++ target ++ "': " ++ reason e)
      | .ok written, .ok place =>
        .ends (if isMove ∧ source ≠ target then
          { written with files := written.files.filter fun f => f.1 ≠ place } else written) 0
      | .ok written, .error _ => .ends written 0
  | _ => .fails files 1 (name ++ ": missing file operand")

/-- Removes files. -/
def remove (files : FileTree) (arguments : List Text) : Effect :=
  let isForced := arguments.any fun a => a.head? = some '-' ∧ a.elem 'f'
  .each files (fun path files =>
    match files.readBytes path, files.locate path with
    | .ok _, .ok place => .ends { files with files := files.files.filter fun f => f.1 ≠ place } 0
    | .ok _, .error e | .error e, _ =>
      if isForced then .ends files 0
      else .fails files 1 ("rm: cannot remove '" ++ path ++ "': " ++ reason e))
    (arguments.filter fun a => a.head? ≠ some '-')

/-- Makes empty files where there are none. -/
def touch (files : FileTree) (arguments : List Text) : Effect :=
  .each files (fun path files =>
    match files.readBytes path with
    | .ok _ | .error .isAFolder => .ends files 0
    | .error _ =>
      match writeFile files path [] with
      | .ok files => .ends files 0
      | .error e => .fails files 1 ("touch: cannot touch '" ++ path ++ "': " ++ reason e)) arguments

/-- Makes a folder; its own folder has to exist, unless the way to it is made too. -/
def makeFolder (isDeep : Bool) (path : Text) (files : FileTree) : Effect :=
  let refuse := fun why => Effect.fails files 1 ("mkdir: cannot create directory '" ++ path ++ "': " ++ why)
  if isDeep then
    match files.makeWay (files.start path) (path.splitOn '/') with
    | .ok files => .ends files 0
    | .error e => refuse (reason e)
  else
    match files.locate path with
    | .ok place =>
      if files.hasFolder place || (files.file? place).isSome then refuse "File exists"
      else .ends (files.setFolder place) 0
    | .error e => refuse (reason e)

/-- Makes folders. -/
def makeFolders (files : FileTree) (arguments : List Text) : Effect :=
  .each files (makeFolder (arguments.any fun a => a = "-p")) (arguments.filter fun a => a.head? ≠ some '-')

/-- The names in a folder, in the order of their bytes; those that start with a point are hidden. -/
def namesIn (files : FileTree) (folder : Place) : List Text :=
  let places := files.files.map Prod.fst ++ files.folders
  let names := places.filterMap fun place =>
    if folder.isPrefixOf place then (place.drop folder.length).head? else none
  (names.filter fun name => name.head? ≠ some '.').eraseDups.mergeSort fun a b => Utf8.encode a ≤ Utf8.encode b

/-- Lists files, and what is in folders. -/
def list (files : FileTree) (arguments : List Text) : Effect :=
  let paths := arguments.filter fun a => a.head? ≠ some '-'
  .each files (fun path files =>
    let written := fun names : List Text =>
      Effect.writes files (Utf8.encode (names.flatMap fun name => (name ++ "\n" : Text)))
    match files.readBytes path, files.locate path with
    | .error .isAFolder, .ok place => written (namesIn files place)
    | .ok _, _ => written [path]
    | .error e, _ => .fails files 2 ("ls: cannot access '" ++ path ++ "': " ++ reason e))
    (if paths.isEmpty then ["."] else paths)

/-! Conditions -/

/-- The conditions on two numbers. -/
def comparisons : List (Text × (Int → Int → Bool)) :=
  [("-eq", (· == ·)), ("-ne", (· != ·)), ("-lt", (· < ·)), ("-le", (· ≤ ·)), ("-gt", (· > ·)),
   ("-ge", (· ≥ ·))]

/-- Reads a number with its sign. -/
def integer? (t : Text) : Option Int :=
  match Text.after? "-" t with
  | some digits => (Text.natBelow? Text.bound64 digits).map fun n => -(n : Int)
  | none => (Text.natBelow? Text.bound64 t).map fun n => (n : Int)

/-- A condition on a path or a text. -/
def condition? (files : FileTree) (operator operand : Text) : Option Bool :=
  let found := readFile files operand
  let isFolder := files.isFolder operand
  if operator = "-n" then some (operand ≠ [])
  else if operator = "-z" then some (operand = [])
  else if operator = "-f" then some found.isOk
  else if operator = "-d" ∨ operator = "-x" then some isFolder
  else if operator = "-e" ∨ operator = "-r" ∨ operator = "-w" then some (found.isOk || isFolder)
  else if operator = "-s" then some (isFolder || found.toOption.any (!·.isEmpty))
  else none

/-- A condition on two texts. -/
def relation? (a operator b : Text) : Option Bool :=
  if operator = "=" then some (a = b)
  else if operator = "!=" then some (a ≠ b)
  else do
    let compare ← comparisons.lookup operator
    let a ← integer? a
    let b ← integer? b
    return compare a b

/-- Does a condition hold? -/
def holds? (files : FileTree) : List Text → Option Bool
  | [] => some false
  | [a] => some (a ≠ [])
  | a :: b :: rest =>
    match rest with
    | [] => if a = "!" then some (b = []) else condition? files a b
    | [c] => if a = "!" ∧ b ≠ "=" ∧ b ≠ "!=" then (condition? files b c).map (!·) else relation? a b c
    | c :: d :: [] => if a = "!" then (relation? b c d).map (!·) else none
    | _ => none

/-- Ends as a condition holds or not. -/
def decideBy (files : FileTree) (condition : List Text) : Effect :=
  .ends files <| match holds? files condition with
    | some true => 0
    | some false => 1
    | none => 2

/-- The programs by their names, given the files, the input and the arguments. -/
def programs : List (Text × (FileTree → Bytes → List Text → Effect)) :=
  [("true", fun files _ _ => .ends files 0), ("false", fun files _ _ => .ends files 1),
   ("echo", fun files _ arguments => echo files arguments),
   ("printf", fun files _ arguments => printf files arguments), ("cat", cat),
   ("cp", fun files _ arguments => copy false files arguments),
   ("mv", fun files _ arguments => copy true files arguments),
   ("rm", fun files _ arguments => remove files arguments),
   ("touch", fun files _ arguments => touch files arguments),
   ("mkdir", fun files _ arguments => makeFolders files arguments),
   ("ls", fun files _ arguments => list files arguments),
   ("test", fun files _ arguments => decideBy files arguments),
   ("[", fun files _ arguments =>
      decideBy files (if arguments.getLast? = some "]" then arguments.dropLast else arguments)),
   ("sleep", fun files _ _ => .ends files 0)]

end Manuscript.Shell
