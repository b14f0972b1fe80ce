import Manuscript.Text.Basic

/-!
Scripts of a small part of the shell's language: commands of words and redirections, one after the other, on
condition, or with the output of one as the input of the next.
-/

namespace Manuscript.Shell

/-- What a part of a word stands for. -/
inductive Part where
  | text (t : Text)
  /-- The value of a parameter. -/
  | parameter (name : Text)
  /-- The output of a script. -/
  | output (script : Text)
  deriving DecidableEq

/-- A part of a word; the value of a quoted part is not split at blanks. -/
structure Piece where
  isQuoted : Bool
  part : Part
  deriving DecidableEq

/-- A word as it is written. -/
abbrev Word := List Piece

/-- Where a command reads from or writes to. -/
inductive Redirection where
  | input (file : Word)
  | output (stream : Char) (file : Word) (isAppended : Bool)
  /-- A stream goes where another one goes. -/
  | copy (stream : Char) (other : Word)
  deriving DecidableEq

/-- A command, and the line it stands on. -/
structure Command where
  line : Nat
  words : List Word
  redirections : List Redirection
  deriving DecidableEq

/-- How a command follows the one before it. -/
inductive Connector where
  | next
  /-- If the one before it succeeds. -/
  | both
  /-- If the one before it fails. -/
  | either
  /-- With the output of the one before it as its input. -/
  | pipe
  deriving DecidableEq

/-- The commands of a script, and what stands in the way of reading more of them: a line and a message. -/
structure Script where
  commands : List (Connector × Command)
  error : Option (Nat × Text)
  deriving DecidableEq

/-! Words -/

/-- Splits off the script of a substitution, up to its closing parenthesis; in quotes parentheses do not count. -/
def substitution? (depth : Nat) (quote : Option Char) : Text → Option (Text × Text)
  | [] => none
  | c :: rest =>
    let goOn := fun depth quote => (substitution? depth quote rest).map fun (t, rest) => (c :: t, rest)
    match quote with
    | some q => goOn depth (if c = q then none else some q)
    | none =>
      if c = '\'' ∨ c = '"' then goOn depth (some c)
      else if c = '(' then goOn (depth + 1) none
      else if c = ')' then if depth = 0 then some ([], rest) else goOn (depth - 1) none
      else goOn depth none

/-- May the character be in the name of a variable? -/
def isNameCharacter (c : Char) : Bool := c.isAlphanum || c == '_'

/-- Is it the name of a parameter that is a single character? -/
def isSpecial (c : Char) : Bool := c.isDigit || "?#@*$!-".toList.contains c

/-- Reads what follows a dollar sign. -/
def parameter? (t : Text) : Option (Part × Text) :=
  match t with
  | '(' :: rest => (substitution? 0 none rest).map fun (script, rest) => (.output script, rest)
  | '\x7b' :: rest => (Text.cut? "\x7d" rest).map fun (name, rest) => (.parameter name, rest)
  | c :: rest =>
    if isSpecial c then some (.parameter [c], rest)
    else
      let name := t.takeWhile isNameCharacter
      if name = [] then some (.text ['$'], t) else some (.parameter name, t.dropWhile isNameCharacter)
  | [] => some (.text ['$'], [])

/-- Does the character end a word? -/
def endsWord (c : Char) : Bool := " \t\n;&|<>()".toList.contains c

/-- Reads a word, whose next part is quoted or not; `none` if a quotation does not end. -/
def word? : (fuel : Nat) → (isQuoted : Bool) → Text → Option (Word × Text)
  | 0, _, _ => none
  | fuel + 1, isQuoted, t =>
    let goOn := fun isQuoted part isQuotedAfter rest =>
      (word? fuel isQuotedAfter rest).map fun (w, rest) => ((⟨isQuoted, part⟩ : Piece) :: w, rest)
    match t with
    | [] => if isQuoted then none else some ([], [])
    | '"' :: rest => goOn true (.text []) (!isQuoted) rest
    | '\\' :: '\n' :: rest => word? fuel isQuoted rest
    | '\\' :: c :: rest =>
      if !isQuoted ∨ "$\"\\\x60".toList.contains c then goOn true (.text [c]) isQuoted rest
      else goOn true (.text ['\\', c]) isQuoted rest
    | '$' :: rest =>
      match parameter? rest with
      | none => none
      | some (part, rest) => goOn isQuoted part isQuoted rest
    | '\x60' :: rest =>
      match Text.cut? ['\x60'] rest with
      | none => none
      | some (script, rest) => goOn isQuoted (.output script) isQuoted rest
    | c :: rest =>
      if isQuoted then goOn true (.text [c]) true rest
      else if c = '\'' then
        match Text.cut? "'" rest with
        | none => none
        | some (t, rest) => goOn true (.text t) false rest
      else if endsWord c then some ([], t)
      else goOn true (.text [c]) false rest

/-! Commands -/

/-- Reads a redirection of a stream from after its bracket. -/
def redirection? (fuel : Nat) (stream : Char) (isInput : Bool) (t : Text) : Option (Redirection × Text) :=
  let skip := fun t : Text => t.dropWhile fun c => c == ' ' || c == '\t'
  let operand := fun (f : Word → Redirection) (t : Text) =>
    match word? fuel false (skip t) with
    | some (w, rest) => if w = [] then none else some (f w, rest)
    | none => none
  match isInput, t with
  | true, '<' :: _ => none
  | true, '&' :: rest => operand (.copy stream) rest
  | true, t => operand .input t
  | false, '>' :: rest => operand (.output stream · true) rest
  | false, '&' :: rest => operand (.copy stream) rest
  | false, '|' :: rest => operand (.output stream · false) rest
  | false, t => operand (.output stream · false) t

/-- The connector that begins here, and its length. -/
def connector? : Text → Option (Connector × Nat)
  | '&' :: '&' :: _ => some (.both, 2)
  | '|' :: '|' :: _ => some (.either, 2)
  | '|' :: _ => some (.pipe, 1)
  | '&' :: _ | ';' :: _ | '\n' :: _ => some (.next, 1)
  | _ => none

/-- The script that goes on with a command, where one has been read. -/
def Script.after (connector : Connector) (c : Command) (s : Script) : Script :=
  if c.words.isEmpty && c.redirections.isEmpty then s
  else { s with commands := (connector, c) :: s.commands }

/-- The script that cannot be read further. -/
def Script.broken (line : Nat) (message : Text) : Script :=
  ⟨[], some (line, "Syntax error: " ++ message)⟩

/-- Reads commands, of which one has begun. -/
def readCommands : (fuel : Nat) → (line : Nat) → Connector → Command → Text → Script
  | 0, _, connector, c, _ => Script.after connector c ⟨[], none⟩
  | fuel + 1, line, connector, c, t =>
    let isEmpty := c.words.isEmpty && c.redirections.isEmpty
    let redirect := fun stream isInput rest =>
      match redirection? fuel stream isInput rest with
      | none => Script.broken line "redirection unexpected"
      | some (r, rest) =>
        readCommands fuel line connector { c with line := line, redirections := c.redirections ++ [r] } rest
    match t with
    | [] =>
      if isEmpty && connector ≠ .next then Script.broken line "end of file unexpected"
      else Script.after connector c ⟨[], none⟩
    | a :: rest =>
      if a = ' ' ∨ a = '\t' then readCommands fuel line connector c rest
      else if a = '#' then readCommands fuel line connector c (rest.dropWhile (· ≠ '\n'))
      else if a = '\n' ∧ isEmpty then readCommands fuel (line + 1) connector c rest
      else if a = '(' ∨ a = ')' then Script.broken line ("\"" ++ [a] ++ "\" unexpected")
      else if a = '>' then redirect '1' false rest
      else if a = '<' then redirect '0' true rest
      else if a.isDigit ∧ rest.head? = some '>' then redirect a false rest.tail
      else if a.isDigit ∧ rest.head? = some '<' then redirect a true rest.tail
      else
        match connector? t with
        | some (follows, length) =>
          if isEmpty then Script.broken line ("\"" ++ t.take length ++ "\" unexpected")
          else
            Script.after connector c
              (readCommands fuel (if a = '\n' then line + 1 else line) follows ⟨line, [], []⟩ (t.drop length))
        | none =>
          match word? (t.length + 1) false t with
          | none => Script.broken line "Unterminated quoted string"
          | some (w, rest) =>
            readCommands fuel line connector { c with line := line, words := c.words ++ [w] } rest

/-- Reads a script.  A line that cannot be read to its end is not run. -/
def Script.ofText (t : Text) : Script :=
  let s := readCommands (2 * t.length + 2) 1 .next ⟨1, [], []⟩ t
  match s.error with
  | none => s
  | some (line, _) => { s with commands := s.commands.filter fun c => c.2.line ≠ line }

end Manuscript.Shell
