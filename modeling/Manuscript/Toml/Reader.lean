import Manuscript.Toml.Scalar
import Manuscript.Toml.Table

/-!
Reading TOML.
-/

namespace Manuscript.Toml

/-- The text after blanks. -/
def skipBlanks (t : Text) : Text := t.dropWhile fun c => c == ' ' || c == '\t'

/-- Is it a control that no text may hold? -/
def isControl (c : Char) : Bool := (c.toNat < 32 && c ≠ '\t') || c.toNat == 127

/-- The text after a line end. -/
def afterLineEnd? (t : Text) : Option Text :=
  match t with
  | '\n' :: rest | '\r' :: '\n' :: rest => some rest
  | _ => none

/-- The text after blanks and a comment, which must be sound. -/
def skipComment? (t : Text) : Option Text :=
  match skipBlanks t with
  | '#' :: rest =>
    let rest := rest.dropWhile (!isControl ·)
    if rest = [] ∨ (afterLineEnd? rest).isSome then some rest else none
  | t => some t

/-- The text after blanks, comments and line ends. -/
def skipLines? : (fuel : Nat) → Text → Option Text
  | 0, _ => none
  | fuel + 1, t =>
    match skipComment? t with
    | none => none
    | some t =>
      match afterLineEnd? t with
      | some rest => skipLines? fuel rest
      | none => some t

/-! Strings -/

/-- The character with a number of hexadecimal digits. -/
def codePoint? (count : Nat) (t : Text) : Option (Char × Text) :=
  let digits := t.take count
  let n := digitsValue 16 digits
  if digits.length = count ∧ digits.all isHexDigit ∧ n.isValidChar then some (Char.ofNat n, t.drop count)
  else none

/-- Reads an escape from after its backslash. -/
def escape? (t : Text) : Option (Char × Text) :=
  match t with
  | 'u' :: rest => codePoint? 4 rest
  | 'U' :: rest => codePoint? 8 rest
  | c :: rest =>
    (([('b', Char.ofNat 8), ('t', '\t'), ('n', '\n'), ('f', Char.ofNat 12), ('r', '\r'), ('"', '"'),
      ('\\', '\\')] : List (Char × Char)).lookup c).map fun e => (e, rest)
  | [] => none

/-- The text after a backslash at the end of a line and the blanks and line ends that follow it. -/
def afterLineBreak? (t : Text) : Option Text :=
  (afterLineEnd? (skipBlanks t)).map fun rest =>
    rest.dropWhile fun c => c == ' ' || c == '\t' || c == '\n' || c == '\r'

/-- Reads a string to its closing quotation mark, from after its opening one. -/
def basic? : (fuel : Nat) → Text → Option (Text × Text)
  | 0, _ | _, [] => none
  | fuel + 1, c :: rest =>
    let goOn := fun c rest => (basic? fuel rest).map fun (t, rest) => (c :: t, rest)
    if c = '"' then some ([], rest)
    else if c = '\\' then (escape? rest).bind fun (e, rest) => goOn e rest
    else if isControl c then none
    else goOn c rest

/-- The closing of a string of several lines: three quotation marks, before which two may belong to it. -/
def closing? (quote : Char) (t : Text) : Option (Text × Text) :=
  let quotes := (t.take 5).takeWhile (· == quote)
  if quotes.length < 3 then none else some (quotes.drop 3, t.drop quotes.length)

/-- Reads a string of several lines from after its opening. -/
def longString? (quote : Char) : (fuel : Nat) → Text → Option (Text × Text)
  | 0, _ | _, [] => none
  | fuel + 1, c :: rest =>
    let goOn := fun c rest => (longString? quote fuel rest).map fun (t, rest) => (c :: t, rest)
    match closing? quote (c :: rest) with
    | some found => some found
    | none =>
      match afterLineEnd? (c :: rest) with
      | some rest => goOn '\n' rest
      | none =>
        if c = '\\' ∧ quote = '"' then
          match afterLineBreak? rest with
          | some rest => longString? quote fuel rest
          | none => (escape? rest).bind fun (e, rest) => goOn e rest
        else if isControl c then none
        else goOn c rest

/-- Reads a string on one line. -/
def shortString? (t : Text) : Option (Text × Text) :=
  match t with
  | '"' :: rest => basic? (rest.length + 1) rest
  | '\'' :: rest => (Text.cut? "'" rest).filter fun (body, _) => body.all (!isControl ·)
  | _ => none

/-- Reads a string. -/
def string? (t : Text) : Option (Text × Text) :=
  let long := fun quote rest =>
    let rest := (afterLineEnd? rest).getD rest
    longString? quote (rest.length + 1) rest
  match t with
  | '"' :: '"' :: '"' :: rest => long '"' rest
  | '\'' :: '\'' :: '\'' :: rest => long '\'' rest
  | t => shortString? t

/-! Keys and values -/

/-- May the character be in a key without quotes? -/
def isKeyCharacter (c : Char) : Bool := c.isAlphanum || c == '_' || c == '-'

/-- Reads a part of a key. -/
def keyPart? (t : Text) : Option (Text × Text) :=
  let bare := t.takeWhile isKeyCharacter
  if bare = [] then shortString? t else some (bare, t.drop bare.length)

/-- Reads a key, and the blanks after it. -/
def key? : (fuel : Nat) → Text → Option (List Text × Text)
  | 0, _ => none
  | fuel + 1, t =>
    match keyPart? (skipBlanks t) with
    | none => none
    | some (part, rest) =>
      match skipBlanks rest with
      | '.' :: rest => (key? fuel rest).map fun (parts, rest) => (part :: parts, rest)
      | rest => some ([part], rest)

mutual

/-- Reads a value. -/
def value? : (fuel : Nat) → Text → Option (Json × Text)
  | 0, _ => none
  | fuel + 1, t =>
    match t with
    | '[' :: rest => array? fuel [] rest
    | '\x7b' :: rest =>
      match skipBlanks rest with
      | '\x7d' :: rest => some (.object [], rest)
      | rest => inlineTable? fuel [] rest
    | t =>
      match string? t with
      | some (s, rest) => some (.ofText s, rest)
      | none =>
        let (lexeme, rest) := takeScalar t
        if isScalar lexeme then some (.number lexeme, rest) else none

/-- Reads the items of an array that are left. -/
def array? : (fuel : Nat) → List Json → Text → Option (Json × Text)
  | 0, _, _ => none
  | fuel + 1, items, t =>
    match skipLines? (t.length + 1) t with
    | none => none
    | some (']' :: rest) => some (.array items, rest)
    | some t =>
      match value? fuel t with
      | none => none
      | some (v, rest) =>
        match skipLines? (rest.length + 1) rest with
        | some (',' :: rest) => array? fuel (items ++ [v]) rest
        | some (']' :: rest) => some (.array (items ++ [v]), rest)
        | _ => none

/-- Reads the members of a table in braces that are left. -/
def inlineTable? : (fuel : Nat) → Members → Text → Option (Json × Text)
  | 0, _, _ => none
  | fuel + 1, m, t =>
    match key? (t.length + 1) t with
    | some (key, '=' :: rest) =>
      match value? fuel (skipBlanks rest) with
      | none => none
      | some (v, rest) =>
        match m.define v key, skipBlanks rest with
        | some m, ',' :: rest => inlineTable? fuel m rest
        | some m, '\x7d' :: rest => some (.object (membersJson m), rest)
        | _, _ => none
    | _ => none

end

/-! Documents -/

/-- Reads a header: is it one of several tables, its path, and the text after it. -/
def header? (t : Text) : Option (Bool × List Text × Text) :=
  match t with
  | '[' :: '[' :: rest =>
    (key? (rest.length + 1) rest).bind fun (key, rest) =>
      (Text.after? "]]" rest).map fun rest => (true, key, rest)
  | '[' :: rest =>
    (key? (rest.length + 1) rest).bind fun (key, rest) => (Text.after? "]" rest).map fun rest => (false, key, rest)
  | _ => none

/-- Reads what stands on a line: the members after it, and the path of the table that is open. -/
def line? (m : Members) (path : List Text) (t : Text) : Option (Members × List Text × Text) :=
  if t.head? = some '[' then do
    let (isAnother, key, rest) ← header? t
    let name ← key.getLast?
    let m ← m.alter (if isAnother then Members.beginAnother name else Members.beginTable name) key.dropLast
    return (m, key, rest)
  else
    match key? (t.length + 1) t with
    | some (key, '=' :: rest) => do
      let (v, rest) ← value? (rest.length + 1) (skipBlanks rest)
      let m ← m.alter (Members.define v key) path
      return (m, path, rest)
    | _ => none

/-- Reads the lines that are left. -/
def lines? : (fuel : Nat) → Members → List Text → Text → Option Members
  | 0, _, _, _ => none
  | fuel + 1, m, path, t =>
    match skipLines? (t.length + 1) t with
    | none => none
    | some [] => some m
    | some t =>
      match line? m path t with
      | none => none
      | some (m, path, rest) =>
        match skipComment? rest with
        | none => none
        | some [] => some m
        | some rest => (afterLineEnd? rest).bind fun rest => lines? fuel m path rest

/-- The object that a text stands for. -/
def parse? (t : Text) : Option Json :=
  let t := (Text.after? ['\uFEFF'] t).getD t
  (lines? (t.length + 1) [] [] t).map fun m => .object (membersJson m)

end Manuscript.Toml
