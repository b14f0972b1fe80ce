import Manuscript.Text.Basic
import Manuscript.Text.Numeral

/-!
JSON values and their two written forms: compact, and indented by two spaces a level.
-/

namespace Manuscript

/-- A JSON value.  A number is kept as it is written.  A string is `none` when its escapes name half of a
surrogate pair, so that it is no text. -/
inductive Json where
  | null
  | bool (b : Bool)
  | number (lexeme : Text)
  | string (value : Option Text)
  | array (items : List Json)
  /-- The members in the order they are written, a key as often as it occurs. -/
  | object (members : List (Option Text × Json))

namespace Json

/-- The string of a text. -/
def ofText (t : Text) : Json := .string (some t)

/-- The number of a natural number. -/
def ofNat (n : Nat) : Json := .number (Text.ofNat n)

/-- A hexadecimal digit. -/
def hexDigit (n : Nat) : Char := Nat.digitChar (n % 16)

/-- A character inside a string. -/
def stringCharacter (c : Char) : Text :=
  if c = '"' then "\\\""
  else if c = '\\' then "\\\\"
  else if c = '\n' then "\\n"
  else if c = '\r' then "\\r"
  else if c = '\t' then "\\t"
  else if c.toNat = 8 then "\\b"
  else if c.toNat = 12 then "\\f"
  else if c.toNat < 32 then "\\u00" ++ [hexDigit (c.toNat / 16), hexDigit c.toNat]
  else [c]

/-- A text as a string. -/
def quote (t : Text) : Text := '"' :: t.flatMap stringCharacter ++ ['"']

mutual

/-- The value without any blanks. -/
def compact : Json → Text
  | .null => "null"
  | .bool true => "true"
  | .bool false => "false"
  | .number lexeme => lexeme
  | .string value => quote (value.getD [])
  | .array items => "[" ++ Text.join "," (compactItems items) ++ "]"
  | .object members => "\x7b" ++ Text.join "," (compactMembers members) ++ "\x7d"

/-- The items of an array. -/
def compactItems : List Json → List Text
  | [] => []
  | item :: rest => compact item :: compactItems rest

/-- The members of an object. -/
def compactMembers : List (Option Text × Json) → List Text
  | [] => []
  | (key, value) :: rest => (quote (key.getD []) ++ ":" ++ compact value) :: compactMembers rest

end

/-- A bracketed list with an item a line, the items one level further in than the brackets. -/
def block (opening closing : Text) (level : Nat) (items : List Text) : Text :=
  if items.isEmpty then opening ++ closing
  else
    let indent := fun n => '\n' :: List.replicate (2 * n) ' '
    opening ++ indent (level + 1) ++ Text.join ("," ++ indent (level + 1)) items ++ indent level ++ closing

mutual

/-- The value with an item or member a line. -/
def pretty (level : Nat) : Json → Text
  | .array items => block "[" "]" level (prettyItems (level + 1) items)
  | .object members => block "\x7b" "\x7d" level (prettyMembers (level + 1) members)
  | .null => "null"
  | .bool true => "true"
  | .bool false => "false"
  | .number lexeme => lexeme
  | .string value => quote (value.getD [])

/-- The items of an array. -/
def prettyItems (level : Nat) : List Json → List Text
  | [] => []
  | item :: rest => pretty level item :: prettyItems level rest

/-- The members of an object. -/
def prettyMembers (level : Nat) : List (Option Text × Json) → List Text
  | [] => []
  | (key, value) :: rest =>
    (quote (key.getD []) ++ ": " ++ pretty level value) :: prettyMembers level rest

end

end Json

end Manuscript
