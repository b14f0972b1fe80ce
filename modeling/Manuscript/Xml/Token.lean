import Manuscript.Xml.Reference

/-!
The tokens of an XML document: tags, text, and what leaves nothing in the tree.
-/

namespace Manuscript.Xml

/-- An attribute as it is written, its value with references resolved. -/
structure Attribute where
  name : QName
  value : Text

/-- A token. -/
inductive Token where
  | opens (name : QName) (attributes : List Attribute) (isEmpty : Bool)
  | closes (name : QName)
  | text (t : Text)
  /-- A comment or a processing instruction. -/
  | aside

/-- Reads a comment from after its opening. -/
def comment? (t : Text) : Option Text := do
  let (body, rest) ← Text.cut? "-->" t
  if body.all isCharacter && !Text.contains "--" body && body.getLast? ≠ some '-' then some rest else none

/-- Reads a processing instruction; the declaration of the document is none. -/
def instruction? (t : Text) : Option Text := do
  let rest ← Text.after? "<?" t
  let (_, rest) ← name? rest
  let (body, rest) ← Text.cut? "?>" (skipSpaces rest)
  if Text.startsWith "<?xml " t || !body.all isCharacter then none else some rest

/-- Reads an equals sign and a value in quotes. -/
def quoted? (t : Text) : Option (Text × Text) := do
  let rest ← Text.after? "=" (skipSpaces t)
  match skipSpaces rest with
  | [] => none
  | quote :: rest =>
    if quote = '"' ∨ quote = '\'' then do
      let (raw, rest) ← Text.cut? [quote] rest
      if raw.all isCharacter && !raw.elem '<' then some (raw, rest) else none
    else none

/-- Reads an attribute as it is written. -/
def rawAttribute? (t : Text) : Option (QName × Text × Text) := do
  let (name, rest) ← qname? t
  let (raw, rest) ← quoted? rest
  return (name, raw, rest)

/-- Reads an attribute. -/
def attribute? (t : Text) : Option (Attribute × Text) := do
  let (name, raw, rest) ← rawAttribute? t
  let value ← value? raw
  return (⟨name, value⟩, rest)

/-- Reads the attributes and the end of an opening tag; a space precedes each attribute. -/
def tagEnd? (attributes : List Attribute) (t : Text) : Option (List Attribute × Bool × Text) :=
  match skipSpaces t with
  | '/' :: '>' :: rest => some (attributes, true, rest)
  | '>' :: rest => some (attributes, false, rest)
  | trimmed =>
    if t.head?.any isSpace then
      match attribute? trimmed with
      | none => none
      | some (a, rest) => if rest.length < t.length then tagEnd? (attributes ++ [a]) rest else none
    else none
termination_by t.length

/-- Reads an opening tag from after its angle bracket. -/
def opening? (t : Text) : Option (Token × Text) := do
  let (name, rest) ← qname? t
  let (attributes, isEmpty, rest) ← tagEnd? [] rest
  return (.opens name attributes isEmpty, rest)

/-- Reads a closing tag from after its slash. -/
def closing? (t : Text) : Option (Token × Text) := do
  let (name, rest) ← qname? t
  let rest ← Text.after? ">" (skipSpaces rest)
  return (.closes name, rest)

/-- Reads a section of text without markup, from after its opening. -/
def section? (t : Text) : Option (Token × Text) := do
  let (body, rest) ← Text.cut? "]]>" t
  if body.all isCharacter then some (.text (literalText body), rest) else none

/-- Reads text up to the next tag. -/
def charData? (t : Text) : Option (Token × Text) := do
  let raw := t.takeWhile (· ≠ '<')
  let s ← text? raw
  if raw.all isCharacter && !Text.contains "]]>" raw then some (.text s, t.dropWhile (· ≠ '<')) else none

/-- Reads the next token inside an element. -/
def token? (t : Text) : Option (Token × Text) :=
  match t with
  | [] => none
  | '<' :: '!' :: rest =>
    match Text.after? "--" rest, Text.after? "[CDATA[" rest with
    | some rest, _ => (comment? rest).map fun rest => (.aside, rest)
    | none, some rest => section? rest
    | none, none => none
  | '<' :: '?' :: _ => (instruction? t).map fun rest => (.aside, rest)
  | '<' :: '/' :: rest => closing? rest
  | '<' :: rest => opening? rest
  | _ => charData? t

/-- The text after a byte order mark. -/
def afterMark (t : Text) : Text := (Text.after? ['\uFEFF'] t).getD t

/-- Are there spaces, or does the declaration end? -/
def isSeparated (t : Text) : Bool := t.head?.any isSpace || Text.startsWith "?>" t

/-- Reads an attribute of the declaration, if there is one of the name. -/
def declared? (name t : Text) : Option Text :=
  if Text.startsWith name t then (rawAttribute? t).map fun (_, _, rest) => rest else some t

/-- Reads the declaration of a document: a version, then an encoding, then whether it stands alone. -/
def declaration? (t : Text) : Option Text := do
  let rest := skipSpaces t
  if !Text.startsWith "version" rest then none
  let rest ← declared? "version" rest
  if !isSeparated rest then none
  let rest := skipSpaces rest
  let afterEncoding ← declared? "encoding" rest
  if Text.startsWith "encoding" rest && !isSeparated afterEncoding then none
  let rest ← declared? "standalone" (skipSpaces afterEncoding)
  Text.after? "?>" (skipSpaces rest)

/-- Reads spaces, comments and processing instructions. -/
def asides? (t : Text) : Option Text :=
  let rest := skipSpaces t
  let next :=
    match Text.after? "<!--" rest with
    | some body => comment? body
    | none => if Text.startsWith "<?" rest then instruction? rest else some rest
  match next with
  | none => none
  | some next =>
    if next.length < rest.length ∧ rest.length ≤ t.length then asides? next else some rest
termination_by t.length

/-- Reads all that may stand before the first tag. -/
def prolog? (t : Text) : Option Text := do
  let t := afterMark t
  let rest ← match Text.after? "<?xml " t with
    | some rest => declaration? rest
    | none => some t
  asides? rest

end Manuscript.Xml
