import Manuscript.Text.Basic
import Manuscript.Text.Letter

/-!
The characters of XML and the names that are made of them.
-/

namespace Manuscript.Xml

/-- The characters that may stand between names. -/
def isSpace (c : Char) : Bool := c == ' ' || c == '\t' || c == '\n' || c == '\r'

/-- The characters that may occur at all. -/
def isCharacter (c : Char) : Bool :=
  if c.toNat < 0x20 then isSpace c else c.toNat ≠ 0xFFFE && c.toNat ≠ 0xFFFF

/-- The characters beyond ASCII that a name may start with. -/
def nameStartRanges : CodeRanges :=
  [(0xC0, 0xD6), (0xD8, 0xF6), (0xF8, 0x2FF), (0x370, 0x37D), (0x37F, 0x1FFF), (0x200C, 0x200D),
   (0x2070, 0x218F), (0x2C00, 0x2FEF), (0x3001, 0xD7FF), (0xF900, 0xFDCF), (0xFDF0, 0xFFFD),
   (0x10000, 0xEFFFF)]

/-- The characters beyond ASCII that a name may go on with, besides those that it may start with. -/
def nameExtraRanges : CodeRanges := [(0xB7, 0xB7), (0x300, 0x36F), (0x203F, 0x2040)]

/-- May a name start with the character? -/
def isNameStart (c : Char) : Bool := c.isAlpha || c == ':' || c == '_' || nameStartRanges.has c

/-- May a name go on with the character? -/
def isNameCharacter (c : Char) : Bool :=
  isNameStart c || c.isDigit || c == '-' || c == '.' || nameExtraRanges.has c

/-- The text without the spaces at its start. -/
def skipSpaces (t : Text) : Text := t.dropWhile isSpace

/-- Reads a name. -/
def name? (t : Text) : Option (Text × Text) :=
  if t.head?.any isNameStart then some (t.takeWhile isNameCharacter, t.dropWhile isNameCharacter)
  else none

/-- A name in two parts: a prefix, which may be empty, and the name that it qualifies. -/
structure QName where
  qualifier : Text
  name : Text
  deriving DecidableEq

/-- Reads a name in two parts, with a colon between them when there are two. -/
def qname? (t : Text) : Option (QName × Text) :=
  let lexeme := t.takeWhile isNameCharacter
  let qname : QName :=
    match Text.cut? ":" lexeme with
    | none => ⟨[], lexeme⟩
    | some (qualifier, name) => ⟨qualifier, name⟩
  if qname.name.head?.any isNameStart && !qname.name.elem ':' &&
      qname.qualifier.head?.all isNameStart then
    some (qname, t.dropWhile isNameCharacter)
  else none

end Manuscript.Xml
