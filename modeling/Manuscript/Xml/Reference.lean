import Manuscript.Text.Numeral
import Manuscript.Xml.Character

/-!
Character references, and how line ends and spaces are made alike around them.  What is written as a
reference stays as it is.
-/

namespace Manuscript.Xml

/-- A character of a text or of an attribute value. -/
inductive Piece where
  | plain (c : Char)
  | referred (c : Char)

/-- A character, whether it was referred to or not. -/
def Piece.character : Piece → Char
  | .plain c | .referred c => c

/-- The value of a digit in a base up to 16. -/
def digitValue? (base : Nat) (c : Char) : Option Nat :=
  let value :=
    if c.isDigit then some (c.toNat - 48)
    else if 'a' ≤ c ∧ c ≤ 'f' then some (c.toNat - 87)
    else if 'A' ≤ c ∧ c ≤ 'F' then some (c.toNat - 55)
    else none
  value.filter (· < base)

/-- A number below 2^32. -/
def codePoint? (base : Nat) (digits : Text) : Option Nat := do
  let values ← digits.mapM (digitValue? base)
  let n := values.foldl (fun n d => n * base + d) 0
  if digits = [] ∨ Text.bound32 ≤ n then none else some n

/-- The character of a code point; what is none gives the replacement character. -/
def characterOf (n : Nat) : Char :=
  if n.isValidChar then Char.ofNat n else '\uFFFD'

/-- The character that stands between the ampersand and the semicolon of a reference. -/
def referred? (body : Text) : Option Char :=
  match body with
  | '#' :: 'x' :: digits => ((codePoint? 16 digits).map characterOf).filter isCharacter
  | '#' :: digits => ((codePoint? 10 digits).map characterOf).filter isCharacter
  | _ =>
    if body = "quot" then some '"'
    else if body = "apos" then some '\''
    else if body = "amp" then some '&'
    else if body = "lt" then some '<'
    else if body = "gt" then some '>'
    else none

/-- The characters of a text with its references resolved. -/
def pieces? (t : Text) : Option (List Piece) :=
  match t with
  | [] => some []
  | c :: rest =>
    if c = '&' then
      match h : Text.cut? ";" rest with
      | none => none
      | some (body, rest') =>
        have := Text.length_lt_of_cut? (by decide) h
        match referred? body with
        | none => none
        | some d => (pieces? rest').map (.referred d :: ·)
    else (pieces? rest).map (.plain c :: ·)
termination_by t.length
decreasing_by all_goals simp_all <;> omega

/-- Adds a character to a text that is held backwards.  A carriage return at its end becomes a line feed, of
which a line feed after it is a part. -/
def pushLine (backwards : Text) (c : Char) (isLast : Bool) : Text :=
  let c' := if isLast && c == '\r' then '\n' else c
  match backwards with
  | '\r' :: before => if c = '\n' then '\n' :: before else c' :: '\n' :: before
  | _ => c' :: backwards

/-- The text of some pieces with line ends made alike.  A reference, and the character after it, are left as
they are. -/
def joinLines (isAfterReference : Bool) (backwards : Text) : List Piece → Text
  | [] => backwards.reverse
  | .referred c :: rest => joinLines true (c :: backwards) rest
  | .plain c :: rest =>
    joinLines false (if isAfterReference then c :: backwards else pushLine backwards c rest.isEmpty) rest

/-- Text with its references resolved and its line ends made alike. -/
def text? (raw : Text) : Option Text := (pieces? raw).map (joinLines false [])

/-- The text of a section without references. -/
def literalText (raw : Text) : Text := joinLines false [] (raw.map .plain)

/-- An attribute value in which every line end, carriage return and tabulator has become a space. -/
def joinSpaces : List Piece → Text
  | [] => []
  | .referred c :: rest => c :: joinSpaces rest
  | .plain '\r' :: .plain '\n' :: rest => ' ' :: joinSpaces rest
  | .plain c :: rest => (if isSpace c then ' ' else c) :: joinSpaces rest

/-- An attribute value with its references resolved. -/
def value? (raw : Text) : Option Text := (pieces? raw).map joinSpaces

end Manuscript.Xml
