import Manuscript.Json.Basic

/-!
Reading JSON: characters are gathered into tokens by a machine that looks at one character at a time, and the
tokens are gathered into a value by a machine that keeps the arrays and objects that are still open.
-/

namespace Manuscript.Json

/-- A lexeme. -/
inductive Token where
  /-- A bracket, a colon or a comma. -/
  | mark (c : Char)
  | string (value : Option Text)
  | number (lexeme : Text)
  /-- A run of letters. -/
  | word (letters : Text)

namespace Lexer

/-- The part of a string that has been read, backwards. -/
structure Quoted where
  chars : Text
  /-- No half of a surrogate pair has stood alone so far. -/
  isSound : Bool
  /-- The first half of a surrogate pair, when it was the last thing read. -/
  high : Option Nat

/-- A pending first half that nothing completes stands alone. -/
def Quoted.settle (q : Quoted) : Quoted := ⟨q.chars, q.isSound && q.high.isNone, none⟩

/-- Adds a character. -/
def Quoted.push (q : Quoted) (c : Char) : Quoted :=
  let settled := q.settle
  { settled with chars := c :: settled.chars }

/-- Adds a code unit that was written in hexadecimal digits. -/
def Quoted.pushUnit (q : Quoted) (unit : Nat) : Quoted :=
  if 0xDC00 ≤ unit ∧ unit ≤ 0xDFFF then
    match q.high with
    | some high =>
      ⟨Char.ofNat (0x10000 + (high - 0xD800) * 0x400 + (unit - 0xDC00)) :: q.chars, q.isSound, none⟩
    | none => { q with isSound := false }
  else if 0xD800 ≤ unit ∧ unit ≤ 0xDBFF then { q.settle with high := some unit }
  else q.push (Char.ofNat unit)

/-- The string that has been read. -/
def Quoted.value (q : Quoted) : Option Text :=
  let settled := q.settle
  if settled.isSound then some settled.chars.reverse else none

/-- What is being read. -/
inductive State where
  | between
  | string (q : Quoted)
  | escape (q : Quoted)
  /-- After `\u`: the number of digits read and their value. -/
  | unit (q : Quoted) (digits value : Nat)
  | number (backwards : Text)
  | word (backwards : Text)

/-- The value of a hexadecimal digit. -/
def hexValue? (c : Char) : Option Nat :=
  if c.isDigit then some (c.toNat - 48)
  else if 'a' ≤ c ∧ c ≤ 'f' then some (c.toNat - 87)
  else if 'A' ≤ c ∧ c ≤ 'F' then some (c.toNat - 55)
  else none

/-- The characters that numbers are written with. -/
def isNumberCharacter (c : Char) : Bool :=
  c.isDigit || c == '-' || c == '+' || c == '.' || c == 'e' || c == 'E'

/-- The characters that stand for the letter after a backslash. -/
def escaped? (c : Char) : Option Char :=
  match c with
  | '"' => some '"'
  | '\\' => some '\\'
  | '/' => some '/'
  | 'b' => some (Char.ofNat 8)
  | 'f' => some (Char.ofNat 12)
  | 'n' => some '\n'
  | 'r' => some '\r'
  | 't' => some '\t'
  | _ => none

/-- Reads a character between lexemes. -/
def start (c : Char) : Option (State × List Token) :=
  if c = ' ' ∨ c = '\t' ∨ c = '\n' ∨ c = '\r' then some (.between, [])
  else if c = '"' then some (.string ⟨[], true, none⟩, [])
  else if c = '[' ∨ c = ']' ∨ c = '\x7b' ∨ c = '\x7d' ∨ c = ':' ∨ c = ',' then
    some (.between, [.mark c])
  else if c.isDigit ∨ c = '-' then some (.number [c], [])
  else if c.isLower then some (.word [c], [])
  else none

/-- Reads a character: the next state and the lexemes that it completes. -/
def step : State → Char → Option (State × List Token)
  | .between, c => start c
  | .string q, c =>
    if c = '"' then some (.between, [.string q.value])
    else if c = '\\' then some (.escape q, [])
    else if c.toNat < 32 then none
    else some (.string (q.push c), [])
  | .escape q, c =>
    if c = 'u' then some (.unit q 0 0, [])
    else (escaped? c).map fun e => (.string (q.push e), [])
  | .unit q digits value, c =>
    (hexValue? c).map fun d =>
      let value := value * 16 + d
      if digits < 3 then (.unit q (digits + 1) value, []) else (.string (q.pushUnit value), [])
  | .number backwards, c =>
    if isNumberCharacter c then some (.number (c :: backwards), [])
    else (start c).map fun (s, tokens) => (s, .number backwards.reverse :: tokens)
  | .word backwards, c =>
    if c.isLower then some (.word (c :: backwards), [])
    else (start c).map fun (s, tokens) => (s, .word backwards.reverse :: tokens)

/-- The lexemes of a text, read from a state. -/
def run : State → Text → Option (List Token)
  | .between, [] => some []
  | .number backwards, [] => some [.number backwards.reverse]
  | .word backwards, [] => some [.word backwards.reverse]
  | _, [] => none
  | s, c :: rest => do
    let (s, complete) ← step s c
    let tokens ← run s rest
    return complete ++ tokens

end Lexer

/-- The text after one or more digits. -/
def afterDigits? (t : Text) : Option Text :=
  if t.head?.any Char.isDigit then some (t.dropWhile Char.isDigit) else none

/-- The grammar of numbers: an integer without needless zeros, then a fraction, then an exponent. -/
def isNumber (lexeme : Text) : Bool :=
  let whole := (Text.after? ['-'] lexeme).getD lexeme
  let afterWhole := match whole with
    | '0' :: rest => some rest
    | _ => afterDigits? whole
  let afterFraction := afterWhole.bind fun
    | '.' :: rest => afterDigits? rest
    | rest => some rest
  let afterExponent := afterFraction.bind fun
    | 'e' :: '+' :: rest | 'e' :: '-' :: rest | 'E' :: '+' :: rest | 'E' :: '-' :: rest
    | 'e' :: rest | 'E' :: rest => afterDigits? rest
    | rest => some rest
  afterExponent == some []

/-- An array or object that is still open, its items backwards; an object waits for the value of a key. -/
inductive Open where
  | array (items : List Json)
  | object (members : List (Option Text × Json)) (key : Option Text)

/-- What may come next. -/
inductive Expect where
  | value
  /-- A value, or the end of an array without items. -/
  | firstItem
  /-- A key, after the members read so far, backwards. -/
  | key (members : List (Option Text × Json))
  | colon (members : List (Option Text × Json)) (key : Option Text)
  /-- A comma or a closing bracket, or the end of the text. -/
  | after (v : Json)

/-- A value that a lexeme is by itself. -/
def ofToken? : Token → Option Json
  | .string value => some (.string value)
  | .number lexeme => if isNumber lexeme then some (.number lexeme) else none
  | .word letters =>
    if letters = "null" then some .null
    else if letters = "true" then some (.bool true)
    else if letters = "false" then some (.bool false)
    else none
  | .mark _ => none

/-- Gathers lexemes into a value, with the open arrays and objects innermost first. -/
def gather : Expect → List Open → List Token → Option Json
  | .after v, [], [] => some v
  | _, _, [] => none
  | .value, stack, .mark c :: rest =>
    if c = '[' then gather .firstItem stack rest
    else if c = '\x7b' then gather (.key []) stack rest
    else none
  | .firstItem, stack, .mark c :: rest =>
    if c = ']' then gather (.after (.array [])) stack rest
    else if c = '[' then gather .firstItem (.array [] :: stack) rest
    else if c = '\x7b' then gather (.key []) (.array [] :: stack) rest
    else none
  | .value, stack, token :: rest =>
    match ofToken? token with
    | some v => gather (.after v) stack rest
    | none => none
  | .firstItem, stack, token :: rest =>
    match ofToken? token with
    | some v => gather (.after v) (.array [] :: stack) rest
    | none => none
  | .key members, stack, .string key :: rest => gather (.colon members key) stack rest
  | .key [], stack, .mark '\x7d' :: rest => gather (.after (.object [])) stack rest
  | .key _, _, _ :: _ => none
  | .colon members key, stack, .mark ':' :: rest => gather .value (.object members key :: stack) rest
  | .colon _ _, _, _ :: _ => none
  | .after v, .array items :: stack, .mark c :: rest =>
    if c = ',' then gather .value (.array (v :: items) :: stack) rest
    else if c = ']' then gather (.after (.array (v :: items).reverse)) stack rest
    else none
  | .after v, .object members key :: stack, .mark c :: rest =>
    if c = ',' then gather (.key ((key, v) :: members)) stack rest
    else if c = '\x7d' then gather (.after (.object ((key, v) :: members).reverse)) stack rest
    else none
  | .after _, _, _ :: _ => none

/-- The value that a text is. -/
def parse? (t : Text) : Option Json := do
  let tokens ← Lexer.run .between t
  gather .value [] tokens

end Manuscript.Json
