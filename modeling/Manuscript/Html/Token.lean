import Manuscript.Html.NamedCharacter

/-!
The tokens of HTML: text, tags and what leaves nothing.  Every text is a sequence of tokens, however badly it
is formed.
-/

namespace Manuscript.Html

/-- The characters that separate the parts of a tag. -/
def isSpace (c : Char) : Bool := c == ' ' || c == '\t' || c == '\n' || c.toNat == 12

/-- What stands for a character that cannot be. -/
def replacement : Char := '\uFFFD'

/-- The character of a null is replaced. -/
def replaceNull (c : Char) : Char := if c.toNat = 0 then replacement else c

/-- The text with every line end as a line feed, and without a byte order mark. -/
def normalize (t : Text) : Text :=
  let t := (Text.after? ['\uFEFF'] t).getD t
  Text.replaceAll "\r" "\n" (Text.replaceAll "\r\n" "\n" t)

/-! References -/

/-- What the code points from 0x80 to 0x9F stand for in references. -/
def oldCodePage : List Nat :=
  [0x20AC, 0x81, 0x201A, 0x192, 0x201E, 0x2026, 0x2020, 0x2021, 0x2C6, 0x2030, 0x160, 0x2039, 0x152,
   0x8D, 0x17D, 0x8F, 0x90, 0x2018, 0x2019, 0x201C, 0x201D, 0x2022, 0x2013, 0x2014, 0x2DC, 0x2122,
   0x161, 0x203A, 0x153, 0x9D, 0x17E, 0x178]

/-- The character that a reference by number stands for. -/
def numberedCharacter (n : Nat) : Char :=
  if n = 0 ∨ ¬ n.isValidChar then replacement
  else if 0x80 ≤ n ∧ n ≤ 0x9F then Char.ofNat (oldCodePage.getD (n - 0x80) n)
  else Char.ofNat n

/-- The value of a hexadecimal digit. -/
def digitValue (c : Char) : Nat := if c.isDigit then c.toNat - 48 else c.toLower.toNat - 87

/-- Is the character a hexadecimal digit? -/
def isHexDigit (c : Char) : Bool := c.isDigit || ('a' ≤ c.toLower && c.toLower ≤ 'f')

/-- The text after a semicolon, if there is one. -/
def dropSemicolon (t : Text) : Text := (Text.after? ";" t).getD t

/-- Reads the digits of a reference by number. -/
def numbered? (isDigit : Char → Bool) (base : Nat) (t : Text) : Option (Text × Text) :=
  let digits := t.takeWhile isDigit
  if digits = [] then none
  else
    some ([numberedCharacter (digits.foldl (fun n c => n * base + digitValue c) 0)],
      dropSemicolon (t.dropWhile isDigit))

/-- The longest start of a name that is a name without a semicolon; its length and what it stands for. -/
def bareName? (run : Text) : Option (Nat × Text) :=
  ((List.range run.length).reverse.findSome? fun n =>
    let name := run.take (n + 1)
    if name ∈ bareNames then (namedCharacters.lookup name).map fun value => (n + 1, value) else none)

/-- Reads a name.  In an attribute, a name without a semicolon must not run on. -/
def named? (isInAttribute : Bool) (t : Text) : Option (Text × Text) :=
  let run := (t.take 32).takeWhile Char.isAlphanum
  let rest := t.drop run.length
  match if rest.head? = some ';' then namedCharacters.lookup run else none with
  | some value => some (value, rest.tail)
  | none =>
    match bareName? run with
    | none => none
    | some (n, value) =>
      let runsOn := (t.drop n).head?.any fun c => c == '=' || c.isAlphanum
      if isInAttribute && runsOn then none else some (value, t.drop n)

/-- Reads a reference from after its ampersand. -/
def reference? (isInAttribute : Bool) (t : Text) : Option (Text × Text) :=
  match t with
  | '#' :: 'x' :: rest | '#' :: 'X' :: rest => numbered? isHexDigit 16 rest
  | '#' :: rest => numbered? Char.isDigit 10 rest
  | t => named? isInAttribute t

/-- The text with its references resolved. -/
def resolve (isInAttribute : Bool) (t : Text) : Text :=
  match t with
  | [] => []
  | c :: rest =>
    if c = '&' then
      match reference? isInAttribute rest with
      | some (value, after) =>
        if after.length ≤ rest.length then value ++ resolve isInAttribute after
        else c :: resolve isInAttribute rest
      | none => c :: resolve isInAttribute rest
    else c :: resolve isInAttribute rest
termination_by t.length

/-! Tags -/

/-- An opening tag. -/
structure Tag where
  name : Text
  attributes : List (Text × Text)
  /-- The tag ends with a slash. -/
  isClosed : Bool
  deriving DecidableEq

/-- A token. -/
inductive Token where
  | text (t : Text)
  | opens (tag : Tag)
  | closes (name : Text)
  /-- Text without markup, where the elements of other languages allow it. -/
  | verbatim (t : Text)
  /-- A comment, a document type or a tag that does not end. -/
  | nothing
  deriving DecidableEq

/-- The name of a tag or attribute in its one form. -/
def foldName (t : Text) : Text := t.map fun c => replaceNull c.toLower

/-- Reads the value of an attribute from after its equals sign. -/
def attributeValue? (t : Text) : Option (Text × Text) :=
  match t.dropWhile isSpace with
  | '"' :: rest => Text.cut? "\"" rest
  | '\'' :: rest => Text.cut? "'" rest
  | rest =>
    let isPart := fun c : Char => !isSpace c && c ≠ '>'
    some (rest.takeWhile isPart, rest.dropWhile isPart)

/-- Reads an attribute; an equals sign may be the first character of its name. -/
def attribute? (t : Text) : Option ((Text × Text) × Text) :=
  match t with
  | [] => none
  | c :: rest =>
    let isPart := fun c : Char => !isSpace c && c ≠ '/' && c ≠ '>' && c ≠ '='
    let name := foldName (c :: rest.takeWhile isPart)
    match (rest.dropWhile isPart).dropWhile isSpace with
    | '=' :: rest =>
      (attributeValue? rest).map fun (raw, rest) =>
        ((name, resolve true (raw.map replaceNull)), rest)
    | rest => some ((name, []), rest)

/-- Reads the attributes and the end of a tag; of attributes of one name the first one counts. -/
def tagEnd? (attributes : List (Text × Text)) (t : Text) : Option (List (Text × Text) × Bool × Text) :=
  match t with
  | [] => none
  | c :: rest =>
    if c = '>' then some (attributes, false, rest)
    else if c = '/' ∧ rest.head? = some '>' then some (attributes, true, rest.tail)
    else if c = '/' ∨ isSpace c then tagEnd? attributes rest
    else
      match attribute? t with
      | none => none
      | some (a, after) =>
        if after.length ≤ rest.length then
          tagEnd? (if (attributes.lookup a.1).isSome then attributes else attributes ++ [a]) after
        else none
termination_by t.length

/-- Reads a tag from where its name starts. -/
def tag? (t : Text) : Option (Tag × Text) :=
  let isPart := fun c : Char => !isSpace c && c ≠ '/' && c ≠ '>'
  (tagEnd? [] (t.dropWhile isPart)).map fun (attributes, isClosed, rest) =>
    (⟨foldName (t.takeWhile isPart), attributes, isClosed⟩, rest)

/-! Comments -/

/-- The text after the first of two endings. -/
def afterFirst (a b t : Text) : Text :=
  match Text.cut? a t, Text.cut? b t with
  | some (head₁, rest₁), some (head₂, rest₂) => if head₁.length ≤ head₂.length then rest₁ else rest₂
  | some (_, rest), none | none, some (_, rest) => rest
  | none, none => []

/-- The text after a comment, from after its opening. -/
def afterComment (t : Text) : Text :=
  match t with
  | '>' :: rest | '-' :: '>' :: rest => rest
  | t => afterFirst "-->" "--!>" t

/-- The text after the next closing angle bracket. -/
def afterBracket (t : Text) : Text := (t.dropWhile (· ≠ '>')).tail

/-- Reads what follows `<!`. -/
def declaration (isForeign : Bool) (t : Text) : Token × Text :=
  match Text.after? "--" t, Text.after? "[CDATA[" t with
  | some rest, _ => (.nothing, afterComment rest)
  | none, some rest =>
    if isForeign then
      match Text.cut? "]]>" rest with
      | some (body, rest) => (.verbatim body, rest)
      | none => (.verbatim rest, [])
    else (.nothing, afterBracket t)
  | none, none => (.nothing, afterBracket t)

/-- Reads what an angle bracket begins; most characters after it make it text. -/
def markup? (isForeign : Bool) (t : Text) : Option (Token × Text) :=
  match t with
  | '<' :: '!' :: rest => some (declaration isForeign rest)
  | '<' :: '?' :: rest => some (.nothing, afterBracket rest)
  | '<' :: '/' :: c :: rest =>
    if c.isAlpha then
      match tag? (c :: rest) with
      | some (tag, rest) => some (.closes tag.name, rest)
      | none => some (.nothing, [])
    else some (.nothing, afterBracket (c :: rest))
  | '<' :: c :: rest =>
    if c.isAlpha then
      match tag? (c :: rest) with
      | some (tag, rest) => some (.opens tag, rest)
      | none => some (.nothing, [])
    else none
  | _ => none

/-- Does markup begin here? -/
def isMarkup : Text → Bool
  | '<' :: '/' :: _ :: _ => true
  | '<' :: c :: _ => c == '!' || c == '?' || c.isAlpha
  | _ => false

/-- Splits off the text before the next markup. -/
def untilMarkup : Text → Text × Text
  | [] => ([], [])
  | c :: rest =>
    if isMarkup (c :: rest) then ([], c :: rest)
    else
      let (t, rest) := untilMarkup rest
      (c :: t, rest)

/-- Reads the next token. -/
def token? (isForeign : Bool) (t : Text) : Option (Token × Text) :=
  if t = [] then none
  else
    match markup? isForeign t with
    | some found => some found
    | none =>
      let (raw, rest) := untilMarkup t
      some (.text (resolve false raw), rest)

/-- Does a tag with the name begin here, from its opening? -/
def isTagOf (opening name t : Text) : Bool :=
  match Text.after? opening t with
  | none => false
  | some rest =>
    foldName (rest.take name.length) = name &&
      (rest.drop name.length).head?.any fun c => isSpace c || c == '/' || c == '>'

/-- How far a comment in a script hides the tags in it. -/
inductive Hiding where
  | nothing
  /-- In a comment. -/
  | comment
  /-- In a script in a comment, whose end tag is not that of the script around it. -/
  | script
  deriving DecidableEq

/-- How far tags are hidden after what begins here. -/
def Hiding.next (state : Hiding) (t : Text) : Hiding :=
  match state with
  | .nothing => if (Text.after? "<!--" t).isSome then .comment else .nothing
  | .comment =>
    if (Text.after? "-->" t).isSome then .nothing
    else if isTagOf "<" "script" t then .script
    else .comment
  | .script =>
    if (Text.after? "-->" t).isSome then .nothing
    else if isTagOf "</" "script" t then .comment
    else .script

/-- Splits off the text before the end tag of an element, and passes over the tag. -/
def untilEndTag (name : Text) (state : Hiding) : Text → Text × Text
  | [] => ([], [])
  | c :: rest =>
    if state ≠ .script ∧ isTagOf "</" name (c :: rest) then
      ([], match tag? (rest.drop 1) with
        | some (_, rest) => rest
        | none => [])
    else
      let state := if name = "script" then state.next (c :: rest) else .nothing
      let (t, rest) := untilEndTag name state rest
      (c :: t, rest)

end Manuscript.Html
