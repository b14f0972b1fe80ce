import Manuscript.Text.Numeral

/-!
Addresses in HTML that may be followed: those without a scheme, and those with a scheme of a list that are
well formed.
-/

namespace Manuscript.Html.Url

/-- The schemes that may be followed. -/
def schemes : List Text :=
  ["bitcoin", "ftp", "ftps", "geo", "http", "https", "im", "irc", "ircs", "magnet", "mailto", "mms",
   "mx", "news", "nntp", "openpgp4fpr", "sip", "sms", "smsto", "ssh", "tel", "url", "webcal", "wtai",
   "xmpp"]

/-- The schemes whose addresses name a host. -/
def hostSchemes : List Text := ["ftp", "http", "https"]

/-- The address without controls and spaces around it, and without line ends and tabulators in it. -/
def strip (t : Text) : Text :=
  let isOuter := fun c : Char => c.toNat ≤ 0x20
  (Text.trimEndWhere isOuter (t.dropWhile isOuter)).filter fun c => c ≠ '\t' ∧ c ≠ '\n' ∧ c ≠ '\r'

/-- The scheme of an address, in lower case, and what follows it. -/
def scheme? (t : Text) : Option (Text × Text) :=
  let isPart := fun c : Char => c.isAlphanum || c == '+' || c == '-' || c == '.'
  if t.head?.any Char.isAlpha then
    match t.dropWhile isPart with
    | ':' :: rest => some ((t.takeWhile isPart).map Char.toLower, rest)
    | _ => none
  else none

/-- The characters that no host name holds. -/
def isForbidden (c : Char) : Bool :=
  c.toNat ≤ 0x20 || c.toNat == 0x7F || "#/:<>?@[\\]^|%".toList.contains c

/-- The value of a part of a numeric host, which may be octal or hexadecimal. -/
def numericPart? (t : Text) : Option Nat :=
  let (base, digits) : Nat × Text :=
    match t with
    | '0' :: 'x' :: rest | '0' :: 'X' :: rest => (16, rest)
    | '0' :: c :: rest => (8, c :: rest)
    | t => (10, t)
  let value := fun c : Char =>
    if c.isDigit then c.toNat - 48 else if c.isAlpha then c.toLower.toNat - 87 else 16
  if digits.all fun c => value c < base then some (digits.foldl (fun n c => n * base + value c) 0)
  else none

/-- Does the last part of a host make it numeric? -/
def isNumeric (part : Text) : Bool :=
  part ≠ [] && (part.all Char.isDigit ||
    ((Text.after? "0x" part <|> Text.after? "0X" part).isSome && (numericPart? part).isSome))

/-- Is a numeric host well formed? -/
def isNumericHost (parts : List Text) : Bool :=
  match parts.mapM numericPart? with
  | none => false
  | some values =>
    parts.all (· ≠ []) && values.length ≤ 4 && values.dropLast.all (· ≤ 255) &&
      values.getLast?.all (· < Nat.pow 256 (5 - values.length))

/-- Is the host well formed? -/
def isHost (host : Text) : Bool :=
  match host with
  | [] => false
  | '[' :: rest =>
    (Text.before? "]" rest).any fun inner =>
      inner.elem ':' && inner.all fun c => c.isDigit || "abcdefABCDEF:.".toList.contains c
  | host =>
    let parts := host.splitOn '.'
    let parts := if parts.getLast? = some [] ∧ parts.length > 1 then parts.dropLast else parts
    host.all (!isForbidden ·) && (!(parts.getLast?.any isNumeric) || isNumericHost parts)

/-- Is the port well formed? -/
def isPort (port : Text) : Bool := port = [] || (port.all Char.isDigit && (Text.natBelow? 65536 port).isSome)

/-- Splits a port off an authority; colons inside brackets belong to the host. -/
def splitPort (t : Text) : Text × Text :=
  match Text.cutLast? ':' t with
  | some (host, port) => if port.elem ']' then (t, []) else (host, port)
  | none => (t, [])

/-- Does an address of a scheme with hosts name a host? -/
def hasHost (rest : Text) : Bool :=
  let isSlash := fun c : Char => c == '/' || c == '\\'
  let authority := (rest.dropWhile isSlash).takeWhile fun c => !isSlash c && c ≠ '?' && c ≠ '#'
  let address :=
    match Text.cutLast? '@' authority with
    | some (_, address) => address
    | none => authority
  let (host, port) := splitPort address
  isHost host && isPort port

/-- May the address be followed? -/
def isPermitted (t : Text) : Bool :=
  match scheme? (strip t) with
  | none => true
  | some (scheme, rest) => scheme ∈ schemes && (scheme ∉ hostSchemes || hasHost rest)

end Manuscript.Html.Url
