import Manuscript.Text.Numeral

/-!
The values of TOML that are written without quotes: truth values, numbers, dates and times.  What they stand for
is not needed; they only have to be well formed.
-/

namespace Manuscript.Toml

/-- May the character be in a value without quotes? -/
def isScalarCharacter (c : Char) : Bool := c.isAlphanum || "_+-.:".toList.contains c

/-- Is it a run of digits, in which single underscores may stand between two digits? -/
def isDigits (isDigit : Char → Bool) (t : Text) : Bool :=
  t.splitOn '_' |>.all fun part => part ≠ [] && part.all isDigit

/-- Is it a hexadecimal digit? -/
def isHexDigit (c : Char) : Bool := c.isDigit || ('a' ≤ c.toLower && c.toLower ≤ 'f')

/-- The value of digits in a base, underscores left out. -/
def digitsValue (base : Nat) (t : Text) : Nat :=
  t.foldl (fun n c =>
    if c = '_' then n else n * base + if c.isDigit then c.toNat - 48 else c.toLower.toNat - 87) 0

/-- The text without its sign. -/
def dropSign (t : Text) : Text :=
  match t with
  | '+' :: rest | '-' :: rest => rest
  | t => t

/-- Is it a decimal number without a zero too many at its start? -/
def isDecimal (t : Text) : Bool := isDigits Char.isDigit t && (t.head? ≠ some '0' || t.length = 1)

/-- Is it an integer of 64 bits? -/
def isInteger (t : Text) : Bool :=
  let bound := 9223372036854775808
  match t with
  | '0' :: 'x' :: rest => isDigits isHexDigit rest && digitsValue 16 rest < bound
  | '0' :: 'o' :: rest => isDigits (fun c => '0' ≤ c && c ≤ '7') rest && digitsValue 8 rest < bound
  | '0' :: 'b' :: rest => isDigits (fun c => c == '0' || c == '1') rest && digitsValue 2 rest < bound
  | t =>
    let digits := dropSign t
    isDecimal digits &&
      (digitsValue 10 digits < bound || (t.head? = some '-' && digitsValue 10 digits = bound))

/-- Is it the exponent of a number? -/
def isExponent (t : Text) : Bool := isDigits Char.isDigit (dropSign t)

/-- Is it a number with a fraction or an exponent, or one that is not finite? -/
def isFloat (t : Text) : Bool :=
  let t := (dropSign t).map fun c => if c = 'E' then 'e' else c
  if t = "inf" ∨ t = "nan" then true
  else
    let (number, exponent) :=
      match Text.cut? "e" t with
      | some (number, exponent) => (number, some exponent)
      | none => (t, none)
    let (whole, fraction) :=
      match Text.cut? "." number with
      | some (whole, fraction) => (whole, some fraction)
      | none => (number, none)
    (exponent.isSome || fraction.isSome) && isDecimal whole && exponent.all isExponent &&
      fraction.all (isDigits Char.isDigit)

/-- The number that exactly `count` digits stand for. -/
def fixed? (count : Nat) (t : Text) : Option Nat :=
  if t.length = count ∧ t.all Char.isDigit then some (digitsValue 10 t) else none

/-- The number of days in a month. -/
def daysIn (year month : Nat) : Nat :=
  if month = 2 then if year % 4 = 0 ∧ (year % 100 ≠ 0 ∨ year % 400 = 0) then 29 else 28
  else if month ∈ [4, 6, 9, 11] then 30
  else 31

/-- Is it a date? -/
def isDate (t : Text) : Bool :=
  match (t.splitOn '-') with
  | [year, month, day] =>
    match fixed? 4 year, fixed? 2 month, fixed? 2 day with
    | some year, some month, some day =>
      1 ≤ month && month ≤ 12 && 1 ≤ day && day ≤ daysIn year month
    | _, _, _ => false
  | _ => false

/-- Is it an hour and a minute? -/
def isHourMinute (t : Text) : Bool :=
  match t.splitOn ':' with
  | [hour, minute] => (fixed? 2 hour).any (· < 24) && (fixed? 2 minute).any (· < 60)
  | _ => false

/-- Is it a time of day? -/
def isTime (t : Text) : Bool :=
  let (seconds, fraction) :=
    match Text.cut? "." (t.drop 6) with
    | some (seconds, fraction) => (seconds, some fraction)
    | none => (t.drop 6, none)
  isHourMinute (t.take 5) && t[5]? = some ':' && (fixed? 2 seconds).any (· ≤ 60) &&
    fraction.all fun f => f ≠ [] && f.all Char.isDigit

/-- Is it a time of day, with or without the distance to universal time? -/
def isZonedTime (t : Text) : Bool :=
  let isSign := fun c : Char => c == '+' || c == '-'
  if t.getLast? = some 'Z' ∨ t.getLast? = some 'z' then isTime t.dropLast
  else if t.any isSign then
    isTime (t.takeWhile (!isSign ·)) && isHourMinute ((t.dropWhile (!isSign ·)).drop 1)
  else isTime t

/-- Is it a date, a time, or both? -/
def isMoment (t : Text) : Bool :=
  if t.length ≤ 10 ∧ isDate t then true
  else if isDate (t.take 10) then
    (t[10]?.any fun c => c == 'T' || c == 't' || c == ' ') && isZonedTime (t.drop 11)
  else isTime t

/-- Is it a value that is written without quotes? -/
def isScalar (t : Text) : Bool := t = "true" || t = "false" || isInteger t || isFloat t || isMoment t

/-- Splits off a value without quotes; between a date and a time there may be a blank. -/
def takeScalar (t : Text) : Text × Text :=
  let run := t.takeWhile isScalarCharacter
  match t.drop run.length with
  | ' ' :: c :: rest =>
    if isDate run ∧ c.isDigit then
      (run ++ ' ' :: (c :: rest).takeWhile isScalarCharacter, (c :: rest).dropWhile isScalarCharacter)
    else (run, ' ' :: c :: rest)
  | rest => (run, rest)

end Manuscript.Toml
