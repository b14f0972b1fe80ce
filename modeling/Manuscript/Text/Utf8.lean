import Manuscript.Text.Blank

/-!
UTF-8.  A file holds bytes: they are read as a text when all of them are well formed, or with a replacement
character for every stretch that is not.
-/

namespace Manuscript

/-- The content of a file. -/
abbrev Bytes := List UInt8

namespace Utf8

/-- A character of which some bytes have been read: how many are owed, between which values the next one has
to lie, and the bits so far. -/
structure Begun where
  owed : Nat
  low : Nat
  high : Nat
  bits : Nat

/-- What the first byte of a character says. -/
inductive Lead where
  /-- The byte is a character of its own. -/
  | whole (c : Char)
  /-- More bytes belong to the character. -/
  | begun (b : Begun)
  /-- No character starts with this byte. -/
  | wrong

/-- Reads the first byte of a character. -/
def lead (byte : Nat) : Lead :=
  if byte < 0x80 then .whole (Char.ofNat byte)
  else if 0xC2 ≤ byte ∧ byte ≤ 0xDF then .begun ⟨1, 0x80, 0xBF, byte - 0xC0⟩
  else if byte = 0xE0 then .begun ⟨2, 0xA0, 0xBF, 0⟩
  else if byte = 0xED then .begun ⟨2, 0x80, 0x9F, 0xD⟩
  else if 0xE1 ≤ byte ∧ byte ≤ 0xEF then .begun ⟨2, 0x80, 0xBF, byte - 0xE0⟩
  else if byte = 0xF0 then .begun ⟨3, 0x90, 0xBF, 0⟩
  else if byte = 0xF4 then .begun ⟨3, 0x80, 0x8F, 4⟩
  else if 0xF1 ≤ byte ∧ byte ≤ 0xF3 then .begun ⟨3, 0x80, 0xBF, byte - 0xF0⟩
  else .wrong

/-- Reads one byte where a character starts: what is complete now, with `none` for a stretch that is not
well formed, and what has begun. -/
def start (byte : Nat) : List (Option Char) × Option Begun :=
  match lead byte with
  | .whole c => ([some c], none)
  | .begun b => ([], some b)
  | .wrong => ([none], none)

/-- Reads one byte.  A byte that cannot continue a character ends a stretch that is not well formed and is
read once more as the start of a character. -/
def step : Option Begun → Nat → List (Option Char) × Option Begun
  | none, byte => start byte
  | some b, byte =>
    if b.low ≤ byte ∧ byte ≤ b.high then
      let bits := b.bits * 64 + (byte - 0x80)
      if b.owed ≤ 1 then ([some (Char.ofNat bits)], none)
      else ([], some ⟨b.owed - 1, 0x80, 0xBF, bits⟩)
    else
      let (complete, begun) := start byte
      (none :: complete, begun)

/-- The characters of a byte sequence, with `none` for each stretch that is not well formed. -/
def characters : Option Begun → Bytes → List (Option Char)
  | none, [] => []
  | some _, [] => [none]
  | begun, byte :: rest =>
    let (complete, begun) := step begun byte.toNat
    complete ++ characters begun rest

/-- The text of well-formed bytes. -/
def decode? (bytes : Bytes) : Option Text := (characters none bytes).mapM id

/-- The text of any bytes, with a replacement character for each stretch that is not well formed. -/
def decodeLossy (bytes : Bytes) : Text := (characters none bytes).map (·.getD '\uFFFD')

/-- The bytes of a text. -/
def encode (t : Text) : Bytes := t.flatMap String.utf8EncodeChar

end Utf8

end Manuscript
