import Manuscript.Text.Utf8

/-!
The digest that tokens and stored results are addressed by: the hexadecimal SHA-1 of a list of parts, each
followed by a zero byte.
-/

namespace Manuscript

namespace Sha1

/-- The five words that the rounds transform. -/
structure State where
  a : UInt32
  b : UInt32
  c : UInt32
  d : UInt32
  e : UInt32

/-- The words before the first block. -/
def initial : State := ⟨0x67452301, 0xEFCDAB89, 0x98BADCFE, 0x10325476, 0xC3D2E1F0⟩

/-- Rotation to the left by `n` bits, for `n` between 1 and 31. -/
def rotate (n w : UInt32) : UInt32 := (w <<< n) ||| (w >>> (32 - n))

/-- The bytes of a number, the highest first, in `n` places. -/
def bigEndian : (n : Nat) → Nat → Bytes
  | 0, _ => []
  | n + 1, value => bigEndian n (value / 256) ++ [UInt8.ofNat value]

/-- The message, a one bit, zeros up to the last eight bytes of a block, and the length in bits. -/
def pad (message : Bytes) : Bytes :=
  message ++ 0x80 :: List.replicate ((119 - message.length % 64) % 64) 0 ++
    bigEndian 8 (message.length * 8)

/-- Bytes as words, the highest byte first. -/
def words : Bytes → List UInt32
  | a :: b :: c :: d :: rest =>
    ((a.toUInt32 <<< 24) ||| (b.toUInt32 <<< 16) ||| (c.toUInt32 <<< 8) ||| d.toUInt32) :: words rest
  | _ => []

/-- Puts `n` more words in front of a schedule that is held backwards: each is made of the words 3, 8, 14 and
16 places before it. -/
def extend : (n : Nat) → List UInt32 → List UInt32
  | 0, schedule => schedule
  | n + 1, schedule =>
    let word := schedule.getD 2 0 ^^^ schedule.getD 7 0 ^^^ schedule.getD 13 0 ^^^ schedule.getD 15 0
    extend n (rotate 1 word :: schedule)

/-- The mixing function and the constant of round `t`. -/
def mix (t : Nat) (s : State) : UInt32 × UInt32 :=
  if t < 20 then ((s.b &&& s.c) ||| (~~~s.b &&& s.d), 0x5A827999)
  else if t < 40 then (s.b ^^^ s.c ^^^ s.d, 0x6ED9EBA1)
  else if t < 60 then ((s.b &&& s.c) ||| (s.b &&& s.d) ||| (s.c &&& s.d), 0x8F1BBCDC)
  else (s.b ^^^ s.c ^^^ s.d, 0xCA62C1D6)

/-- Round `t` with its word of the schedule. -/
def round (s : State) (t : Nat) (word : UInt32) : State :=
  let (mixed, constant) := mix t s
  ⟨rotate 5 s.a + mixed + s.e + constant + word, s.a, rotate 30 s.b, s.c, s.d⟩

/-- The rounds from `t` on, one for each word. -/
def rounds : (t : Nat) → State → List UInt32 → State
  | _, s, [] => s
  | t, s, word :: rest => rounds (t + 1) (round s t word) rest

/-- The state after one block of sixteen words. -/
def block (s : State) (input : List UInt32) : State :=
  let r := rounds 0 s (extend 64 input.reverse).reverse
  ⟨s.a + r.a, s.b + r.b, s.c + r.c, s.d + r.d, s.e + r.e⟩

/-- The state after the first `n` blocks of a message. -/
def blocks : (n : Nat) → State → List UInt32 → State
  | 0, s, _ => s
  | n + 1, s, message => blocks n (block s (message.take 16)) (message.drop 16)

/-- A word in eight hexadecimal digits. -/
def hexWord (w : UInt32) : Text :=
  let digits := Nat.toDigits 16 w.toNat
  List.replicate (8 - digits.length) '0' ++ digits

/-- The SHA-1 of a message in hexadecimal digits. -/
def hex (message : Bytes) : Text :=
  let padded := words (pad message)
  let s := blocks (padded.length / 16) initial padded
  hexWord s.a ++ hexWord s.b ++ hexWord s.c ++ hexWord s.d ++ hexWord s.e

end Sha1

/-- The bytes that a list of parts is hashed as: a zero byte follows each part. -/
def digestInput (parts : List Text) : Bytes := parts.flatMap fun part => Utf8.encode part ++ [0]

/-- The digest of a list of parts. -/
def digest (parts : List Text) : Text := Sha1.hex (digestInput parts)

end Manuscript
