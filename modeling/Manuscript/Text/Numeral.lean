import Manuscript.Text.Basic

/-!
Decimal numerals.  Main statement: the numeral of a number below the bound reads back as that number
(`natBelow?_ofNat`).
-/

namespace Manuscript.Text

/-- The decimal numeral of a number. -/
def ofNat (n : Nat) : Text := Nat.toDigits 10 n

/-- Reads a numeral: decimal digits, after at most one plus sign, for a number below `bound`. -/
def natBelow? (bound : Nat) (t : Text) : Option Nat :=
  let digits := (after? ['+'] t).getD t
  if digits ≠ [] ∧ digits.all Char.isDigit then
    let n := Nat.ofDigitChars 10 digits 0
    if n < bound then some n else none
  else none

/-- The bound of 32-bit numbers. -/
def bound32 : Nat := 4294967296

/-- The bound of 64-bit numbers. -/
def bound64 : Nat := 18446744073709551616

theorem all_isDigit_ofNat (n : Nat) : (ofNat n).all Char.isDigit := by
  simp only [List.all_eq_true]
  exact fun c hc => Nat.isDigit_of_mem_toDigits (by decide) (by decide) hc

theorem after?_plus_ofNat (n : Nat) : after? ['+'] (ofNat n) = none := by
  cases h : ofNat n with
  | nil => rfl
  | cons c t =>
      have hc : c.isDigit := List.all_eq_true.mp (all_isDigit_ofNat n) c (by simp [h])
      have hne : '+' ≠ c := by
        rintro rfl
        simp at hc
      simp [after?, hne]

theorem natBelow?_ofNat {bound n : Nat} (h : n < bound) : natBelow? bound (ofNat n) = some n := by
  have hne : ofNat n ≠ [] := Nat.toDigits_ne_nil
  have hread : Nat.ofDigitChars 10 (ofNat n) 0 = n := by simp [ofNat]
  simp [natBelow?, after?_plus_ofNat, hne, all_isDigit_ofNat, hread, h]

end Manuscript.Text
