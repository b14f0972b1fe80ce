/-!
White space as the Unicode property `White_Space` defines it.  Markers, directives and annotations are all
read up to this class of characters, so it is the only notion of a blank in the library.
-/

namespace Manuscript

/-- A text, character by character. -/
abbrev Text := List Char

/-- Fixed wording may stand wherever a text is expected. -/
instance : Coe String Text := ⟨String.toList⟩

/-- Texts are compared character by character. -/
instance : LawfulBEq Text := inferInstanceAs (LawfulBEq (List Char))

/-- The characters with the property `White_Space`. -/
def isBlank (c : Char) : Bool :=
  let n := c.toNat
  (9 ≤ n && n ≤ 13) || n == 0x20 || n == 0x85 || n == 0xA0 || n == 0x1680 ||
    (0x2000 ≤ n && n ≤ 0x200A) || n == 0x2028 || n == 0x2029 || n == 0x202F || n == 0x205F ||
    n == 0x3000

theorem isBlank_of_isWhitespace {c : Char} (h : c.isWhitespace) : isBlank c := by
  simp only [Char.isWhitespace, Bool.or_eq_true, decide_eq_true_eq] at h
  rcases h with ((h | h) | h) | h <;> subst h <;> decide

end Manuscript
