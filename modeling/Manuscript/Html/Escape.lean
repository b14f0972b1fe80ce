import Manuscript.Text.Blank

/-!
Character references for the characters that are markup in HTML.
-/

namespace Manuscript.Html

/-- A character of running text. -/
def textCharacter : Char → Text
  | '&' => "&amp;"
  | '<' => "&lt;"
  | '>' => "&gt;"
  | c => [c]

/-- A character of an attribute value in double quotes. -/
def attributeCharacter : Char → Text
  | '"' => "&quot;"
  | c => textCharacter c

/-- A character of coloured code. -/
def codeCharacter : Char → Text
  | '\'' => "&#39;"
  | c => attributeCharacter c

/-- Running text. -/
def escapeText (t : Text) : Text := t.flatMap textCharacter

/-- An attribute value. -/
def escapeAttribute (t : Text) : Text := t.flatMap attributeCharacter

/-- Coloured code. -/
def escapeCode (t : Text) : Text := t.flatMap codeCharacter

@[simp] theorem escapeText_append (s t : Text) :
    escapeText (s ++ t) = escapeText s ++ escapeText t := by
  simp [escapeText]

@[simp] theorem escapeAttribute_append (s t : Text) :
    escapeAttribute (s ++ t) = escapeAttribute s ++ escapeAttribute t := by
  simp [escapeAttribute]

theorem lineFeed_notMem_escapeText {t : Text} (h : '\n' ∉ t) : '\n' ∉ escapeText t := by
  intro hmem
  obtain ⟨c, hc, hmem⟩ := List.mem_flatMap.mp hmem
  have hne : c ≠ '\n' := fun heq => h (heq ▸ hc)
  unfold textCharacter at hmem
  split at hmem
  · exact absurd hmem (by decide)
  · exact absurd hmem (by decide)
  · exact absurd hmem (by decide)
  · exact hne (List.mem_singleton.mp hmem).symm

end Manuscript.Html
