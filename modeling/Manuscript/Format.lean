import Manuscript.Text.Blank

/-!
The two output formats and the colour themes.
-/

namespace Manuscript

/-- What a manuscript is turned into. -/
inductive Format where
  /-- HTML, by way of the document tree. -/
  | html
  /-- The manuscript's own markup, with inclusions expanded and code blocks set for typesetting. -/
  | markup
  deriving DecidableEq

/-- The word for a format in digests. -/
def Format.name : Format → Text
  | .html => "html"
  | .markup => "markup"

/-- The colours of a page and of its code blocks. -/
inductive Theme where
  /-- Light or dark, as the reader's system prefers. -/
  | auto
  | light
  | dark
  deriving DecidableEq

end Manuscript
