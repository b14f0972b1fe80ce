import Manuscript.Format
import Manuscript.Html.Escape
import Manuscript.Page.Style
import Manuscript.SortedMap

/-!
Pages around converted manuscripts: the style sheet in the colours of a theme, and the complete page.
-/

namespace Manuscript

/-- How pages look. -/
structure Page where
  theme : Theme
  title : Option Text
  /-- Style settings that are set besides those of the theme. -/
  settings : SortedMap Text Text

namespace Page

/-- The style settings of light pages. -/
def lightSettings : List (Text × Text) :=
  [("--folio-accent", "#2b6cb0"), ("--folio-aside-bg", "#f7f6f1"), ("--folio-bg", "#fdfdfb"),
   ("--folio-border", "#d8dee4"), ("--folio-code-bg", "#f4f6f8"), ("--folio-error", "#c53030"),
   ("--folio-fg", "#1f2328"), ("--folio-hll-bg", "#fff5b1"), ("--folio-muted", "#5f6b76")]

/-- The style settings of dark pages. -/
def darkSettings : List (Text × Text) :=
  [("--folio-accent", "#63b3ed"), ("--folio-aside-bg", "#1b212b"), ("--folio-bg", "#0e1116"),
   ("--folio-border", "#2a313b"), ("--folio-code-bg", "#202634"), ("--folio-error", "#fc8181"),
   ("--folio-fg", "#e6edf3"), ("--folio-hll-bg", "#4a4420"), ("--folio-muted", "#9aa4af")]

/-- Says that a page comes in light and dark. -/
def schemeLine : Text := "color-scheme: light dark;"

/-- The line of a style setting. -/
def settingLine (v : Text × Text) : Text := v.1 ++ ": " ++ v.2 ++ ";"

/-- A rule for the whole page, with every line of it after `margin`. -/
def rootRule (margin : Text) (lines : List Text) : Text :=
  margin ++ ":root \x7b\n" ++ (lines.flatMap fun line => (margin ++ "  " ++ line ++ "\n" : Text)) ++
    margin ++ "\x7d\n"

/-- The rule of the style settings of a theme. -/
def themeRule (margin : Text) (settings : List (Text × Text)) : Text :=
  rootRule margin (schemeLine :: settings.map settingLine)

/-- The rules of the style settings of the page's theme. -/
def themeRules : Theme → Text
  | .light => themeRule [] lightSettings
  | .dark => themeRule [] darkSettings
  | .auto =>
    themeRule [] lightSettings ++ "@media (prefers-color-scheme: dark) \x7b\n" ++
      themeRule "  " darkSettings ++ "\x7d\n"

/-- The style sheet of a page. -/
def styleSheet (p : Page) : Text :=
  let own := p.settings.toList.map settingLine
  themeRules p.theme ++ (if own.isEmpty then [] else rootRule [] own) ++ style

/-- The name of the file that a page looks for its style sheet in. -/
def styleFile : Text := "folio.css"

/-- Where the script comes from that typesets mathematics. -/
def mathAddress : Text := "https://cdn.jsdelivr.net/npm/mathjax@3/es5/tex-chtml.js"

/-- The part of the head that holds the style sheet or leads to it. -/
def stylePart (p : Page) (isInline : Bool) : Text :=
  if isInline then "  <style>\n" ++ p.styleSheet ++ "\n  </style>\n"
  else "  <link rel=\"stylesheet\" href=\"" ++ styleFile ++ "\" />\n"

/-- The part of the head that loads the typesetting of mathematics. -/
def mathPart : Text :=
  "  <script>\n" ++ mathScript ++ "\n  </script>\n  <script async src=\"" ++ mathAddress ++ "\"></script>\n"

/-- The complete page around a body. -/
def html (p : Page) (body : Text) (hasInlineStyle hasMath : Bool) : Text :=
  let title : Text :=
    match p.title with
    | some title => "  <title>" ++ Html.escapeText title ++ "</title>\n"
    | none => []
  "<!DOCTYPE html>\n<html lang=\"en\">\n<head>\n  <meta charset=\"utf-8\" />\n" ++
    "  <meta name=\"viewport\" content=\"width=device-width, initial-scale=1\" />\n" ++
    title ++ p.stylePart hasInlineStyle ++ (if hasMath then mathPart else []) ++
    "</head>\n<body>\n<div id=\"book\">\n" ++ body ++ (if Text.endsWith "\n" body then [] else ['\n']) ++
    "</div>\n</body>\n</html>\n"

end Page

end Manuscript
