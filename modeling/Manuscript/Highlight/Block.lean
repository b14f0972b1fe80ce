import Manuscript.Format
import Manuscript.Highlight.Options
import Manuscript.Html.Escape

/-!
Code blocks in their two forms: a `div` of rendered lines in HTML, and a `Verbatim` environment in markup.
A highlighter chooses how the lines of the HTML form are rendered; the markup form is left to the typesetter.
-/

namespace Manuscript

/-- Renders a code block: its code, its language, the output format and its options. -/
abbrev Highlighter := (code language : Text) → Format → Highlight.Options → Text

namespace Highlight

/-- A rendered line in its place: with its number when lines are numbered, in a span when it is marked. -/
def placeLine (o : Options) (number : UInt32) (line : Text) : Text :=
  let numeral : Text :=
    if o.isNumbered then "<span class=\"lineno\">" ++ Text.ofNat number.toNat ++ "</span>" else []
  let placed : Text :=
    if number ∈ o.markedLines then "<span class=\"hll\">" ++ line ++ "\n</span>" else line ++ "\n"
  numeral ++ placed

/-- The rendered lines in their places, numbered from `number`. -/
def placeLines (o : Options) : (number : Nat) → List Text → Text
  | _, [] => []
  | number, line :: rest => placeLine o (UInt32.ofNat number) line ++ placeLines o (number + 1) rest

/-- The HTML form of a code block of rendered lines. -/
def htmlBlock (lines : List Text) (language : Text) (o : Options) : Text :=
  "<div class=\"highlight\" data-lang=\"" ++ Html.escapeText language ++ "\"><pre>" ++
    placeLines o 1 lines ++ "</pre></div>"

/-- The settings of a `Verbatim` environment. -/
def settings (o : Options) : List Text :=
  let numbers : List Text := if o.isNumbered then ["numbers=left"] else []
  let marked : List Text :=
    if o.markedLines.isEmpty then []
    else ["highlightlines=\x7b" ++ Text.join "," (o.markedLines.map fun n => Text.ofNat n.toNat) ++ "\x7d"]
  numbers ++ marked

/-- The markup form of a code block. -/
def markupBlock (code : Text) (o : Options) : Text :=
  let bracketed : Text := if (settings o).isEmpty then [] else "[" ++ Text.join "," (settings o) ++ "]"
  let lastEnd : Text := if Text.endsWith "\n" code then [] else "\n"
  "\\begin\x7bVerbatim\x7d" ++ bracketed ++ "\n" ++ code ++ lastEnd ++ "\\end\x7bVerbatim\x7d"

/-- The highlighter that only escapes the code. -/
def plain : Highlighter := fun code language format o =>
  match format with
  | .html => htmlBlock ((Text.lines code).map Html.escapeText) language o
  | .markup => markupBlock code o

/-- The colour of code without a grammar, in each theme. -/
def foreground : Theme → Text
  | .dark => "#c0c5ce"
  | .light | .auto => "#323232"

/-- Removes every `font-weight` declaration, up to its semicolon; one without a semicolon takes all that
follows it along. -/
def dropFontWeight (t : Text) : Text :=
  match h : Text.cut? "font-weight:" t with
  | none => t
  | some (head, tail) =>
    have htail := Text.length_lt_of_cut? (by decide) h
    match h' : Text.cut? ";" tail with
    | none => head
    | some (_, rest) =>
      have hrest := Text.length_lt_of_cut? (by decide) h'
      head ++ dropFontWeight rest
termination_by t.length

/-- A line of code, with its line feed, as one span in the theme's foreground colour. -/
def tintLine (theme : Theme) (line : Text) : Text :=
  let span := "<span style=\"color:" ++ foreground theme ++ ";\">" ++ Html.escapeCode line ++ "</span>"
  dropFontWeight (span.filter (· ≠ '\n'))

/-- The highlighter that sets code in the foreground colour of a theme. -/
def tinted (theme : Theme) : Highlighter := fun code language format o =>
  match format with
  | .html => htmlBlock ((Text.linesWithEnds code).map (tintLine theme)) language o
  | .markup => markupBlock code o

end Highlight

end Manuscript
