import Manuscript.Text.Basic

/-!
What a single line of a manuscript is, whatever stands around it: a hint at a language, raw HTML, a begin or
end marker of an environment, a comment or prose.
-/

namespace Manuscript.Source

/-- The characters that names of languages are made of. -/
def isLanguageCharacter (c : Char) : Bool :=
  c.isAlphanum || c == '_' || c == '+' || c == '#' || c == '.' || c == '-'

/-- A hint, or language annotation: `%= lang: L` or `%= lang: L, options: O`: the language and the text of the
options. -/
def hint? (line : Text) : Option (Text × Text) := do
  let rest ← Text.after? "%=" (Text.trimStart line)
  let rest ← Text.after? "lang:" (Text.trimStart rest)
  let rest := Text.trimStart rest
  let language := rest.takeWhile isLanguageCharacter
  let rest := Text.trimStart (rest.dropWhile isLanguageCharacter)
  if language = [] then none
  else if rest = [] then some (language, [])
  else do
    let rest ← Text.after? "," rest
    let options ← Text.after? "options:" (Text.trimStart rest)
    return (language, Text.trim options)

/-- Raw HTML, `%= <html>`; what announces a hint or an inclusion is none. -/
def rawHtml? (line : Text) : Option Text := do
  let rest ← Text.after? "%=" (Text.trimStart line)
  let html := Text.trim rest
  if html = [] ∨ Text.startsWith "lang:" html ∨ Text.startsWith "<<(" html then none else some html

/-- The name between a marker's opening and the first closing brace, at the start of a line. -/
def marker? (opening line : Text) : Option Text := do
  let rest ← Text.after? opening (Text.trimStart line)
  let (name, _) ← Text.cut? "\x7d" rest
  return name

/-- The environment that a line begins. -/
def begin? (line : Text) : Option Text := marker? "\\begin\x7b" line

/-- The environment that a line ends. -/
def end? (line : Text) : Option Text := marker? "\\end\x7b" line

/-- A comment starts with a percent sign that no equals sign follows. -/
def isComment (line : Text) : Bool :=
  let t := Text.trimStart line
  Text.startsWith "%" t && !Text.startsWith "%=" t

/-- The label of a line that holds nothing else. -/
def loneLabel? (line : Text) : Option Text := do
  let rest ← Text.after? "\\label\x7b" (Text.trimStart line)
  let (label, rest) ← Text.cut? "\x7d" rest
  if Text.isBlankOnly rest then some label else none

end Manuscript.Source
