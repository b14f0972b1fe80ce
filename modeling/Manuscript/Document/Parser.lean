import Manuscript.Document.OfXml

/-!
Structural parsers: what turns a manuscript with tokens into a document.
-/

namespace Manuscript

/-- Why a structural parser gives no document. -/
inductive ParserError where
  | unavailable (program : Text)
  | failed (program message : Text)
  /-- What the parser wrote is not well formed. -/
  | malformed
  deriving DecidableEq

/-- The wording of a parser error. -/
def ParserError.message : ParserError → Text
  | .unavailable program =>
    "structural parser `" ++ program ++
      "` was not found; install it or point the pipeline at another parser executable"
  | .failed program message => "structural parser `" ++ program ++ "` failed: " ++ message
  | .malformed => "structural parser produced malformed output"

/-- Turns a manuscript with tokens into a document. -/
abbrev StructuralParser := (text : Text) → Except ParserError Document

/-- The parser of manuscripts that are XML already. -/
def Document.ofXmlText : StructuralParser := fun text =>
  match Document.parse? text with
  | some d => .ok d
  | none => .error .malformed

end Manuscript
