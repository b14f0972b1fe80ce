import Manuscript.Files.Basic
import Manuscript.Inclusion.Directive
import Manuscript.Text.Numeral

/-!
Findings that a conversion survives.
-/

namespace Manuscript

/-- A finding that is reported and does not end the conversion. -/
inductive Warning where
  /-- An inclusion on a line of the manuscript failed. -/
  | inclusionFailed (line : Nat) (failure : Inclusion.Failure)
  | duplicateLabel (label : Text)
  | undefinedReference (label : Text)
  | undefinedLink (label : Text)
  | resultsNotKept (error : FileError)
  deriving DecidableEq

namespace Warning

/-- The code of a warning. -/
def code : Warning → Text
  | .inclusionFailed .. => "W_INCLUDE_FAILED"
  | .duplicateLabel _ => "W_LABEL_DUP"
  | .undefinedReference _ => "W_REF_UNDEFINED"
  | .undefinedLink _ => "W_LINK_UNDEFINED"
  | .resultsNotKept _ => "W_HIGHLIGHT_CACHE"

/-- The word for how severe every warning is. -/
def severity : Text := "warning"

/-- The line of the manuscript that a warning is about, where it is known. -/
def line? : Warning → Option Nat
  | .inclusionFailed line _ => some line
  | _ => none

/-- The wording of a warning. -/
def message : Warning → Text
  | .inclusionFailed _ failure => failure.message
  | .duplicateLabel label => "label `" ++ label ++ "` is defined more than once; the first definition wins"
  | .undefinedReference label => "reference to undefined label `" ++ label ++ "`"
  | .undefinedLink label => "hyperlink to undefined label `" ++ label ++ "`"
  | .resultsNotKept error => "highlight cache not written: " ++ error.message

end Warning

end Manuscript
