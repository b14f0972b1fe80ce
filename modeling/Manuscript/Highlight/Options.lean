import Manuscript.Json.Reader

/-!
The options of a code block: which of its lines are marked and whether its lines are numbered.  They are
written as the members of a JSON object, with or without the braces.
-/

namespace Manuscript.Highlight

/-- The options of a code block. -/
structure Options where
  /-- The numbers of the marked lines, as they are requested. -/
  markedLines : List UInt32
  isNumbered : Bool
  deriving DecidableEq

namespace Options

/-- No marked lines and no line numbers. -/
def default : Options := ⟨[], false⟩

/-- Is nothing requested? -/
def isDefault (o : Options) : Bool := o.markedLines.isEmpty && !o.isNumbered

/-- A line number in JSON. -/
def lineNumber? : Json → Option UInt32
  | .number lexeme =>
    if lexeme.all Char.isDigit then (Text.natBelow? Text.bound32 lexeme).map UInt32.ofNat else none
  | _ => none

/-- The members read so far; a member that has not occurred is `none`. -/
structure Members where
  markedLines : Option (List UInt32)
  isNumbered : Option Bool

/-- Takes in a member.  The two known members may occur once each and others are passed over. -/
def Members.add? (m : Members) : Option Text × Json → Option Members
  | (none, _) => none
  | (some key, value) =>
    if key = "hl_lines" then
      match m.markedLines, value with
      | none, .array items => (items.mapM lineNumber?).map fun ns => { m with markedLines := some ns }
      | _, _ => none
    else if key = "linenos" then
      match m.isNumbered, value with
      | none, .bool b => some { m with isNumbered := some b }
      | _, _ => none
    else some m

/-- The options that a JSON object holds. -/
def ofJson? : Json → Option Options
  | .object members =>
    (members.foldlM Members.add? ⟨none, none⟩).map fun m =>
      ⟨m.markedLines.getD [], m.isNumbered.getD false⟩
  | _ => none

/-- Reads options: nothing, an object, or the members of an object. -/
def parse? (raw : Text) : Option Options :=
  let t := Text.trim raw
  if t = [] then some default
  else (Json.parse? (if t.head? = some '\x7b' then t else "\x7b" ++ t ++ "\x7d")).bind ofJson?

/-- The one written form of the options, for digests. -/
def canonical (o : Options) : Text :=
  (Json.object [
    (some "hl_lines", .array (o.markedLines.map fun n => Json.ofNat n.toNat)),
    (some "linenos", .bool o.isNumbered)]).compact

/-- The first marked line that a block of `available` lines does not have. -/
def outOfRange? (o : Options) (available : Nat) : Option UInt32 :=
  o.markedLines.find? fun n => n == 0 || available < n.toNat

end Options

end Manuscript.Highlight
