import Manuscript.Html.Rules

/-!
What a token does in the parts of tables, in choices and in templates.  Some tokens end a part and are then looked
at again by the rules for what is around it.
-/

namespace Manuscript.Html

/-- What has become of a token. -/
inductive Outcome where
  | done (b : Builder)
  | again (b : Builder)

namespace Builder

/-- The tokens that tables are made of have no effect where they are not expected. -/
def tableTags : List Text :=
  ["body", "caption", "col", "colgroup", "html", "tbody", "td", "tfoot", "th", "thead", "tr"]

/-- The tags that begin another part of a table. -/
def partTags : List Text := ["caption", "col", "colgroup", "tbody", "td", "tfoot", "th", "thead", "tr"]

/-- The groups of rows. -/
def rowGroups : List Text := ["tbody", "tfoot", "thead"]

/-- Ends the elements inside the innermost one with one of the names. -/
def closeInside (b : Builder) (names : List Text) : Builder :=
  b.within fun frames => frames.finishWhile fun f => !f.isNamed ("html" :: "template" :: names)

/-- Does what is done in running text, but before the table. -/
def foster (b : Builder) (token : Token) : Builder :=
  { run { b with isFostering := true } token with isFostering := false }

/-- Opens a part of a table. -/
def openPart (b : Builder) (context : List Text) (tag : Tag) (mode : Mode) : Builder :=
  { (b.closeInside context).openTag tag with mode := mode }

/-- Ends a part of a table, if it is open. -/
def closePart (b : Builder) (names : List Text) (mode : Mode) : Builder :=
  { (b.closeInside names).within fun frames => frames.finish 1 with mode := mode }

/-- A tag without attributes. -/
def bare (name : Text) : Tag := ⟨name, [], false⟩

/-- Is it the tag of an input that is not shown? -/
def isHiddenInput (tag : Tag) : Bool :=
  tag.name = "input" && (tag.attributes.lookup ("type" : Text)).any fun v => v.map Char.toLower = ("hidden" : Text)

/-- What an opening tag does in a table. -/
def opensInTable (b : Builder) (tag : Tag) : Outcome :=
  let name := tag.name
  if name = "caption" then .done (((b.closeInside ["table"]).mark).openPart ["table"] tag .caption)
  else if name = "colgroup" then .done (b.openPart ["table"] tag .columnGroup)
  else if name = "col" then .again (b.openPart ["table"] (bare "colgroup") .columnGroup)
  else if name ∈ rowGroups then .done (b.openPart ["table"] tag .tableBody)
  else if name ∈ (["td", "th", "tr"] : List Text) then .again (b.openPart ["table"] (bare "tbody") .tableBody)
  else if name = "table" then
    if b.frames.hasInTableScope ["table"] then
      .again (b.within fun frames => frames.finishThrough (·.isNamed ["table"])).resetMode
    else .done b
  else if name ∈ (["style", "script", "template"] : List Text) then .done (b.openHead tag)
  else if isHiddenInput tag then .done (b.addEmpty tag)
  else if name = "form" then
    if b.isInTemplate || b.form.isSome then .done b
    else .done { b.addEmpty tag with form := some b.next }
  else .done (b.foster (.opens tag))

/-- What a token does in a table. -/
def inTable (b : Builder) (token : Token) : Outcome :=
  match token with
  | .opens tag => b.opensInTable tag
  | .closes name =>
    if name = "table" then
      if b.frames.hasInTableScope ["table"] then
        .done (b.within fun frames => frames.finishThrough (·.isNamed ["table"])).resetMode
      else .done b
    else if name ∈ tableTags then .done b
    else if name = "template" then .done b.closeTemplate
    else .done (b.foster token)
  | .text t =>
    let t := t.filter fun c => c.toNat ≠ 0
    if b.frames.topIs ("template" :: tableParts) && t.all isSpace then .done (b.addText t)
    else .done (b.foster token)
  | _ => .done b

/-- What a token does in a caption. -/
def inCaption (b : Builder) (token : Token) : Outcome :=
  let closed := fun b : Builder =>
    { (b.within fun frames => frames.closeNamed ["caption"]).clearToMark with mode := .table }
  let isOpen := b.frames.hasInTableScope ["caption"]
  match token with
  | .opens tag =>
    if tag.name ∈ partTags then if isOpen then .again (closed b) else .done b else .done (b.run token)
  | .closes name =>
    if name = "table" then if isOpen then .again (closed b) else .done b
    else if name = "caption" then if isOpen then .done (closed b) else .done b
    else if name ∈ tableTags then .done b
    else .done (b.run token)
  | _ => .done (b.run token)

/-- What a token does in a group of columns. -/
def inColumnGroup (b : Builder) (token : Token) : Outcome :=
  let close := fun otherwise : Builder → Outcome =>
    if b.frames.topIs ["colgroup"] then otherwise { b.closeTop ["colgroup"] with mode := .table } else .done b
  match token with
  | .text t =>
    if t.all isSpace then .done (b.addText t)
    else
      let b := b.addText (t.takeWhile isSpace)
      if b.frames.topIs ["colgroup"] then
        match inTable { b.closeTop ["colgroup"] with mode := .table } (.text (t.dropWhile isSpace)) with
        | .done b | .again b => .done b
      else .done b
  | .opens tag =>
    if tag.name = "html" then .done b
    else if tag.name = "col" then .done (b.addEmpty tag)
    else if tag.name = "template" then .done (b.openHead tag)
    else close .again
  | .closes name =>
    if name = "colgroup" then close .done
    else if name = "col" then .done b
    else if name = "template" then .done b.closeTemplate
    else close .again
  | _ => .done b

/-- What a token does in a group of rows. -/
def inTableBody (b : Builder) (token : Token) : Outcome :=
  let isOpen := b.frames.hasInTableScope rowGroups
  let closed := b.closePart rowGroups .table
  match token with
  | .opens tag =>
    if tag.name = "tr" then .done (b.openPart rowGroups tag .row)
    else if tag.name = "th" ∨ tag.name = "td" then .again (b.openPart rowGroups (bare "tr") .row)
    else if tag.name ∈ partTags then if isOpen then .again closed else .done b
    else b.inTable token
  | .closes name =>
    if name ∈ rowGroups then if b.frames.hasInTableScope [name] then .done closed else .done b
    else if name = "table" then if isOpen then .again closed else .done b
    else if name ∈ tableTags then .done b
    else b.inTable token
  | _ => b.inTable token

/-- What a token does in a row. -/
def inRow (b : Builder) (token : Token) : Outcome :=
  let isOpen := b.frames.hasInTableScope ["tr"]
  let closed := b.closePart ["tr"] .tableBody
  match token with
  | .opens tag =>
    if tag.name = "th" ∨ tag.name = "td" then .done (b.openPart ["tr"] tag .cell).mark
    else if tag.name ∈ partTags then if isOpen then .again closed else .done b
    else b.inTable token
  | .closes name =>
    if name = "tr" then if isOpen then .done closed else .done b
    else if name = "table" then if isOpen then .again closed else .done b
    else if name ∈ rowGroups then
      if b.frames.hasInTableScope [name] && isOpen then .again closed else .done b
    else if name ∈ tableTags then .done b
    else b.inTable token
  | _ => b.inTable token

/-- What a token does in a cell. -/
def inCell (b : Builder) (token : Token) : Outcome :=
  let closed := fun names =>
    { (b.within fun frames => frames.closeNamed names).clearToMark with mode := .row }
  match token with
  | .opens tag =>
    if tag.name ∈ partTags then
      if b.frames.hasInTableScope ["td", "th"] then .again (closed ["td", "th"]) else .done b
    else .done (b.run token)
  | .closes name =>
    if name = "td" ∨ name = "th" then
      if b.frames.hasInTableScope [name] then .done (closed [name]) else .done b
    else if name ∈ tableParts then
      if b.frames.hasInTableScope [name] then .again (closed ["td", "th"]) else .done b
    else if name ∈ tableTags then .done b
    else .done (b.run token)
  | _ => .done (b.run token)

/-- Ends a choice. -/
def closeSelect (b : Builder) : Builder :=
  (b.within fun frames => frames.finishThrough (·.isNamed ["select"])).resetMode

/-- What an opening tag does in a choice. -/
def opensInSelect (b : Builder) (tag : Tag) : Outcome :=
  let name := tag.name
  let isOpen := b.frames.hasInSelectScope ["select"]
  if name = "option" then .done ((b.closeTop ["option"]).openTag tag)
  else if name = "optgroup" then .done (((b.closeTop ["option"]).closeTop ["optgroup"]).openTag tag)
  else if name = "hr" then .done (((b.closeTop ["option"]).closeTop ["optgroup"]).addEmpty tag)
  else if name = "select" then .done (if isOpen then b.closeSelect else b)
  else if name ∈ (["input", "keygen", "textarea"] : List Text) then
    if isOpen then .again b.closeSelect else .done b
  else if name = "script" ∨ name = "template" then .done (b.openHead tag)
  else .done b

/-- What a token does in a choice. -/
def inSelect (b : Builder) (token : Token) : Outcome :=
  match token with
  | .text t => .done (b.addText (t.filter fun c => c.toNat ≠ 0))
  | .opens tag => b.opensInSelect tag
  | .closes name =>
    if name = "optgroup" then
      let isInGroup := b.frames.topIs ["option"] && Frames.topIs (b.frames.drop 1) ["optgroup"]
      let b := if isInGroup then b.closeTop ["option"] else b
      .done (b.closeTop ["optgroup"])
    else if name = "option" then .done (b.closeTop ["option"])
    else if name = "select" then
      .done (if b.frames.hasInSelectScope ["select"] then b.closeSelect else b)
    else if name = "template" then .done b.closeTemplate
    else .done b
  | _ => .done b

/-- What a token does in a choice in a table. -/
def inSelectInTable (b : Builder) (token : Token) : Outcome :=
  let isPart := fun name : Text => name = "caption" ∨ name = "td" ∨ name = "th" ∨ name ∈ tableParts
  match token with
  | .opens tag => if isPart tag.name then .again b.closeSelect else b.inSelect token
  | .closes name =>
    if isPart name then
      if b.frames.hasInTableScope [name] then .again b.closeSelect else .done b
    else b.inSelect token
  | _ => b.inSelect token

/-- What a token does in a template, whose rules its first element sets. -/
def inTemplate (b : Builder) (token : Token) : Outcome :=
  let turn := fun mode : Mode => Outcome.again { b with mode := mode, templates := mode :: b.templates.tail }
  match token with
  | .opens tag =>
    let name := tag.name
    if name ∈ headElements ∨ name ∈ (["base", "basefont", "bgsound", "link", "meta"] : List Text) then
      .done (b.run token)
    else if name = "caption" ∨ name = "colgroup" ∨ name ∈ rowGroups then turn .table
    else if name = "col" then turn .columnGroup
    else if name = "tr" then turn .tableBody
    else if name = "td" ∨ name = "th" then turn .row
    else turn .body
  | .closes name => if name = "template" then .done b.closeTemplate else .done b
  | _ => .done (b.run token)

end Builder

end Manuscript.Html
