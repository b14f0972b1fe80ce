import Manuscript.Xml.Token

/-!
XML documents as trees.  Of names only the part after the prefix is kept, and of attributes only those
without a prefix; the prefixes have to be declared all the same.
-/

namespace Manuscript

/-- A node of an XML document. -/
inductive Xml where
  | text (t : Text)
  | element (name : Text) (attributes : List (Text × Text)) (children : List Xml)

namespace Xml

/-- The name space of the prefix `xml`. -/
def xmlSpace : Text := "http://www.w3.org/XML/1998/namespace"

/-- The name space of the prefix `xmlns`. -/
def xmlnsSpace : Text := "http://www.w3.org/2000/xmlns/"

/-- The prefixes that are declared, the innermost first, each with its name space. -/
abbrev Scope := List (Text × Text)

/-- The name space of a prefix. -/
def Scope.space? (s : Scope) (qualifier : Text) : Option Text := s.lookup qualifier

/-- Does the declaration give a prefix a name space that it may have? -/
def isPermitted (qualifier space : Text) : Bool :=
  space ≠ xmlnsSpace && (qualifier == "xml".toList) == (space == xmlSpace)

/-- Takes in an attribute of a tag: the prefixes declared so far in the tag, and the other attributes,
backwards. -/
def declare? (acc : Scope × List Attribute) (a : Attribute) : Option (Scope × List Attribute) :=
  let (declared, others) := acc
  if a.name.qualifier = "xmlns" then
    if !isPermitted a.name.name a.value || (declared.space? a.name.name).isSome then none
    else if a.value = xmlSpace then some acc
    else some ((a.name.name, a.value) :: declared, others)
  else if a.name.name = "xmlns" then
    if a.value = xmlSpace ∨ a.value = xmlnsSpace then none else some acc
  else some (declared, a :: others)

/-- The name space of an attribute: an attribute without a prefix has none. -/
def attributeSpace? (scope : Scope) (a : Attribute) : Option (Option Text) :=
  if a.name.qualifier = [] then some none
  else if a.name.qualifier = "xml" then some (some xmlSpace)
  else (scope.space? a.name.qualifier).map some

/-- An element that is still open. -/
structure Open where
  name : QName
  attributes : List (Text × Text)
  scope : Scope
  /-- The children so far, backwards. -/
  children : List Xml
  /-- Does text that comes next go on with the last child? -/
  isInText : Bool

namespace Open

/-- Opens an element inside a scope. -/
def new? (outer : Scope) (name : QName) (attributes : List Attribute) : Option Open := do
  let (declared, others) ← attributes.foldlM declare? ([], [])
  let scope := declared ++ outer
  let spaces ← others.reverse.mapM fun a => (attributeSpace? scope a).map fun space => (space, a)
  let names : List (Option Text × Text) := spaces.map fun (space, a) => (space, a.name.name)
  let isKnown := name.qualifier.isEmpty || (scope.space? name.qualifier).isSome
  if name.qualifier = "xmlns" ∨ !isKnown ∨ !decide names.Nodup then none
  else
    let plain := spaces.filterMap fun (space, a) =>
      if space.isNone then some (a.name.name, a.value) else none
    some ⟨name, plain, scope, [], false⟩

/-- Adds text. -/
def addText (o : Open) (t : Text) : Open :=
  match o.isInText, o.children with
  | true, .text s :: before => { o with children := .text (s ++ t) :: before }
  | _, children => { o with children := .text t :: children, isInText := true }

/-- Ends the text that is being added. -/
def pause (o : Open) : Open := { o with isInText := false }

/-- Adds an element. -/
def addElement (o : Open) (child : Xml) : Open :=
  { o with children := child :: o.children, isInText := false }

/-- The element, all of whose children have been added. -/
def close (o : Open) : Xml := .element o.name.name o.attributes o.children.reverse

end Open

/-- Reads the rest of an element inside of others. -/
def content? (top : Open) (outer : List Open) (t : Text) : Option (Xml × Text) :=
  match token? t with
  | none => none
  | some (token, rest) =>
    if rest.length < t.length then
      match token with
      | .text s => content? (top.addText s) outer rest
      | .aside => content? top.pause outer rest
      | .opens name attributes isEmpty =>
        match Open.new? top.scope name attributes with
        | none => none
        | some child =>
          if isEmpty then content? (top.addElement child.close) outer rest
          else content? child (top :: outer) rest
      | .closes name =>
        if name ≠ top.name then none
        else
          match outer with
          | [] => some (top.close, rest)
          | parent :: outer => content? (parent.addElement top.close) outer rest
    else none
termination_by t.length

/-- Reads an element. -/
def element? (t : Text) : Option (Xml × Text) := do
  let rest ← Text.after? "<" t
  let (token, rest) ← opening? rest
  match token with
  | .opens name attributes isEmpty => do
    let root ← Open.new? [] name attributes
    if isEmpty then some (root.close, rest) else content? root [] rest
  | _ => none

/-- The root element of a document. -/
def parse? (t : Text) : Option Xml := do
  let rest ← prolog? t
  let (root, rest) ← element? rest
  let rest ← asides? rest
  if rest = [] then some root else none

mutual

/-- All the text in a node. -/
def allText : Xml → Text
  | .text t => t
  | .element _ _ children => allTexts children

/-- All the text in some nodes. -/
def allTexts : List Xml → Text
  | [] => []
  | node :: rest => allText node ++ allTexts rest

end

end Xml

end Manuscript
