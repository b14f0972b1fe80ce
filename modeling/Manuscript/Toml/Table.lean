import Manuscript.Json.Basic

/-!
Tables of TOML while they are read.  A table can be begun by a header, by the header of a table inside it, or by
a dotted key, and each of these may be followed by different ones.
-/

namespace Manuscript.Toml

/-- How a table has come about. -/
inductive Origin where
  /-- From its own header. -/
  | header
  /-- From the header of a table inside it. -/
  | implied
  /-- From a dotted key. -/
  | dotted
  deriving DecidableEq

/-- What a key stands for. -/
inductive Item where
  | value (v : Json)
  | table (origin : Origin) (members : List (Text × Item))
  /-- Tables under one name, the last one open. -/
  | tables (closed : List (List (Text × Item))) (last : List (Text × Item))

/-- The members of a table. -/
abbrev Members := List (Text × Item)

mutual

/-- The value of an item. -/
def Item.json : Item → Json
  | .value v => v
  | .table _ members => .object (membersJson members)
  | .tables closed last => .array (tablesJson closed ++ [.object (membersJson last)])

/-- The values of members. -/
def membersJson : List (Text × Item) → List (Option Text × Json)
  | [] => []
  | (key, item) :: rest => (some key, item.json) :: membersJson rest

/-- The values of tables. -/
def tablesJson : List (List (Text × Item)) → List Json
  | [] => []
  | members :: rest => .object (membersJson members) :: tablesJson rest

end

namespace Members

/-- The item of a key. -/
def find? (m : Members) (key : Text) : Option Item := m.lookup key

/-- The members with the item of a key set. -/
def set (m : Members) (key : Text) (item : Item) : Members := m.filter (fun p => p.1 ≠ key) ++ [(key, item)]

/-- Changes the members of the table that a path of headers leads to.  Tables on the way that are missing are
made. -/
def alter (f : Members → Option Members) : (path : List Text) → Members → Option Members
  | [], m => f m
  | key :: path, m =>
    match m.find? key with
    | none => (alter f path []).map fun inner => m.set key (.table .implied inner)
    | some (.table origin inner) => (alter f path inner).map fun inner => m.set key (.table origin inner)
    | some (.tables closed last) => (alter f path last).map fun last => m.set key (.tables closed last)
    | some (.value _) => none

/-- Sets a key, which may be dotted; each part of it but the last one names a table that only dotted keys have
made. -/
def define (v : Json) : (parts : List Text) → Members → Option Members
  | [], _ => none
  | [key], m => if (m.find? key).isSome then none else some (m.set key (.value v))
  | key :: next :: parts, m =>
    match m.find? key with
    | none => (define v (next :: parts) []).map fun inner => m.set key (.table .dotted inner)
    | some (.table origin inner) =>
      if origin = .dotted ∨ (origin = .implied ∧ parts ≠ []) then
        (define v (next :: parts) inner).map fun inner => m.set key (.table origin inner)
      else none
    | some _ => none

/-- Begins a table with a header of its own. -/
def beginTable (key : Text) (m : Members) : Option Members :=
  match m.find? key with
  | none => some (m.set key (.table .header []))
  | some (.table .implied inner) => some (m.set key (.table .header inner))
  | some _ => none

/-- Begins another one of the tables under a name. -/
def beginAnother (key : Text) (m : Members) : Option Members :=
  match m.find? key with
  | none => some (m.set key (.tables [] []))
  | some (.tables closed last) => some (m.set key (.tables (closed ++ [last]) []))
  | some _ => none

end Members

end Manuscript.Toml
