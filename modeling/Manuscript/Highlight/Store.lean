import Manuscript.Digest
import Manuscript.Files.Basic
import Manuscript.Highlight.Block
import Manuscript.SortedMap

/-!
Results of highlighting that are kept from one run to the next.  A store may be tied to a file, which holds
the results as one JSON object; several stores may share the file, so a store that is flushed keeps what the
others have written.
-/

namespace Manuscript.Highlight

/-- The rendered code blocks without options, by the digest of what they were rendered from. -/
structure Store where
  /-- The file that the results are kept in, if any. -/
  path : Option Text
  entries : SortedMap Text Text
  /-- Something was inserted since the last flush. -/
  isDirty : Bool

namespace Store

/-- A store that is tied to no file. -/
def inMemory : Store := ⟨none, .empty, false⟩

/-- The results that a JSON object of strings holds. -/
def entriesOfJson? : Json → Option (SortedMap Text Text)
  | .object members => do
    let pairs ← members.mapM fun
      | (some key, .string (some value)) => some (key, value)
      | _ => none
    return .ofList pairs
  | _ => none

/-- The results that a text holds. -/
def entriesOfText? (t : Text) : Option (SortedMap Text Text) := (Json.parse? t).bind entriesOfJson?

/-- The results that a file holds: none when it cannot be read. -/
def readEntries (tree : FileTree) (path : Text) : SortedMap Text Text :=
  match tree.readText path with
  | .ok t => (entriesOfText? t).getD .empty
  | .error _ => .empty

/-- The text of a file that holds the results. -/
def writtenEntries (entries : SortedMap Text Text) : Text :=
  (Json.object (entries.toList.map fun (key, value) => (some key, .ofText value))).compact

/-- The store of the results in a file. -/
def openAt (tree : FileTree) (path : Text) : Store := ⟨some path, readEntries tree path, false⟩

/-- The digest that a result is kept under. -/
def key (code language : Text) (format : Format) : Text := digest [code, language, format.name]

/-- The result under a digest. -/
def get? (s : Store) (key : Text) : Option Text := s.entries.get? key

/-- Keeps a result. -/
def insert (s : Store) (key value : Text) : Store :=
  { s with entries := s.entries.insert key value, isDirty := true }

/-- Writes what was inserted to the file, beside the results that the file holds by now. -/
def flush (s : Store) (tree : FileTree) : Except FileError (Store × FileTree) :=
  match s.path with
  | none => .ok (s, tree)
  | some path =>
    if !s.isDirty then .ok (s, tree)
    else do
      let merged := (readEntries tree path).union s.entries
      let tree ← tree.writeDeep path (Utf8.encode (writtenEntries merged))
      return ({ s with entries := merged, isDirty := false }, tree)

end Store

end Manuscript.Highlight
