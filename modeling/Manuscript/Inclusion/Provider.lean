import Manuscript.Files.Basic
import Manuscript.Inclusion.Directive

/-!
Where included files come from: a folder of a file tree, and the repositories in it with their tagged
revisions.
-/

namespace Manuscript.Inclusion

/-- Answers requests for files. -/
structure Provider where
  read : (path : Text) → Except Failure Text
  readAt : (path : Text) → Revision → Except Failure Text

/-- A commit with its tag, and all the files that it holds. -/
structure Snapshot where
  tag : Text
  tree : FileTree

/-- A repository: the folder that it tracks and its commits, the first one first. -/
structure Repository where
  folder : Place
  snapshots : List Snapshot

/-- The snapshot that a revision name stands for. -/
def Repository.snapshot? (r : Repository) (name : Text) : Option Snapshot :=
  if name = "HEAD" ∨ name = "@" then r.snapshots.getLast?
  else
    r.snapshots.find? fun s =>
      name = s.tag ∨ name = "tags/" ++ s.tag ∨ name = "refs/tags/" ++ s.tag

/-- A file tree with repositories in it, and the folder that paths are relative to. -/
structure Sources where
  tree : FileTree
  repositories : List Repository
  root : Text

namespace Sources

/-- A path from the root of the tree. -/
def resolve (s : Sources) (path : Text) : Text :=
  if Text.startsWith "/" path ∨ s.root = [] then path else s.root ++ "/" ++ path

/-- Reads a file. -/
def read (s : Sources) (path : Text) : Except Failure Text :=
  match s.tree.readText (s.resolve path) with
  | .ok t => .ok t
  | .error _ => .error (.missingFile path)

/-- The innermost repository that a folder belongs to. -/
def repositoryOf? (s : Sources) (folder : Place) : Option Repository :=
  (s.repositories.filter fun r => r.folder.isPrefixOf folder).foldl
    (fun best r => if best.all fun b => b.folder.length < r.folder.length then some r else best) none

/-- The listing of a folder of a snapshot, under the name that it was asked for by. -/
def listing (tree : FileTree) (folder : Place) (name : Text) : Text :=
  let below := tree.files.filterMap fun (place, _) =>
    if folder.isPrefixOf place then
      match place.drop folder.length with
      | [] => none
      | [file] => some file
      | sub :: _ => some (sub ++ "/")
    else none
  let names := below.eraseDups.mergeSort fun a b => Utf8.encode a ≤ Utf8.encode b
  "tree " ++ name ++ "\n\n" ++ names.flatMap fun file => (file ++ "\n" : Text)

/-- The names of a path without those that stay in place and those that lead back. -/
def normalize? (place : Place) : List Text → Option Place
  | [] => some place
  | name :: rest =>
    if name = [] ∨ name = "." then normalize? place rest
    else if name = ".." then if place = [] then none else normalize? place.dropLast rest
    else normalize? (place ++ [name]) rest

/-- The place in a snapshot that a path leads to, asked for from `folder`: only a path that starts with `./`
or `../` is relative to that folder. -/
def placeInSnapshot? (folder : Place) (path : Text) : Option Place :=
  if Text.startsWith "./" path ∨ Text.startsWith "../" path then normalize? folder (path.splitOn '/')
  else
    let names := path.splitOn '/'
    let names := if names.getLast? = some [] then names.dropLast else names
    if names.any fun name => name = [] ∨ name = "." ∨ name = ".." then none else some names

/-- The content of a path in a snapshot. -/
def show? (snapshot : Snapshot) (folder : Place) (path name : Text) : Option Text := do
  let place ← placeInSnapshot? folder path
  match snapshot.tree.file? place with
  | some bytes => if Text.endsWith "/" path then none else some (Utf8.decodeLossy bytes)
  | none => if snapshot.tree.hasFolder place then some (listing snapshot.tree place name) else none

/-- Reads a file at a tagged revision. -/
def readAt (s : Sources) (path : Text) (revision : Revision) : Except Failure Text :=
  match (s.tree.locate (s.resolve revision.repo)).toOption.filter fun place => s.tree.hasFolder place with
  | none => .error (.missingRepository revision.repo)
  | some folder =>
    match (s.repositoryOf? folder).bind fun r =>
        (r.snapshot? revision.tag).map fun snapshot => (r, snapshot) with
    | none => .error (.missingTag revision.tag revision.repo)
    | some (r, snapshot) =>
      let name := revision.tag ++ ":" ++ path
      match show? snapshot (folder.drop r.folder.length) path name with
      | some t => .ok t
      | none => .error (.missingFile name)

/-- The provider of the files. -/
def provider (s : Sources) : Provider := ⟨s.read, s.readAt⟩

end Sources

end Manuscript.Inclusion
