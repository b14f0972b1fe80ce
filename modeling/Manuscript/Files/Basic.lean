import Manuscript.Text.Basic
import Manuscript.Text.Utf8

/-!
A tree of files and folders, and reading and writing in it.  Included files, stored results and the files of
the command line live in such a tree.
-/

namespace Manuscript

/-- Why a file cannot be read or written. -/
inductive FileError where
  | notFound
  | alreadyExists
  | notAFolder
  | isAFolder
  /-- The bytes are not UTF-8. -/
  | notText
  deriving DecidableEq

/-- The wording of a file error. -/
def FileError.message : FileError → Text
  | .notFound => "No such file or directory (os error 2)"
  | .alreadyExists => "File exists (os error 17)"
  | .notAFolder => "Not a directory (os error 20)"
  | .isAFolder => "Is a directory (os error 21)"
  | .notText => "stream did not contain valid UTF-8"

/-- A place in a tree: the names on the way to it from the root. -/
abbrev Place := List Text

/-- A tree of files and folders.  The folders on the way to a file need not be listed. -/
structure FileTree where
  files : List (Place × Bytes)
  folders : List Place
  /-- The folder that relative paths start from.  A tree that is only what is below this folder has it as its
  root, and knows nothing of absolute paths. -/
  current : Place

namespace FileTree

/-- The tree of an empty root folder. -/
def empty : FileTree := ⟨[], [], []⟩

/-- The content of the file at a place. -/
def file? (tree : FileTree) (place : Place) : Option Bytes :=
  (tree.files.find? fun f => f.1 = place).map Prod.snd

/-- Is there a folder at the place? -/
def hasFolder (tree : FileTree) (place : Place) : Bool :=
  place.isEmpty || tree.folders.any (fun f => place.isPrefixOf f) ||
    tree.files.any fun f => place.isPrefixOf f.1 && place != f.1

/-- Walks down from a folder along the names of a path.  The last name need not exist. -/
def walk (tree : FileTree) (folder : Place) : List Text → Except FileError Place
  | [] => .ok folder
  | name :: rest =>
    if name = [] ∨ name = "." then walk tree folder rest
    else if name = ".." then
      if folder.isEmpty then .error .notFound else walk tree folder.dropLast rest
    else
      let place := folder ++ [name]
      if rest.isEmpty then .ok place
      else if tree.hasFolder place then walk tree place rest
      else if (tree.file? place).isSome then .error .notAFolder
      else .error .notFound

/-- The folder that a path starts from. -/
def start (tree : FileTree) (path : Text) : Place := if path.head? = some '/' then [] else tree.current

/-- The place that a path leads to. -/
def locate (tree : FileTree) (path : Text) : Except FileError Place :=
  if path.isEmpty ∨ (path.head? = some '/' ∧ tree.current = []) then .error .notFound
  else tree.walk (tree.start path) (path.splitOn '/')

/-- Is there a folder at the end of the path? -/
def isFolder (tree : FileTree) (path : Text) : Bool :=
  match tree.locate path with
  | .ok place => tree.hasFolder place
  | .error _ => false

/-- The content of the file at the end of a path. -/
def readBytes (tree : FileTree) (path : Text) : Except FileError Bytes := do
  let place ← tree.locate path
  match tree.file? place with
  | some bytes => .ok bytes
  | none => .error (if tree.hasFolder place then .isAFolder else .notFound)

/-- The text of the file at the end of a path. -/
def readText (tree : FileTree) (path : Text) : Except FileError Text := do
  let bytes ← tree.readBytes path
  match Utf8.decode? bytes with
  | some t => .ok t
  | none => .error .notText

/-- The tree with a file's content set. -/
def setFile (tree : FileTree) (place : Place) (bytes : Bytes) : FileTree :=
  { tree with files := tree.files.filter (fun f => f.1 != place) ++ [(place, bytes)] }

/-- The tree with a folder. -/
def setFolder (tree : FileTree) (place : Place) : FileTree :=
  { tree with folders := tree.folders ++ [place] }

/-- Writes a file; its folder has to exist. -/
def write (tree : FileTree) (path : Text) (bytes : Bytes) : Except FileError FileTree := do
  let place ← tree.locate path
  if tree.hasFolder place then .error .isAFolder else .ok (tree.setFile place bytes)

/-- The tree with the folders on the way along the names of a path. -/
def makeWay (tree : FileTree) (folder : Place) : List Text → Except FileError FileTree
  | [] => .ok tree
  | name :: rest =>
    if name = [] ∨ name = "." then makeWay tree folder rest
    else if name = ".." then
      if folder.isEmpty then .error .notFound else makeWay tree folder.dropLast rest
    else
      let place := folder ++ [name]
      if (tree.file? place).isSome then
        .error (if rest.isEmpty then .alreadyExists else .notAFolder)
      else if tree.hasFolder place then makeWay tree place rest
      else makeWay (tree.setFolder place) place rest

/-- The names on the way to the folder of a path's end, and the name there. -/
def splitPath (path : Text) : List Text × Text :=
  let names := (path.splitOn '/').filter fun name => name ≠ [] ∧ name ≠ "."
  (names.dropLast, names.getLast?.getD [])

/-- Writes a file, after making the folders on the way to it. -/
def writeDeep (tree : FileTree) (path : Text) (bytes : Bytes) : Except FileError FileTree := do
  let tree ← tree.makeWay (tree.start path) (splitPath path).1
  tree.write path bytes

end FileTree

end Manuscript
