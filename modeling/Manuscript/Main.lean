import Manuscript.CommandLine.Run

/-!
The program: the files that the arguments name and the manuscript includes are read, everything is decided by
`CommandLine.perform`, and what it leaves behind is written.

Programs are run by the library itself (`ParserProgram`), and repositories are not read, so that inclusions at a
tagged revision are reported as missing.
-/

namespace Manuscript.Program

open CommandLine

/-- The names on the way to a place. -/
def ways (place : Place) : List Place := (List.range place.length).map fun n => place.take (n + 1)

/-- The path of a place. -/
def pathOf (place : Place) : String := String.ofList ('/' :: Text.join ['/'] place)

/-- The place that a path leads to from a folder, by its names alone. -/
def placeOf (folder : Place) (path : Text) : Place :=
  (path.splitOn '/').foldl (fun place name =>
    if name = [] ∨ name = "." then place
    else if name = ".." then place.dropLast
    else place ++ [name]) (if path.head? = some '/' then [] else folder)

/-- Reads what is at the end of a path into a tree, with the folders on the way to it. -/
def load (tree : FileTree) (path : Text) : IO FileTree := do
  let root ← IO.currentDir
  let mut tree := tree
  for place in ways (placeOf tree.current path) do
    let found := root / pathOf place
    if ← found.isDir then tree := tree.setFolder place
    else if ← found.pathExists then tree := tree.setFile place (← IO.FS.readBinFile found).toList
  return tree

/-- The paths that settings name. -/
def pathsOf (s : Settings) : List Text :=
  [s.input, s.output, s.labels, s.results, s.outline].filterMap id

/-- The paths that a manuscript includes. -/
def inclusionsOf (root source : Text) : List Text :=
  (source.splitOn '\n').filterMap fun line =>
    match Inclusion.directive? line with
    | some (.ok d) => some ((⟨.empty, [], root⟩ : Inclusion.Sources).resolve d.path)
    | _ => none

/-- What settings are carried out in. -/
def surroundings (s : Settings) : IO Surroundings := do
  let here := (← IO.currentDir).toString.toList
  let tree : FileTree := { FileTree.empty with current := placeOf [] here }
  let tree ← ((here ++ ['/']) :: pathsOf s).foldlM load tree
  let input ← if s.input.isSome then pure [] else (fun b => b.toList) <$> (← IO.getStdin).readBinToEnd
  match readInput s ⟨tree, [], input⟩ with
  | .error _ => return ⟨tree, [], input⟩
  | .ok source => return ⟨← (inclusionsOf s.root source).foldlM load tree, [], input⟩

/-- Writes what has changed in a tree. -/
def store (before after : FileTree) : IO Unit := do
  for place in after.folders do
    if !before.hasFolder place then IO.FS.createDirAll (pathOf place)
  for (place, bytes) in after.files do
    if before.file? place ≠ some bytes then IO.FS.writeBinFile (pathOf place) ⟨bytes.toArray⟩

/-- Carries out what the arguments ask for. -/
def carryOut (arguments : List Text) : IO UInt32 := do
  let around ←
    match Given.readAll arguments with
    | .ok g => surroundings (.of g)
    | .error _ => pure ⟨.empty, [], []⟩
  let outcome := perform arguments (Text.ofNat (← IO.monoNanosNow)) around
  store around.tree outcome.tree
  (← IO.getStderr).putStr (String.ofList outcome.errors)
  (← IO.getStdout).putStr (String.ofList outcome.output)
  return UInt32.ofNat outcome.status

end Manuscript.Program

/-- The program. -/
def main (arguments : List String) : IO UInt32 :=
  Manuscript.Program.carryOut (arguments.map String.toList)
