import Manuscript.Text.Basic

/-!
The language that the extension of a file's name stands for.
-/

namespace Manuscript.Inclusion

/-- The extensions of each language. -/
def languageTable : List (Text × List Text) :=
  [("ruby", ["rb"]), ("python", ["py"]), ("rust", ["rs"]), ("javascript", ["js", "mjs"]),
   ("typescript", ["ts"]), ("c", ["c", "h"]), ("cpp", ["cc", "cpp", "hpp"]), ("go", ["go"]),
   ("java", ["java"]), ("bash", ["sh", "bash"]), ("html", ["html", "htm"]), ("css", ["css"]),
   ("json", ["json"]), ("yaml", ["yml", "yaml"]), ("toml", ["toml"]), ("markdown", ["md"]),
   ("latex", ["tex"]), ("sql", ["sql"]), ("haskell", ["hs"]), ("elixir", ["ex", "exs"]),
   ("erb", ["erb"])]

/-- The name of the file that a path leads to. -/
def fileName? (path : Text) : Option Text :=
  ((path.splitOn '/').filter fun name => name ≠ [] ∧ name ≠ ".").getLast?.filter (· ≠ "..")

/-- What follows the last dot of a file's name; a dot at its start does not count. -/
def extension? (path : Text) : Option Text := do
  let name ← fileName? path
  let (stem, extension) ← Text.cutLast? '.' name
  if stem = [] then none else some extension

/-- The language of a file, by its extension in either case. -/
def languageOfPath (path : Text) : Text :=
  match extension? path with
  | none => "text"
  | some extension =>
    match languageTable.find? fun row => row.2.contains (extension.map Char.toLower) with
    | some (language, _) => language
    | none => "text"

end Manuscript.Inclusion
