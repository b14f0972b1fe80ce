import Manuscript.Source.Line

/-!
The environments whose bodies are opaque.  Only markers of the same name are counted to find the end of a
body, so that a body may hold whole environments of its own name and any text besides.

Main statement: a body, its end marker and what follows are the lines after the begin marker
(`eq_append_of_body?`).
-/

namespace Manuscript.Source

/-- The environments whose bodies are shown as they are. -/
def literalEnvironments : List Text := ["verbatim", "Verbatim", "code"]

/-- The environments whose bodies are mathematics. -/
def mathEnvironments : List Text :=
  ["equation", "equation*", "align", "align*", "gather", "gather*", "multline", "multline*",
    "eqnarray", "eqnarray*"]

/-- How the body of an environment is cached. -/
inductive Category where
  | literal
  | code
  | math
  deriving DecidableEq

/-- How the body of an environment is cached, if it is; under a hint every literal environment is
code. -/
def category? (name : Text) (isHinted : Bool) : Option Category :=
  if name = "code" ∨ (isHinted ∧ name ∈ literalEnvironments) then some .code
  else if name ∈ literalEnvironments then some .literal
  else if name ∈ mathEnvironments then some .math
  else none

/-- Is the body of the environment cached? -/
def isCaptured (name : Text) : Bool := name ∈ literalEnvironments || name ∈ mathEnvironments

/-- Splits the lines after a begin marker into the body, the end marker and the lines after it.  `inner`
counts the environments of the same name that are open inside the body. -/
def body? (name : Text) : (inner : Nat) → List Text → Option (List Text × Text × List Text)
  | _, [] => none
  | inner, line :: rest =>
    let add := Option.map fun (split : List Text × Text × List Text) => (line :: split.1, split.2)
    if begin? line = some name then add (body? name (inner + 1) rest)
    else if end? line = some name then
      match inner with
      | 0 => some ([], line, rest)
      | inner + 1 => add (body? name inner rest)
    else add (body? name inner rest)

theorem eq_append_of_body? {name : Text} {inner : Nat} {lines body rest : List Text} {last : Text}
    (h : body? name inner lines = some (body, last, rest)) : lines = body ++ last :: rest := by
  induction lines generalizing inner body with
  | nil => simp [body?] at h
  | cons line lines ih =>
      have step : ∀ {n : Nat},
          (body? name n lines).map (fun split => (line :: split.1, split.2)) = some (body, last, rest) →
            line :: lines = body ++ last :: rest := by
        intro n hmap
        obtain ⟨⟨body', last', rest'⟩, hbody, heq⟩ := Option.map_eq_some_iff.mp hmap
        obtain ⟨rfl, rfl, rfl⟩ := by simpa using heq
        simp [ih hbody]
      simp only [body?] at h
      split at h
      · exact step h
      · split at h
        · cases inner with
          | zero =>
              obtain ⟨rfl, rfl, rfl⟩ := by simpa using h
              rfl
          | succ inner => exact step h
        · exact step h

end Manuscript.Source
