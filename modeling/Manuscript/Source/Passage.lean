import Manuscript.Highlight.Options
import Manuscript.Source.Environment

/-!
A manuscript as a sequence of passages: hints, raw HTML, environments whose bodies are opaque,
comments and lines of prose.  The sequence ends early at the first line that makes it unreadable.

Main statement: a passage and the lines after it are the lines that it was read from
(`eq_append_of_next`).
-/

namespace Manuscript.Source

/-- What a hint says about the code block on the next line. -/
structure Hint where
  language : Text
  options : Highlight.Options
  deriving DecidableEq

/-- What holds of code without a hint. -/
def Hint.default : Hint := ⟨"text", Highlight.Options.default⟩

/-- Why a manuscript cannot be read on; `line` is the number of the line that is at fault. -/
inductive Error where
  | unterminated (name : Text) (line : Nat)
  | unbalanced (name : Text) (line : Nat)
  | lineOutOfRange (requested : UInt32) (available line : Nat)
  | invalidOptions (options : Text) (line : Nat)
  deriving DecidableEq

/-- The wording of an error. -/
def Error.message : Error → Text
  | .unterminated name line =>
    "unterminated `" ++ name ++ "` environment starting on line " ++ Text.ofNat line
  | .unbalanced name line =>
    "`\\end\x7b" ++ name ++ "\x7d` on line " ++ Text.ofNat line ++ " has no matching `\\begin\x7b" ++
      name ++ "\x7d`"
  | .lineOutOfRange requested available line =>
    "highlight option hl_lines refers to line " ++ Text.ofNat requested.toNat ++
      ", but the code block on line " ++ Text.ofNat line ++ " has " ++ Text.ofNat available ++ " lines"
  | .invalidOptions options line =>
    "invalid highlight options `" ++ options ++ "` on line " ++ Text.ofNat line

/-- The next few lines of a manuscript that belong together. -/
inductive Passage where
  | hint (line : Text)
  | rawHtml (line html : Text)
  | literal (first : Text) (body : List Text) (last : Text)
  | code (first : Text) (body : List Text) (last : Text) (hint : Hint) (isInListing : Bool)
  | math (environment first : Text) (body : List Text) (last : Text)
  | comment (line : Text)
  | prose (line : Text)
  deriving DecidableEq

/-- The lines that a passage was read from. -/
def Passage.lines : Passage → List Text
  | .hint line | .rawHtml line _ | .comment line | .prose line => [line]
  | .literal first body last | .code first body last _ _ | .math _ first body last =>
    first :: body ++ [last]

/-- What the lines before say about the next line. -/
structure Context where
  /-- The number of the next line. -/
  line : Nat
  /-- The hint on the line before. -/
  hint : Option Hint
  /-- How many `codelisting` environments are open. -/
  listings : Nat

namespace Context

/-- The context of the first line. -/
def start : Context := ⟨1, none, 0⟩

/-- The context after `count` lines without a hint at their end. -/
def advance (c : Context) (count : Nat) : Context := { c with line := c.line + count, hint := none }

/-- The context after a line that may begin or end a `codelisting`. -/
def pass (c : Context) (line : Text) : Context :=
  let c := c.advance 1
  if begin? line = some "codelisting" then { c with listings := c.listings + 1 }
  else if end? line = some "codelisting" then { c with listings := c.listings - 1 }
  else c

end Context

/-- Reads a hint. -/
def readHint (c : Context) (line language options : Text) : Except Error (Passage × Context) :=
  match Highlight.Options.parse? options with
  | some o => .ok (.hint line, { c.advance 1 with hint := some ⟨language, o⟩ })
  | none => .error (.invalidOptions options c.line)

/-- Makes a passage of an environment with an opaque body. -/
def readBlock (c : Context) (category : Category) (name first : Text) (body : List Text) (last : Text) :
    Except Error Passage :=
  match category with
  | .literal => .ok (.literal first body last)
  | .math => .ok (.math name first body last)
  | .code =>
    let hint := c.hint.getD .default
    let available := (Text.lines (Text.unlines body)).length
    match hint.options.outOfRange? available with
    | some requested => .error (.lineOutOfRange requested available c.line)
    | none => .ok (.code first body last hint (0 < c.listings))

/-- Reads a line that is by itself: it must not end an environment with an opaque body. -/
def readLine (c : Context) (line : Text) : Except Error (Passage × Context) :=
  match (end? line).filter isCaptured with
  | some name => .error (.unbalanced name c.line)
  | none => .ok (if isComment line then .comment line else .prose line, c.pass line)

/-- The environment with an opaque body that a line begins. -/
def opened? (c : Context) (line : Text) : Option (Text × Category) := do
  let name ← begin? line
  let category ← category? name c.hint.isSome
  return (name, category)

/-- Reads the next passage: the passage, the context after it and the lines after it. -/
def next (c : Context) (line : Text) (rest : List Text) :
    Except Error (Passage × Context × List Text) :=
  match hint? line with
  | some (language, options) => (readHint c line language options).map fun (p, c) => (p, c, rest)
  | none =>
    match rawHtml? line with
    | some html => .ok (.rawHtml line html, c.advance 1, rest)
    | none =>
      match opened? c line with
      | some (name, category) =>
        match body? name 0 rest with
        | some (body, last, rest) =>
          (readBlock c category name line body last).map fun p => (p, c.advance (body.length + 2), rest)
        | none => .error (.unterminated name c.line)
      | none => (readLine c line).map fun (p, c) => (p, c, rest)

theorem lines_readHint {c c' : Context} {line language options : Text} {p : Passage}
    (h : readHint c line language options = .ok (p, c')) : p.lines = [line] := by
  unfold readHint at h
  split at h
  · obtain ⟨rfl, -⟩ := by simpa using h
    rfl
  · simp at h

theorem lines_readBlock {c : Context} {category : Category} {name first last : Text} {body : List Text}
    {p : Passage} (h : readBlock c category name first body last = .ok p) :
    p.lines = first :: body ++ [last] := by
  unfold readBlock at h
  split at h
  · obtain rfl := by simpa using h
    rfl
  · obtain rfl := by simpa using h
    rfl
  · simp only at h
    split at h
    · simp at h
    · obtain rfl := by simpa using h
      rfl

theorem lines_readLine {c c' : Context} {line : Text} {p : Passage}
    (h : readLine c line = .ok (p, c')) : p.lines = [line] := by
  unfold readLine at h
  split at h
  · simp at h
  · obtain ⟨rfl, -⟩ := by simpa using h
    split <;> rfl

theorem eq_append_of_next {c c' : Context} {line : Text} {rest rest' : List Text} {p : Passage}
    (h : next c line rest = .ok (p, c', rest')) : line :: rest = p.lines ++ rest' := by
  have ok_of_map : ∀ {α β : Type} {f : α → β} {x : Except Error α} {b : β},
      x.map f = .ok b → ∃ a, x = .ok a ∧ f a = b := by
    intro α β f x b hmap
    cases x with
    | error => simp [Except.map] at hmap
    | ok a => exact ⟨a, rfl, by simpa [Except.map] using hmap⟩
  unfold next at h
  split at h
  · obtain ⟨⟨p, c₁⟩, hread, heq⟩ := ok_of_map h
    obtain ⟨rfl, rfl, rfl⟩ := by simpa using heq
    simp [lines_readHint hread]
  · split at h
    · obtain ⟨rfl, rfl, rfl⟩ := by simpa using h
      rfl
    · split at h
      · split at h
        · rename_i hbody
          obtain ⟨p, hread, heq⟩ := ok_of_map h
          obtain ⟨rfl, rfl, rfl⟩ := by simpa using heq
          simp [lines_readBlock hread, eq_append_of_body? hbody]
        · simp at h
      · obtain ⟨⟨p, c₁⟩, hread, heq⟩ := ok_of_map h
        obtain ⟨rfl, rfl, rfl⟩ := by simpa using heq
        simp [lines_readLine hread]

theorem Passage.lines_ne_nil (p : Passage) : p.lines ≠ [] := by
  cases p <;> simp [lines]

theorem length_le_of_next {c c' : Context} {line : Text} {rest rest' : List Text} {p : Passage}
    (h : next c line rest = .ok (p, c', rest')) : rest'.length ≤ rest.length := by
  have hlength := congrArg List.length (eq_append_of_next h)
  have := List.length_pos_iff.mpr p.lines_ne_nil
  simp only [List.length_cons, List.length_append] at hlength
  omega

/-- The passages of some lines, as far as they can be read, and the error that ends them. -/
def passages (c : Context) : List Text → List Passage × Option Error
  | [] => ([], none)
  | line :: rest =>
    match h : next c line rest with
    | .error e => ([], some e)
    | .ok (p, c, rest) =>
      have := length_le_of_next h
      let (ps, e) := passages c rest
      (p :: ps, e)
termination_by lines => lines.length

end Manuscript.Source
