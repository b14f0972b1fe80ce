import Mathlib.Data.List.Basic
import Manuscript.Source.Passage

/-!
How a manuscript is read, one passage after the other.

Main statements: `next` by its cases (`reads_next`), and the lines of the passages are the lines that were read
(`flatMap_lines_passages`).
-/

namespace Manuscript.Source

theorem hint?_eq_none {line : Text} (h : Text.startsWith "%=" (Text.trimStart line) = false) :
    hint? line = none := by
  simp only [Text.startsWith, Option.isSome_eq_false_iff, Option.isNone_iff_eq_none] at h
  unfold hint?
  rw [h]
  rfl

theorem rawHtml?_eq_none {line : Text} (h : Text.startsWith "%=" (Text.trimStart line) = false) :
    rawHtml? line = none := by
  simp only [Text.startsWith, Option.isSome_eq_false_iff, Option.isNone_iff_eq_none] at h
  unfold rawHtml?
  rw [h]
  rfl

theorem Context.hint_pass (c : Context) (line : Text) : (c.pass line).hint = none := by
  simp only [pass]
  split
  · rfl
  · split <;> rfl

theorem Context.line_pass (c : Context) (line : Text) : (c.pass line).line = c.line + 1 := by
  simp only [pass]
  split
  · rfl
  · split <;> rfl

/-- What the next lines are read as. -/
inductive Reads (c : Context) (line : Text) (rest : List Text) :
    Except Error (Passage × Context × List Text) → Prop
  | hint {language options : Text} {o : Highlight.Options} (hhint : hint? line = some (language, options))
      (hoptions : Highlight.Options.parse? options = some o) :
      Reads c line rest (.ok (.hint line, { c.advance 1 with hint := some ⟨language, o⟩ }, rest))
  | invalidOptions {language options : Text} (hhint : hint? line = some (language, options))
      (hoptions : Highlight.Options.parse? options = none) :
      Reads c line rest (.error (.invalidOptions options c.line))
  | rawHtml {html : Text} (hhint : hint? line = none) (hhtml : rawHtml? line = some html) :
      Reads c line rest (.ok (.rawHtml line html, c.advance 1, rest))
  | block {name last : Text} {category : Category} {body after : List Text} {p : Passage}
      (hhint : hint? line = none) (hhtml : rawHtml? line = none) (hopened : opened? c line = some (name, category))
      (hbody : body? name 0 rest = some (body, last, after))
      (hread : readBlock c category name line body last = .ok p) :
      Reads c line rest (.ok (p, c.advance (body.length + 2), after))
  | invalidBlock {name last : Text} {category : Category} {body after : List Text} {e : Error}
      (hhint : hint? line = none) (hhtml : rawHtml? line = none) (hopened : opened? c line = some (name, category))
      (hbody : body? name 0 rest = some (body, last, after))
      (hread : readBlock c category name line body last = .error e) : Reads c line rest (.error e)
  | unterminated {name : Text} {category : Category}
      (hhint : hint? line = none) (hhtml : rawHtml? line = none) (hopened : opened? c line = some (name, category))
      (hbody : body? name 0 rest = none) : Reads c line rest (.error (.unterminated name c.line))
  | line (hhint : hint? line = none) (hhtml : rawHtml? line = none) (hopened : opened? c line = none)
      (hended : (end? line).filter isCaptured = none) :
      Reads c line rest (.ok (if isComment line then .comment line else .prose line, c.pass line, rest))
  | unbalanced {name : Text} (hhint : hint? line = none) (hhtml : rawHtml? line = none)
      (hopened : opened? c line = none) (hended : (end? line).filter isCaptured = some name) :
      Reads c line rest (.error (.unbalanced name c.line))

theorem reads_next (c : Context) (line : Text) (rest : List Text) : Reads c line rest (next c line rest) := by
  unfold next
  split
  · rename_i language options hhint
    unfold readHint
    split
    · rename_i hoptions
      exact .hint hhint hoptions
    · rename_i hoptions
      exact .invalidOptions hhint hoptions
  · rename_i hhint
    split
    · rename_i hhtml
      exact .rawHtml hhint hhtml
    · rename_i hhtml
      split
      · rename_i name category hopened
        split
        · rename_i body last after hbody
          cases hread : readBlock c category name line body last with
          | error e => exact .invalidBlock hhint hhtml hopened hbody hread
          | ok p => exact .block hhint hhtml hopened hbody hread
        · rename_i hbody
          exact .unterminated hhint hhtml hopened hbody
      · rename_i hopened
        unfold readLine
        split
        · rename_i hended
          exact .unbalanced hhint hhtml hopened hended
        · rename_i hended
          exact .line hhint hhtml hopened hended

theorem reads_of_next {c : Context} {line : Text} {rest : List Text}
    {r : Except Error (Passage × Context × List Text)} (h : next c line rest = r) : Reads c line rest r :=
  h ▸ reads_next c line rest

theorem passages_cons_ok {c c' : Context} {line : Text} {rest rest' : List Text} {p : Passage}
    (h : next c line rest = .ok (p, c', rest')) :
    passages c (line :: rest) = (p :: (passages c' rest').1, (passages c' rest').2) := by
  rw [passages]
  split
  · rename_i hnext
    rw [h] at hnext
    cases hnext
  · rename_i hnext
    rw [h] at hnext
    cases hnext
    rfl

theorem passages_cons_error {c : Context} {line : Text} {rest : List Text} {e : Error}
    (h : next c line rest = .error e) : passages c (line :: rest) = ([], some e) := by
  rw [passages]
  split
  · rename_i hnext
    rw [h] at hnext
    cases hnext
    rfl
  · rename_i hnext
    rw [h] at hnext
    cases hnext

/-- The passages of some lines, by what is read first. -/
theorem passages_induction {motive : Context → List Text → Prop} (nil : ∀ c, motive c [])
    (error : ∀ c line rest e, next c line rest = .error e → motive c (line :: rest))
    (ok : ∀ c line rest p c' rest', next c line rest = .ok (p, c', rest') → motive c' rest' →
      motive c (line :: rest)) (c : Context) (lines : List Text) : motive c lines := by
  induction h : lines.length using Nat.strongRecOn generalizing c lines with
  | ind n ih =>
      cases lines with
      | nil => exact nil c
      | cons line rest =>
          cases hnext : next c line rest with
          | error e => exact error c line rest e hnext
          | ok read =>
              obtain ⟨p, c', rest'⟩ := read
              have hlength := length_le_of_next hnext
              rw [List.length_cons] at h
              exact ok c line rest p c' rest' hnext (ih rest'.length (by omega) c' rest' rfl)

/-- The lines of the passages are the lines that were read. -/
theorem flatMap_lines_passages {c : Context} {lines : List Text} (h : (passages c lines).2 = none) :
    (passages c lines).1.flatMap Passage.lines = lines := by
  induction c, lines using passages_induction with
  | nil c => simp [passages]
  | error c line rest e hnext => simp [passages_cons_error hnext] at h
  | ok c line rest p c' rest' hnext ih =>
      rw [passages_cons_ok hnext] at h ⊢
      rw [List.flatMap_cons, ih h, ← eq_append_of_next hnext]

end Manuscript.Source
