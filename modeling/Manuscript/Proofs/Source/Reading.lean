import Manuscript.Proofs.Source.Balance

/-!
Passages as they are read from the front, whatever lines follow.  What has been read acts on the lines after it
through the context that it leaves, and through the number of the next line only if there is an error.

Main statements: reading goes on after what has been read (`passages_append`, `exists_readOff`), and passages do not
depend on the number of the first line (`passages_relocate`).
-/

namespace Manuscript.Source

/-- From context `c` the lines of the passages are read as these passages, whatever follows them, and context `c'` is
left. -/
inductive ReadOff : (c : Context) → List Passage → (c' : Context) → Prop
  | nil (c : Context) : ReadOff c [] c
  | cons {c c₁ c₂ : Context} {p : Passage} {ps : List Passage} {line : Text} {tail : List Text}
      (hlines : p.lines = line :: tail) (hnext : ∀ rest, next c line (tail ++ rest) = .ok (p, c₁, rest))
      (hps : ReadOff c₁ ps c₂) : ReadOff c (p :: ps) c₂

/-- What is read next does not depend on the lines after it. -/
theorem next_of_next {c c' : Context} {line : Text} {rest rest' : List Text} {p : Passage}
    (h : next c line rest = .ok (p, c', rest')) :
    ∃ tail, p.lines = line :: tail ∧ ∀ more, next c line (tail ++ more) = .ok (p, c', more) := by
  cases reads_of_next h with
  | hint hhint hoptions =>
      refine ⟨[], rfl, fun more => ?_⟩
      simp only [next, hhint, readHint, hoptions, Except.map, List.nil_append]
  | rawHtml hhint hhtml =>
      refine ⟨[], rfl, fun more => ?_⟩
      simp only [next, hhint, hhtml, List.nil_append]
  | @block name last category body after _ hhint hhtml hopened hbody hread =>
      obtain ⟨-, hbalanced, hend⟩ := body?_eq_some_iff.mp hbody
      refine ⟨body ++ [last], lines_readBlock hread, fun more => ?_⟩
      have hbody' := body?_append hbalanced hend more
      simp only [next, hhint, hhtml, hopened, List.append_assoc, List.singleton_append, hbody', hread, Except.map]
  | line hhint hhtml hopened hended =>
      refine ⟨[], ?_, fun more => ?_⟩
      · split <;> rfl
      · simp only [next, hhint, hhtml, hopened, readLine, hended, Except.map, List.nil_append]

/-- A hint is read off one line, and is kept for the next. -/
theorem of_next_hint {c c' : Context} {line line' : Text} {rest rest' : List Text}
    (h : next c line rest = .ok (.hint line', c', rest')) :
    ∃ language options o, hint? line = some (language, options) ∧ Highlight.Options.parse? options = some o ∧
      c' = { c.advance 1 with hint := some ⟨language, o⟩ } ∧ rest' = rest := by
  generalize hread : (Except.ok (Passage.hint line', c', rest') : Except Error (Passage × Context × List Text)) = r at h
  cases reads_of_next h with
  | @hint language options o hhint hoptions =>
      obtain ⟨rfl, rfl, rfl⟩ := by simpa using hread
      exact ⟨language, options, o, hhint, hoptions, rfl, rfl⟩
  | @block _ _ category _ _ _ _ _ _ _ hblock =>
      obtain ⟨rfl, -⟩ := by simpa using hread
      have hlines := lines_readBlock hblock
      simp [Passage.lines] at hlines
  | line =>
      obtain ⟨hp, -⟩ := by simpa using hread
      split at hp <;> cases hp
  | _ => cases hread

/-- A passage of several lines is an environment with a balanced body. -/
theorem block_of_next {c c' : Context} {line : Text} {rest rest' : List Text} {p : Passage}
    (h : next c line rest = .ok (p, c', rest')) (hlong : 1 < p.lines.length) :
    ∃ name last category body, hint? line = none ∧ rawHtml? line = none ∧ opened? c line = some (name, category) ∧
      rest = body ++ last :: rest' ∧ Balanced name body ∧ end? last = some name ∧
      readBlock c category name line body last = .ok p ∧ c' = c.advance (body.length + 2) := by
  cases reads_of_next h with
  | @block name last category body after _ hhint hhtml hopened hbody hblock =>
      obtain ⟨hrest, hbalanced, hend⟩ := body?_eq_some_iff.mp hbody
      exact ⟨name, last, category, body, hhint, hhtml, hopened, hrest, hbalanced, hend, hblock, rfl⟩
  | hint | rawHtml => exact absurd hlong (Nat.lt_irrefl 1)
  | line => split at hlong <;> exact absurd hlong (Nat.lt_irrefl 1)

/-- A code block takes the hint before it. -/
theorem of_next_code {c c' : Context} {line first last : Text} {rest rest' body : List Text} {hint : Hint}
    {isInListing : Bool} (h : next c line rest = .ok (.code first body last hint isInListing, c', rest')) :
    ∃ name, begin? line = some name ∧ Balanced name body ∧ hint = c.hint.getD .default := by
  rcases block_of_next h (by simp [Passage.lines]) with
    ⟨name, last', category, body', -, -, hopened, -, hbalanced, -, hblock, -⟩
  cases category with
  | literal | math => cases hblock
  | code =>
      simp only [readBlock] at hblock
      split at hblock
      · cases hblock
      · obtain ⟨rfl, rfl, rfl, rfl, -⟩ := by simpa using hblock
        exact ⟨name, (of_opened?_eq_some hopened).1, hbalanced, rfl⟩

/-- After passages that have been read, reading goes on in the context that they leave. -/
theorem passages_append {c c' : Context} {ps : List Passage} (h : ReadOff c ps c') (rest : List Text) :
    passages c (ps.flatMap Passage.lines ++ rest) = (ps ++ (passages c' rest).1, (passages c' rest).2) := by
  induction h with
  | nil c => rfl
  | @cons c c₁ c₂ p ps line tail hlines hnext hps ih =>
      have hstep := hnext (ps.flatMap Passage.lines ++ rest)
      rw [List.flatMap_cons, hlines, List.cons_append, List.cons_append, List.append_assoc, passages_cons_ok hstep, ih]
      rfl

/-- The first passages of some lines have been read, and the others are read from the lines after them. -/
theorem exists_readOff {c : Context} {lines : List Text} {ps more : List Passage}
    (h : (passages c lines).1 = ps ++ more) :
    ∃ c' rest, ReadOff c ps c' ∧ lines = ps.flatMap Passage.lines ++ rest ∧
      passages c' rest = (more, (passages c lines).2) := by
  induction c, lines using passages_induction generalizing ps with
  | nil c =>
      obtain ⟨rfl, rfl⟩ : ps = [] ∧ more = [] := by simpa [passages] using h.symm
      exact ⟨c, [], .nil c, rfl, by simp [passages]⟩
  | error c line rest e hnext =>
      obtain ⟨rfl, rfl⟩ : ps = [] ∧ more = [] := by simpa [passages_cons_error hnext] using h.symm
      exact ⟨c, line :: rest, .nil c, rfl, by simp [passages_cons_error hnext]⟩
  | ok c line rest p c₁ rest₁ hnext ih =>
      cases ps with
      | nil => exact ⟨c, line :: rest, .nil c, rfl, Prod.ext h rfl⟩
      | cons q ps =>
          rw [passages_cons_ok hnext] at h
          obtain ⟨rfl, hlater⟩ := List.cons.inj h
          obtain ⟨tail, hlines, hmore⟩ := next_of_next hnext
          rcases ih hlater with ⟨c', rest', hps, rfl, hrest⟩
          refine ⟨c', rest', .cons hlines hmore hps, ?_, ?_⟩
          · rw [eq_append_of_next hnext, List.flatMap_cons, List.append_assoc]
          · rw [hrest, passages_cons_ok hnext]

/-- The first passage of some lines is read next. -/
theorem next_of_passages_eq_cons {c : Context} {line : Text} {rest : List Text} {p : Passage} {ps : List Passage}
    (h : (passages c (line :: rest)).1 = p :: ps) :
    ∃ c' rest', next c line rest = .ok (p, c', rest') ∧ passages c' rest' = (ps, (passages c (line :: rest)).2) := by
  cases hnext : next c line rest with
  | error e => simp [passages_cons_error hnext] at h
  | ok read =>
      obtain ⟨q, c', rest'⟩ := read
      rw [passages_cons_ok hnext] at h ⊢
      obtain ⟨rfl, rfl⟩ := List.cons.inj h
      exact ⟨c', rest', rfl, rfl⟩

/-- A passage among others is read next after those before it. -/
theorem exists_next {c : Context} {lines : List Text} {ps more : List Passage} {p : Passage}
    (h : (passages c lines).1 = ps ++ p :: more) :
    ∃ c₁ line rest c₂ rest', ReadOff c ps c₁ ∧ next c₁ line rest = .ok (p, c₂, rest') ∧
      passages c₂ rest' = (more, (passages c lines).2) := by
  rcases exists_readOff h with ⟨c₁, remaining, hps, -, hremaining⟩
  cases remaining with
  | nil => simp [passages] at hremaining
  | cons line rest =>
      obtain ⟨c₂, rest', hnext, hlater⟩ := next_of_passages_eq_cons (congrArg Prod.fst hremaining)
      rw [hremaining] at hlater
      exact ⟨c₁, line, rest, c₂, rest', hps, hnext, hlater⟩

theorem Context.pass_relocate (c : Context) (line : Text) (n : Nat) :
    Context.pass { c with line := n } line = { c.pass line with line := n + 1 } := by
  simp only [pass]
  split
  · rfl
  · split <;> rfl

/-- What is read next does not depend on the number of the line. -/
theorem next_relocate {c c' : Context} {line : Text} {rest rest' : List Text} {p : Passage}
    (h : next c line rest = .ok (p, c', rest')) (n : Nat) :
    ∃ n', next { c with line := n } line rest = .ok (p, { c' with line := n' }, rest') := by
  cases reads_of_next h with
  | hint hhint hoptions =>
      refine ⟨n + 1, ?_⟩
      simp only [next, hhint, readHint, hoptions, Except.map, Context.advance]
  | rawHtml hhint hhtml =>
      refine ⟨n + 1, ?_⟩
      simp only [next, hhint, hhtml, Context.advance]
  | @block name last category body after _ hhint hhtml hopened hbody hread =>
      refine ⟨n + (body.length + 2), ?_⟩
      have hread' : readBlock { c with line := n } category name line body last = .ok p := by
        cases category with
        | literal | math => exact hread
        | code =>
            simp only [readBlock] at hread ⊢
            split at hread
            · cases hread
            · exact hread
      have hopened' : opened? { c with line := n } line = some (name, category) := hopened
      simp only [next, hhint, hhtml, hopened', hbody, hread', Except.map, Context.advance]
  | line hhint hhtml hopened hended =>
      refine ⟨n + 1, ?_⟩
      have hopened' : opened? { c with line := n } line = none := hopened
      simp only [next, hhint, hhtml, hopened', readLine, hended, Except.map, Context.pass_relocate]

/-- Passages do not depend on the number of the first line. -/
theorem passages_relocate {c : Context} {lines : List Text} (h : (passages c lines).2 = none) (n : Nat) :
    passages { c with line := n } lines = passages c lines := by
  induction c, lines using passages_induction generalizing n with
  | nil c => simp [passages]
  | error c line rest e hnext =>
      rw [passages_cons_error hnext] at h
      cases h
  | ok c line rest p c' rest' hnext ih =>
      obtain ⟨n', hnext'⟩ := next_relocate hnext n
      rw [passages_cons_ok hnext] at h
      rw [passages_cons_ok hnext, passages_cons_ok hnext', ih h n']

end Manuscript.Source
