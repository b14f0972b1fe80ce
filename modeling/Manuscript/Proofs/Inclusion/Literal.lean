import Manuscript.Proofs.Inclusion.Additions
import Manuscript.Proofs.Source.Read

/-!
Which directives are left alone.  The inclusions look for literal environments in every line, and the scan looks for none in
the bodies of mathematical environments.

Main statement: as long as no literal environment seems to begin in mathematics, the directives that are left alone are
those in the literal bodies of the scan (`isTreated_of_tokenize`).
-/

namespace Manuscript

namespace Inclusion

open Source

section OpenAfter

variable {o : OpenLiteral} {name line : Text} {inner : Nat}

theorem openAfter_append (o : OpenLiteral) (lines more : List Text) :
    openAfter o (lines ++ more) = openAfter (openAfter o lines) more := by
  induction lines generalizing o with
  | nil => cases o <;> rfl
  | cons line lines ih => rcases o with _ | ⟨name, inner⟩ <;> exact ih _

theorem openAfter_cons (o : OpenLiteral) (line : Text) (lines : List Text) :
    openAfter o (line :: lines) = openAfter (openAfter o [line]) lines :=
  openAfter_append o [line] lines

/-- A line that is no marker changes nothing. -/
theorem openAfter_of_unmarked (o : OpenLiteral) (hbegin : begin? line = none) (hend : end? line = none) :
    openAfter o [line] = o := by
  rcases o with _ | ⟨name, inner⟩
  · simp [openAfter, hbegin]
  · simp [openAfter, afterLiteralLine, hbegin, hend]

/-- A line that begins no literal environment opens none. -/
theorem openAfter_none_of_begin? (h : ∀ name ∈ literalEnvironments, begin? line ≠ some name) :
    openAfter none [line] = none := by
  have hnone : (begin? line).filter (· ∈ literalEnvironments) = none := by
    rw [Option.filter_eq_none_iff]
    intro name hname hliteral
    exact h name (of_decide_eq_true hliteral) hname
  rw [openAfter, hnone]
  rfl

theorem openAfter_none_of_forall {lines : List Text}
    (h : ∀ line ∈ lines, ∀ name ∈ literalEnvironments, begin? line ≠ some name) : openAfter none lines = none := by
  induction lines with
  | nil => rfl
  | cons line lines ih =>
      obtain ⟨hline, hlines⟩ := List.forall_mem_cons.mp h
      rw [openAfter_cons, openAfter_none_of_begin? hline, ih hlines]

theorem openAfter_begin (hname : name ∈ literalEnvironments) (hbegin : begin? line = some name) :
    openAfter none [line] = some (name, 0) := by
  have hsome : (begin? line).filter (· ∈ literalEnvironments) = some name := by
    rw [hbegin]
    exact Option.filter_eq_some_iff.mpr ⟨rfl, decide_eq_true hname⟩
  rw [openAfter, hsome]
  rfl

/-- What is open is a literal environment. -/
theorem mem_literalEnvironments_of_openAfter {lines : List Text} {opened : Text × Nat}
    (h : openAfter o lines = some opened) (ho : ∀ opened, o = some opened → opened.1 ∈ literalEnvironments) :
    opened.1 ∈ literalEnvironments := by
  induction lines generalizing o with
  | nil =>
      refine ho opened ?_
      cases o <;> exact h
  | cons line lines ih =>
      rw [openAfter_cons] at h
      refine ih h fun next hnext => ?_
      rcases o with _ | ⟨name, inner⟩
      · obtain ⟨found, hfound, rfl⟩ := Option.map_eq_some_iff.mp hnext
        exact of_decide_eq_true (Option.filter_eq_some_iff.mp hfound).2
      · have hname := ho (name, inner) rfl
        simp only [openAfter, afterLiteralLine] at hnext
        split at hnext
        · cases hnext
          exact hname
        · split at hnext
          · cases inner <;> cases hnext
            exact hname
          · cases hnext
            exact hname

/-- In lines that close what was open, the environment is open to their end. -/
theorem openAfter_of_closes {lines more : List Text} (h : Closes name inner (lines ++ more)) :
    ∃ inner', openAfter (some (name, inner)) lines = some (name, inner') ∧ Closes name inner' more := by
  induction lines generalizing inner with
  | nil => exact ⟨inner, rfl, h⟩
  | cons line lines ih =>
      rw [List.cons_append] at h
      by_cases hbegin : begin? line = some name
      · rw [closes_cons_begin hbegin] at h
        simpa [openAfter, afterLiteralLine, hbegin] using ih h
      · by_cases hend : end? line = some name
        · cases inner with
          | zero => exact absurd h (not_closes_zero_cons_end hbegin hend)
          | succ inner =>
              rw [closes_cons_end hbegin hend] at h
              simpa [openAfter, afterLiteralLine, hbegin, hend] using ih h
        · rw [closes_cons_of_ne hbegin hend] at h
          simpa [openAfter, afterLiteralLine, hbegin, hend] using ih h

/-- An end marker opens nothing, and closes no environment of another name. -/
theorem openAfter_end_of_ne (ho : ∀ opened, o = some opened → opened.1 ≠ name) (hend : end? line = some name) :
    openAfter o [line] = o := by
  have hbegin : ∀ other, begin? line ≠ some other := by
    intro other hbegin
    rw [end?_eq_none_of_begin? hbegin] at hend
    cases hend
  rcases o with _ | ⟨other, inner⟩
  · exact openAfter_none_of_begin? fun other _ => hbegin other
  · have hne : end? line ≠ some other := by
      intro heq
      rw [hend] at heq
      exact ho (other, inner) rfl (Option.some.inj heq).symm
    simp [openAfter, afterLiteralLine, hbegin other, hne]

section Block

variable {first last : Text} {body : List Text} (hblock : (Segment.block name first body last).Valid)

include hblock

/-- A literal environment is open from its first line to its last. -/
theorem openAfter_literal (hname : name ∈ literalEnvironments) : openAfter none (first :: body ++ [last]) = none ∧
    ∀ lines more, body = lines ++ more → openAfter none (first :: lines) ≠ none := by
  obtain ⟨-, hfirst, hbalanced, hlast⟩ := hblock
  have hopen : ∀ lines more, body = lines ++ more →
      ∃ inner, openAfter none (first :: lines) = some (name, inner) ∧ Closes name inner more := by
    rintro lines more rfl
    rw [openAfter_cons, openAfter_begin hname hfirst]
    exact openAfter_of_closes hbalanced
  refine ⟨?_, fun lines more hbody => ?_⟩
  · obtain ⟨inner, hinner, hclosed⟩ := hopen body [] (List.append_nil body).symm
    obtain rfl := closes_nil_iff.mp hclosed
    have hbegin : begin? last ≠ some name := by
      intro hbegin
      rw [end?_eq_none_of_begin? hbegin] at hlast
      cases hlast
    rw [openAfter_append, hinner]
    simp [openAfter, afterLiteralLine, hbegin, hlast]
  · obtain ⟨inner, hinner, -⟩ := hopen lines more hbody
    rw [hinner]
    exact Option.some_ne_none _

/-- The markers of a mathematical environment are overlooked. -/
theorem openAfter_math (hname : name ∈ mathEnvironments) :
    openAfter none (first :: body ++ [last]) = openAfter none body := by
  have hdisjoint : ∀ literal ∈ literalEnvironments, literal ∉ mathEnvironments := by decide +kernel
  obtain ⟨-, hfirst, -, hlast⟩ := hblock
  have hnone : openAfter none [first] = none := by
    refine openAfter_none_of_begin? fun literal hliteral hbegin => ?_
    rw [hfirst] at hbegin
    obtain rfl := Option.some.inj hbegin
    exact hdisjoint name hliteral hname
  rw [openAfter_append, openAfter_cons none first, hnone]
  refine openAfter_end_of_ne (fun opened hopen => ?_) hlast
  rintro rfl
  exact hdisjoint _ (mem_literalEnvironments_of_openAfter hopen nofun) hname

end Block

end OpenAfter

end Inclusion

namespace Source.Passage

open Inclusion

/-- The body of a literal environment or a code block. -/
def literalBody? : Passage → Option (List Text)
  | .literal _ body _ | .code _ body _ _ _ => some body
  | .hint _ | .rawHtml _ _ | .math _ _ _ _ | .comment _ | .prose _ => none

/-- The body of a mathematical environment. -/
def mathBody? : Passage → Option (List Text)
  | .math _ _ body _ => some body
  | .hint _ | .rawHtml _ _ | .literal _ _ _ | .code _ _ _ _ _ | .comment _ | .prose _ => none

/-- The line that stands after the lines `within` of the passage is in the body of a literal environment or a code block. -/
def Captures (p : Passage) (within : List Text) : Prop :=
  ∃ body, p.literalBody? = some body ∧ 0 < within.length ∧ within.length ≤ body.length

/-- A literal environment seems to begin in the mathematics before the line that stands after the lines `within`. -/
def Hides (p : Passage) (within : List Text) : Prop := p.mathBody?.isSome ∧ openAfter none within ≠ none

/-- A literal environment seems to begin in mathematics and to be open after it. -/
def LeavesOpen (p : Passage) : Prop := ∃ body, p.mathBody? = some body ∧ openAfter none body ≠ none

/-- A literal environment seems to begin in mathematics. -/
def HoldsMarker (p : Passage) : Prop :=
  ∃ body, p.mathBody? = some body ∧ ∃ line ∈ body, ∃ name ∈ literalEnvironments, begin? line = some name

variable {p : Passage}

/-- No passage but mathematics leaves a literal environment open. -/
theorem IsRead.openAfter_lines (h : p.IsRead) : openAfter none p.lines = openAfter none (p.mathBody?.getD []) := by
  have hannotation : ∀ {line : Text}, Text.startsWith "%=" (Text.trimStart line) = true →
      openAfter none [line] = none := by
    intro line hline
    obtain ⟨hbegin, hend⟩ := begin?_eq_none_of_annotation hline
    exact openAfter_of_unmarked none hbegin hend
  have hordinary : ∀ {line : Text}, IsOrdinary line → openAfter none [line] = none := fun hline =>
    openAfter_none_of_begin? fun name hname => (hline.valid name (isCaptured_iff.mpr (.inl hname))).1
  cases h with
  | hint hhint =>
      obtain ⟨hint, hhint⟩ := Option.isSome_iff_exists.mp hhint
      exact hannotation (startsWith_of_hint? hhint)
  | rawHtml _ hhtml => exact hannotation (startsWith_of_rawHtml? hhtml)
  | comment hline | prose hline => exact hordinary hline
  | literal hname hblock =>
      refine (openAfter_literal hblock ?_).1
      rcases hname with rfl | rfl <;> decide
  | code hname hblock => exact (openAfter_literal hblock hname).1
  | math hname hblock => exact openAfter_math hblock hname

/-- As long as no literal environment is open before a passage, one seems open before an unmarked line in it only if the
passage captures the line or hides it. -/
theorem IsRead.openAfter_ne_none_iff (h : p.IsRead) {within more : List Text} {line : Text}
    (hlines : p.lines = within ++ line :: more) (hbegin : begin? line = none) (hend : end? line = none) :
    (openAfter none within ≠ none ↔ p.Captures within ∨ p.Hides within) ∧ ¬(p.Captures within ∧ p.Hides within) := by
  have hsingle : ∀ {line'}, [line'] = within ++ line :: more → within = [] := by
    intro line' hlines
    cases within with
    | nil => rfl
    | cons first within => cases within <;> cases hlines
  -- The line is neither of the markers of the block.
  have hinside : ∀ {name first last : Text} {body : List Text}, (Segment.block name first body last).Valid →
      first :: body ++ [last] = within ++ line :: more →
        ∃ lines others, within = first :: lines ∧ body = lines ++ others ∧ others ≠ [] := by
    rintro name first last body ⟨-, hfirst, -, hlast⟩ hlines
    cases within with
    | nil =>
        obtain ⟨rfl, -⟩ := List.cons.inj hlines
        rw [hfirst] at hbegin
        cases hbegin
    | cons first' lines =>
        obtain ⟨rfl, htail⟩ := List.cons.inj hlines
        have hbody : body ++ [last] = lines ++ line :: more := htail
        obtain rfl | ⟨others, final, rfl⟩ := List.eq_nil_or_concat' more
        · obtain ⟨-, hfinal⟩ := List.append_inj' hbody rfl
          obtain rfl := List.singleton_inj.mp hfinal
          rw [hlast] at hend
          cases hend
        · rw [← List.cons_append, ← List.append_assoc] at hbody
          obtain ⟨rfl, -⟩ := List.append_inj' hbody rfl
          exact ⟨lines, line :: others, rfl, rfl, List.cons_ne_nil _ _⟩
  have hliteral : ∀ {name first last : Text} {body : List Text}, name ∈ literalEnvironments →
      (Segment.block name first body last).Valid → first :: body ++ [last] = within ++ line :: more →
        openAfter none within ≠ none ∧ 0 < within.length ∧ within.length ≤ body.length := by
    intro name first last body hname hblock hlines
    obtain ⟨lines, others, rfl, rfl, hothers⟩ := hinside hblock hlines
    have hlength := List.length_pos_iff.mpr hothers
    refine ⟨(openAfter_literal hblock hname).2 lines others rfl, Nat.succ_pos _, ?_⟩
    rw [List.length_cons, List.length_append]
    omega
  cases h with
  | hint | rawHtml | comment | prose =>
      obtain rfl := hsingle hlines
      simp [Captures, Hides, literalBody?, mathBody?, openAfter]
  | @literal name _ _ _ hname hblock =>
      have hmem : name ∈ literalEnvironments := by rcases hname with rfl | rfl <;> decide
      obtain ⟨hopen, hlength⟩ := hliteral hmem hblock hlines
      exact ⟨iff_of_true hopen (.inl ⟨_, rfl, hlength⟩), fun h => Bool.false_ne_true h.2.1⟩
  | code hname hblock =>
      obtain ⟨hopen, hlength⟩ := hliteral hname hblock hlines
      exact ⟨iff_of_true hopen (.inl ⟨_, rfl, hlength⟩), fun h => Bool.false_ne_true h.2.1⟩
  | math =>
      have hnone : ∀ {name first last : Text} {body : List Text}, ¬(Passage.math name first body last).Captures within := by
        rintro name first last body ⟨body', hbody, -⟩
        cases hbody
      exact ⟨⟨fun hopen => .inr ⟨rfl, hopen⟩, fun h => (h.resolve_left hnone).2⟩, fun h => hnone h.1⟩

theorem not_leavesOpen_of_not_holdsMarker (h : ¬p.HoldsMarker) : ¬p.LeavesOpen := by
  rintro ⟨body, hbody, hopen⟩
  refine hopen (openAfter_none_of_forall fun line hline name hname hbegin => ?_)
  exact h ⟨body, hbody, line, hline, name, hname, hbegin⟩

theorem IsRead.not_hides_of_not_holdsMarker (hread : p.IsRead) (h : ¬p.HoldsMarker) {within more : List Text}
    (hlines : p.lines = within ++ more) : ¬p.Hides within := by
  rintro ⟨hmath, hopen⟩
  cases hread with
  | math hname hblock =>
      have hdisjoint : ∀ literal ∈ literalEnvironments, literal ∉ mathEnvironments := by decide +kernel
      obtain ⟨-, hfirst, -, hlast⟩ := hblock
      refine hopen (openAfter_none_of_forall fun line hline literal hliteral hbegin => ?_)
      have hmem := hlines ▸ List.mem_append_left more hline
      rcases List.mem_append.mp hmem with hmem | hmem
      · rcases List.mem_cons.mp hmem with rfl | hmem
        · rw [hfirst] at hbegin
          obtain rfl := Option.some.inj hbegin
          exact hdisjoint _ hliteral hname
        · exact h ⟨_, rfl, line, hmem, literal, hliteral, hbegin⟩
      · obtain rfl := List.mem_singleton.mp hmem
        rw [end?_eq_none_of_begin? hbegin] at hlast
        cases hlast
  | _ => cases hmath

end Source.Passage

namespace Inclusion

open Source

section Treated

variable {provider : Provider} {source : Text} {before after : List Passage} {p : Passage}
  {within more : List Text} {line : Text}

/-- Where no passage leaves a literal environment open, none is open after the passages. -/
theorem openAfter_flatMap_lines {ps : List Passage} (hread : ∀ p ∈ ps, p.IsRead) (h : ∀ p ∈ ps, ¬p.LeavesOpen) :
    openAfter none (ps.flatMap Passage.lines) = none := by
  induction ps with
  | nil => rfl
  | cons p ps ih =>
      obtain ⟨hfirst, hothers⟩ := List.forall_mem_cons.mp h
      have hbody : openAfter none (p.mathBody?.getD []) = none := by
        cases hbody : p.mathBody? with
        | none => rfl
        | some body =>
            by_contra hopen
            exact hfirst ⟨body, hbody, hopen⟩
      rw [List.flatMap_cons, openAfter_append, (hread p List.mem_cons_self).openAfter_lines, hbody]
      exact ih (fun q hq => hread q (List.mem_cons_of_mem p hq)) hothers

/-- What becomes of a line that stands after some passages and the lines `within` of the next one. -/
def treated (provider : Provider) (before : List Passage) (within : List Text) (line : Text) : List Text :=
  becomes provider (openAfter none (before.flatMap Passage.lines ++ within)) [line]

/-- How the inclusions treat a line with a directive: the one after the lines `within` of the passage `p`. -/
structure IsTreated (provider : Provider) (source : Text) (before : List Passage) (p : Passage) (after : List Passage)
    (within : List Text) (line : Text) (more : List Text) : Prop where
  /-- The lines around it become what they become without it. -/
  expand_eq : (expand provider source).1 =
    Text.unlines (becomes provider none (before.flatMap Passage.lines ++ within) ++ treated provider before within line ++
      becomes provider (openAfter none (before.flatMap Passage.lines ++ within)) (more ++ after.flatMap Passage.lines))
  /-- A directive that is not left alone gives way to the lines that it includes, or to the line of a failure. -/
  replaced : treated provider before within line ≠ [line] →
    (∃ d lines, directive? line = some (.ok d) ∧ resolve provider d = .ok lines ∧
      treated provider before within line = codeBlock d lines) ∨
    ∃ failure, treated provider before within line = [failureLine failure]
  /-- While no passage leaves a literal environment open, the directives that are left alone are those that the scan
  captures, and those that mathematics hides. -/
  captured : (∀ q ∈ before, ¬q.LeavesOpen) →
    (treated provider before within line = [line] ↔
      p.Captures within ∨ p.Hides within) ∧ ¬(p.Captures within ∧ p.Hides within)
  /-- From the first passage on that leaves a literal environment open, the directives that are left alone are those before
  the lines that seem to end it, wherever they stand. -/
  overlooked : ∀ calm q later, before = calm ++ q :: later → (∀ r ∈ calm, ¬r.LeavesOpen) → q.LeavesOpen →
    (treated provider before within line = [line] ↔
      openAfter (openAfter none (q.mathBody?.getD [])) (later.flatMap Passage.lines ++ within) ≠ none)

theorem becomes_singleton_eq_self_iff (provider : Provider) {o : OpenLiteral} (hdirective : (directive? line).isSome) :
    becomes provider o [line] = [line] ↔ o ≠ none := by
  constructor
  · rintro hstays rfl
    obtain ⟨hnone, -⟩ | ⟨hold, hadded⟩ := becomes_or_isAdded provider none line
    · rw [hnone rfl] at hdirective
      cases hdirective
    · rw [hstays, List.countP_singleton, hold] at hadded
      cases hadded
  · intro hopen
    exact becomes_singleton_eq_self provider fun hnone => absurd hnone hopen

theorem isTreated_of_place (provider : Provider) (hread : ∀ q ∈ passagesOf source, q.IsRead)
    (hlines : source.splitOn '\n' = (passagesOf source).flatMap Passage.lines)
    (hpassages : passagesOf source = before ++ p :: after) (hp : p.lines = within ++ line :: more)
    (hdirective : (directive? line).isSome) : IsTreated provider source before p after within line more := by
  obtain ⟨parsed, hparsed⟩ := Option.isSome_iff_exists.mp hdirective
  obtain ⟨hbegin, hend⟩ := begin?_eq_none_of_annotation (startsWith_of_directive? hparsed).1
  have hbefore : ∀ q ∈ before, q.IsRead := fun q hq => hread q (hpassages ▸ List.mem_append_left _ hq)
  have hself := hread p (hpassages ▸ List.mem_append_right _ List.mem_cons_self)
  constructor
  · have hsplit : source.splitOn '\n' =
        before.flatMap Passage.lines ++ within ++ line :: (more ++ after.flatMap Passage.lines) := by
      rw [hlines, hpassages, List.flatMap_append, List.flatMap_cons, hp]
      simp only [List.append_assoc, List.cons_append]
    change Text.unlines (becomes provider none (source.splitOn '\n')) = _
    rw [hsplit, becomes_append, becomes_cons, openAfter_of_unmarked _ hbegin hend, treated, List.append_assoc]
  · intro hreplaced
    obtain ⟨-, -, hstays⟩ | ⟨-, -, hfailure⟩ | ⟨d, lines, hd, hresolve, -, hblock⟩ := becomes_singleton_cases provider
      (openAfter none (before.flatMap Passage.lines ++ within)) line
    · exact absurd hstays hreplaced
    · exact .inr hfailure
    · exact .inl ⟨d, lines, hd, hresolve, hblock⟩
  · intro hcalm
    rw [treated, becomes_singleton_eq_self_iff provider hdirective, openAfter_append,
      openAfter_flatMap_lines hbefore hcalm]
    exact hself.openAfter_ne_none_iff hp hbegin hend
  · rintro calm q later rfl hcalm -
    obtain ⟨hcalmRead, hlater⟩ := List.forall_mem_append.mp hbefore
    rw [treated, becomes_singleton_eq_self_iff provider hdirective, List.flatMap_append, List.flatMap_cons,
      List.append_assoc, List.append_assoc, openAfter_append, openAfter_flatMap_lines hcalmRead hcalm, openAfter_append,
      (hlater q List.mem_cons_self).openAfter_lines]

/-- Each line has its place in a passage. -/
theorem exists_place {ps : List Passage} {pre post : List Text} (h : ps.flatMap Passage.lines = pre ++ line :: post) :
    ∃ before p after within more, ps = before ++ p :: after ∧ p.lines = within ++ line :: more ∧
      pre = before.flatMap Passage.lines ++ within := by
  induction ps generalizing pre with
  | nil => cases pre <;> cases h
  | cons p ps ih =>
      rw [List.flatMap_cons] at h
      rcases List.append_eq_append_iff.mp h with ⟨within, rfl, hrest⟩ | ⟨more, hlines, hpost⟩
      · obtain ⟨before, q, after, within', more, rfl, hq, rfl⟩ := ih hrest
        exact ⟨p :: before, q, after, within', more, rfl, hq, by rw [List.flatMap_cons, List.append_assoc]⟩
      · cases more with
        | nil =>
            have hrest : ps.flatMap Passage.lines = [] ++ line :: post := hpost.symm
            obtain ⟨before, q, after, within, more, rfl, hq, hwithin⟩ := ih hrest
            refine ⟨p :: before, q, after, within, more, rfl, hq, ?_⟩
            rw [List.flatMap_cons, List.append_assoc, ← hwithin, hlines, List.append_nil, List.append_nil]
        | cons line' more =>
            obtain ⟨rfl, -⟩ := List.cons.inj hpost
            exact ⟨[], p, ps, pre, more, rfl, hlines, rfl⟩

/-- In a manuscript that can be read, every directive has its place in a passage and is treated by it; where no literal
environment seems to begin in mathematics, it is left alone just when the scan captures it. -/
theorem isTreated_of_tokenize {highlighter : Highlighter} {format : Format} {g : Gathered} {text : Text}
    (h : (tokenize highlighter format g source).1 = .ok text) (provider : Provider) {pre post : List Text}
    (hsource : source.splitOn '\n' = pre ++ line :: post) (hdirective : (directive? line).isSome) :
    ∃ before p after within more, passagesOf source = before ++ p :: after ∧ p.lines = within ++ line :: more ∧
      pre = before.flatMap Passage.lines ++ within ∧ IsTreated provider source before p after within line more ∧
      ((∀ q ∈ passagesOf source, ¬q.HoldsMarker) →
        (treated provider before within line = [line] ↔ p.Captures within)) := by
  have hnone : (passages .start (source.splitOn '\n')).2 = none := by
    obtain ⟨hnone, -⟩ | ⟨e, -, herror⟩ := fst_tokenize highlighter format g source
    · exact hnone
    · rw [herror] at h
      cases h
  have hlines : source.splitOn '\n' = (passagesOf source).flatMap Passage.lines := (flatMap_lines_passages hnone).symm
  have hread : ∀ q ∈ passagesOf source, q.IsRead := isRead_of_mem_passages
  obtain ⟨before, p, after, within, more, hpassages, hp, rfl⟩ := exists_place (hlines.symm.trans hsource)
  have htreated := isTreated_of_place provider hread hlines hpassages hp hdirective
  refine ⟨before, p, after, within, more, hpassages, hp, rfl, htreated, fun hfree => ?_⟩
  have hself : p ∈ passagesOf source := hpassages ▸ List.mem_append_right _ List.mem_cons_self
  have hcalm : ∀ q ∈ before, ¬q.LeavesOpen := fun q hq =>
    Passage.not_leavesOpen_of_not_holdsMarker (hfree q (hpassages ▸ List.mem_append_left _ hq))
  have hhides := (hread p hself).not_hides_of_not_holdsMarker (hfree p hself) hp
  rw [(htreated.captured hcalm).1, or_iff_left hhides]

end Treated

/-- The directives that are left alone are those that the scan captures. -/
def LeavesAloneWhatIsCaptured : Prop :=
  ∀ (highlighter : Highlighter) (format : Format) (g : Gathered) (source text : Text) (provider : Provider),
    (tokenize highlighter format g source).1 = .ok text →
      ∀ before p after within line more, passagesOf source = before ++ p :: after → p.lines = within ++ line :: more →
        (directive? line).isSome → (treated provider before within line = [line] ↔ p.Captures within)

namespace MarkerInMathematics

def provider : Provider := (Sources.mk ⟨[(["a.rb"], Utf8.encode "puts 1\n")], [], []⟩ [] []).provider

def directive : Text := "%= <<(a.rb)"

/-- What stands before the directive: mathematics with the marker of a literal environment. -/
def mathematics : Passage :=
  .math "equation" "\\begin\x7bequation\x7d" ["\\begin\x7bverbatim\x7d"] "\\end\x7bequation\x7d"

def source : Text := Text.unlines (mathematics.lines ++ [directive])

theorem tokenize_source : ∃ text, (tokenize Highlight.plain .markup ⟨.empty "s", .inMemory⟩ source).1 = .ok text := by
  have hnone : (passages .start (source.splitOn '\n')).2 = none := by decide +kernel
  rw [tokenize_eq]
  simp only [hnone]
  exact ⟨_, rfl⟩

theorem passagesOf_source : passagesOf source = [mathematics] ++ .prose directive :: [] := by
  decide +kernel

/-- The directive stays, though the scan reads it as prose. -/
theorem not_leavesAloneWhatIsCaptured : ¬LeavesAloneWhatIsCaptured := by
  intro hall
  obtain ⟨text, htext⟩ := tokenize_source
  have hstays : treated provider [mathematics] [] directive = [directive] := by decide +kernel
  obtain ⟨body, hbody, -⟩ := (hall _ _ _ source text provider htext [mathematics] (.prose directive) [] [] directive []
    passagesOf_source rfl (by decide +kernel)).mp hstays
  cases hbody

theorem exists_isTreated : ∃ text, (tokenize Highlight.plain .markup ⟨.empty "s", .inMemory⟩ source).1 = .ok text ∧
    source.splitOn '\n' = mathematics.lines ++ directive :: [] ∧ (directive? directive).isSome ∧
      ∃ before p after within more, passagesOf source = before ++ p :: after ∧ p.lines = within ++ directive :: more ∧
        mathematics.lines = before.flatMap Passage.lines ++ within ∧
          IsTreated provider source before p after within directive more := by
  obtain ⟨text, htext⟩ := tokenize_source
  have hsource : source.splitOn '\n' = mathematics.lines ++ directive :: [] := by decide +kernel
  have hdirective : (directive? directive).isSome := by decide +kernel
  obtain ⟨before, p, after, within, more, hpassages, hp, hpre, htreated, -⟩ :=
    isTreated_of_tokenize htext provider hsource hdirective
  exact ⟨text, htext, hsource, hdirective, before, p, after, within, more, hpassages, hp, hpre, htreated⟩

end MarkerInMathematics

end Inclusion

end Manuscript
