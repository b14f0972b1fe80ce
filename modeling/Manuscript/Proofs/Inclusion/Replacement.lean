import Manuscript.Proofs.Inclusion.Literal

/-!
What inclusions do to a manuscript, line by line.  A line is left alone if it belongs to a literal environment, which goes
from its begin marker to the end marker that balances it, or to the end of the manuscript.

Main statement: an expanded manuscript has, in the order of the lines, what stands for each of them, which depends on
nothing but the line and whether it is literal, and there is a warning for each inclusion that failed
(`isReplaced_expand`).
-/

namespace Manuscript.Inclusion

open Source

/-- A line, and whether it belongs to a literal environment. -/
structure Located where
  isLiteral : Bool
  line : Text
  deriving DecidableEq

/-- Lines of literal environments. -/
def literal (lines : List Text) : List Located := lines.map (⟨true, ·⟩)

/-- The literal environments in some lines: each from its begin marker to the end marker that balances it, or to the end of
the lines. -/
inductive Divides : List Text → List Located → Prop
  | nil : Divides [] []
  | outside {line : Text} {rest : List Text} {places : List Located}
      (hline : ∀ name ∈ literalEnvironments, begin? line ≠ some name) (hrest : Divides rest places) :
      Divides (line :: rest) (⟨false, line⟩ :: places)
  | closed {name first last : Text} {body rest : List Text} {places : List Located} (hname : name ∈ literalEnvironments)
      (hfirst : begin? first = some name) (hbody : Balanced name body) (hlast : end? last = some name)
      (hrest : Divides rest places) :
      Divides (first :: (body ++ last :: rest)) (literal (first :: (body ++ [last])) ++ places)
  | unclosed {name first : Text} {rest : List Text} (hname : name ∈ literalEnvironments)
      (hfirst : begin? first = some name)
      (hopen : ∀ body last after, rest = body ++ last :: after → end? last = some name → ¬Balanced name body) :
      Divides (first :: rest) (literal (first :: rest))

/-- What stands for a line of the manuscript: the lines in its place, and why its inclusion failed, if it did. -/
structure Outcome where
  lines : List Text
  failure? : Option Failure
  deriving DecidableEq

/-- The directive in a line cannot be followed: it cannot be read, or what it asks for is not there. -/
def Fails (provider : Provider) (line : Text) (failure : Failure) : Prop :=
  directive? line = some (.error failure) ∨
    ∃ d, directive? line = some (.ok d) ∧ resolve provider d = .error failure

/-- What may stand for a line. -/
inductive StandsFor (provider : Provider) : Located → Outcome → Prop
  | literal (line : Text) : StandsFor provider ⟨true, line⟩ ⟨[line], none⟩
  | other {line : Text} (h : directive? line = none) : StandsFor provider ⟨false, line⟩ ⟨[line], none⟩
  | included {line : Text} {d : Directive} {lines : List Text} (hdirective : directive? line = some (.ok d))
      (hresolve : resolve provider d = .ok lines) :
      StandsFor provider ⟨false, line⟩
        ⟨hintLine d :: "\\begin\x7bcode\x7d" :: (lines ++ (["\\end\x7bcode\x7d"] : List Text)), none⟩
  | failed {line : Text} {failure : Failure} (h : Fails provider line failure) :
      StandsFor provider ⟨false, line⟩
        ⟨["%= <span class=\"inline_error\">ERROR: " ++ Html.escapeText failure.message ++ "</span>"], some failure⟩

/-- The warnings about the inclusions that failed, the first line having the given number. -/
def warningsFrom (number : Nat) (outcomes : List Outcome) : List Warning :=
  (outcomes.zipIdx number).filterMap fun (outcome, number) => outcome.failure?.map (.inclusionFailed number)

/-- An expanded manuscript is put together from what stands for each line. -/
structure IsReplaced (provider : Provider) (source : Text) (places : List Located) (outcomes : List Outcome)
    (expanded : Text × List Warning) : Prop where
  /-- The lines are divided into those of literal environments and others in one way. -/
  divides : ∀ others, Divides (source.splitOn '\n') others ↔ others = places
  /-- What stands for a line depends on no other line. -/
  standsFor : ∀ others, List.Forall₂ (StandsFor provider) places others ↔ others = outcomes
  text_eq : expanded.1 = Text.unlines (outcomes.flatMap Outcome.lines)
  warnings_eq : expanded.2 = warningsFrom 1 outcomes
  code_eq : ∀ w ∈ expanded.2, w.code = "W_INCLUDE_FAILED"
  /-- What stands for a line has no line breaks of its own, unless a provider words a failure with one. -/
  splitOn_eq :
    (∀ d failure, resolve provider d = .error failure → (∀ t ∈ d.quoted, '\n' ∉ t) → '\n' ∉ failure.message) →
      expanded.1.splitOn '\n' = outcomes.flatMap Outcome.lines

section Divides

variable {o : OpenLiteral} {name first last line : Text} {inner : Nat} {lines body rest : List Text} {places : List Located}

/-- The lines that belong to literal environments: those before or after which one is open. -/
def locate : OpenLiteral → List Text → List Located
  | _, [] => []
  | o, line :: rest =>
    let next := openAfter o [line]
    ⟨o.isSome || next.isSome, line⟩ :: locate next rest

theorem locate_append (o : OpenLiteral) (lines rest : List Text) :
    locate o (lines ++ rest) = locate o lines ++ locate (openAfter o lines) rest := by
  induction lines generalizing o with
  | nil => cases o <;> rfl
  | cons line lines ih => rw [List.cons_append, locate, ih, locate, openAfter_cons o line lines, List.cons_append]

theorem line_mem_of_mem_locate {located : Located} (h : located ∈ locate o lines) : located.line ∈ lines := by
  induction lines generalizing o with
  | nil => cases h
  | cons line lines ih =>
      obtain rfl | hlater := List.mem_cons.mp h
      · exact List.mem_cons_self
      · exact List.mem_cons_of_mem line (ih hlater)

/-- Lines after each of which an environment is open belong to literal environments. -/
theorem locate_eq_literal (h : ∀ before line after, lines = before ++ line :: after → openAfter o (before ++ [line]) ≠ none) :
    locate o lines = literal lines := by
  induction lines generalizing o with
  | nil => rfl
  | cons line lines ih =>
      have hline : (openAfter o [line]).isSome = true := Option.isSome_iff_ne_none.mpr (h [] line lines rfl)
      have hlines : locate (openAfter o [line]) lines = literal lines := by
        refine ih fun before later after hlines => ?_
        rw [← openAfter_append]
        exact h (line :: before) later after (by rw [hlines]; rfl)
      rw [locate, hlines, hline, Bool.or_true]
      rfl

/-- An environment that no later line closes stays open. -/
theorem exists_openAfter_eq_some
    (h : ∀ body last after, lines = body ++ last :: after → end? last = some name → ¬Closes name inner body) :
    ∃ inner', openAfter (some (name, inner)) lines = some (name, inner') := by
  induction lines generalizing inner with
  | nil => exact ⟨inner, rfl⟩
  | cons line lines ih =>
      have hlater {inner' : Nat} (hiff : ∀ body, Closes name inner (line :: body) ↔ Closes name inner' body) :
          ∃ inner'', openAfter (some (name, inner')) lines = some (name, inner'') := by
        refine ih fun body last after hlines hlast hclosed => ?_
        exact h (line :: body) last after (by rw [hlines]; rfl) hlast ((hiff body).mpr hclosed)
      by_cases hbegin : begin? line = some name
      · simpa [openAfter, afterLiteralLine, hbegin] using hlater fun body => closes_cons_begin hbegin
      · by_cases hend : end? line = some name
        · cases inner with
          | zero => exact absurd (closes_nil_iff.mpr rfl) (h [] line lines rfl hend)
          | succ inner =>
              simpa [openAfter, afterLiteralLine, hbegin, hend] using hlater fun body => closes_cons_end hbegin hend
        · simpa [openAfter, afterLiteralLine, hbegin, hend] using hlater fun body => closes_cons_of_ne hbegin hend

theorem locate_closed (hname : name ∈ literalEnvironments) (hfirst : begin? first = some name)
    (hbody : Balanced name body) (hlast : end? last = some name) (rest : List Text) :
    locate none (first :: (body ++ last :: rest)) = literal (first :: (body ++ [last])) ++ locate none rest := by
  have hblock : (Segment.block name first body last).Valid := ⟨isCaptured_iff.mpr (.inl hname), hfirst, hbody, hlast⟩
  obtain ⟨hafter, hinside⟩ := openAfter_literal hblock hname
  have hopen : locate none (first :: body) = literal (first :: body) := by
    refine locate_eq_literal fun before line after hlines => ?_
    cases before with
    | nil =>
        obtain ⟨rfl, rfl⟩ := List.cons.inj hlines
        exact hinside [] body rfl
    | cons first' before =>
        obtain ⟨rfl, hbody'⟩ := List.cons.inj hlines
        exact hinside (before ++ [line]) after (by rw [hbody', List.append_assoc]; rfl)
  have hend : locate (openAfter none (first :: body)) [last] = literal [last] := by
    have hsome : (openAfter none (first :: body)).isSome = true :=
      Option.isSome_iff_ne_none.mpr (hinside body [] (List.append_nil body).symm)
    rw [locate, hsome, Bool.true_or]
    rfl
  have hsplit : first :: (body ++ last :: rest) = first :: body ++ [last] ++ rest := by simp
  rw [hsplit, locate_append, hafter, locate_append, hopen, hend, literal, literal, ← List.map_append]
  rfl

theorem locate_unclosed (hname : name ∈ literalEnvironments) (hfirst : begin? first = some name)
    (hopen : ∀ body last after, rest = body ++ last :: after → end? last = some name → ¬Balanced name body) :
    locate none (first :: rest) = literal (first :: rest) := by
  refine locate_eq_literal fun before line after hlines => ?_
  have hstays (lines more : List Text) (hrest : rest = lines ++ more) : openAfter none (first :: lines) ≠ none := by
    obtain ⟨inner, hinner⟩ : ∃ inner, openAfter (some (name, 0)) lines = some (name, inner) :=
      exists_openAfter_eq_some fun body last after hbody hlast =>
        hopen body last (after ++ more) (by rw [hrest, hbody]; simp) hlast
    rw [openAfter_cons, openAfter_begin hname hfirst, hinner]
    exact Option.some_ne_none _
  cases before with
  | nil =>
      obtain ⟨rfl, rfl⟩ := List.cons.inj hlines
      exact hstays [] rest (List.nil_append rest).symm
  | cons first' before =>
      obtain ⟨rfl, hrest⟩ := List.cons.inj hlines
      exact hstays (before ++ [line]) after (by rw [hrest]; simp)

theorem Divides.eq_locate (h : Divides lines places) : places = locate none lines := by
  induction h with
  | nil => rfl
  | outside hline _ ih =>
      rw [locate, openAfter_none_of_begin? hline, ← ih]
      rfl
  | closed hname hfirst hbody hlast _ ih => rw [locate_closed hname hfirst hbody hlast, ← ih]
  | unclosed hname hfirst hopen => exact (locate_unclosed hname hfirst hopen).symm

/-- Some lines can always be divided. -/
theorem exists_divides (lines : List Text) : ∃ places, Divides lines places := by
  induction hn : lines.length using Nat.strong_induction_on generalizing lines with
  | _ n ih =>
      subst hn
      cases lines with
      | nil => exact ⟨[], .nil⟩
      | cons line rest =>
          by_cases hliteral : ∃ name ∈ literalEnvironments, begin? line = some name
          · obtain ⟨name, hname, hbegin⟩ := hliteral
            by_cases hclosed : ∃ body last after, rest = body ++ last :: after ∧ end? last = some name ∧ Balanced name body
            · obtain ⟨body, last, after, rfl, hlast, hbody⟩ := hclosed
              obtain ⟨places, hafter⟩ := ih after.length (by simp; omega) after rfl
              exact ⟨_, .closed hname hbegin hbody hlast hafter⟩
            · refine ⟨_, .unclosed hname hbegin fun body last after hrest hlast hbody => ?_⟩
              exact hclosed ⟨body, last, after, hrest, hlast, hbody⟩
          · obtain ⟨places, hrest⟩ := ih rest.length (by simp) rest rfl
            exact ⟨_, .outside (fun name hname hbegin => hliteral ⟨name, hname, hbegin⟩) hrest⟩

theorem divides_iff {lines : List Text} {places : List Located} : Divides lines places ↔ places = locate none lines := by
  refine ⟨Divides.eq_locate, ?_⟩
  rintro rfl
  obtain ⟨places, h⟩ := exists_divides lines
  exact h.eq_locate ▸ h

end Divides

section StandsFor

variable {provider : Provider} {located : Located} {outcome outcome' : Outcome} {places : List Located}
  {outcomes outcomes' : List Outcome}

/-- The directive in a line can be followed, or fails for one reason. -/
theorem Fails.unique {line : Text} {failure failure' : Failure} (h : Fails provider line failure)
    (h' : Fails provider line failure') : failure = failure' := by
  obtain hread | ⟨d, hread, hresolve⟩ := h <;> obtain hread' | ⟨d', hread', hresolve'⟩ := h' <;>
    simp_all

theorem Fails.not_resolved {line : Text} {failure : Failure} (h : Fails provider line failure) {d : Directive}
    (hdirective : directive? line = some (.ok d)) (lines : List Text) : resolve provider d ≠ .ok lines := by
  obtain hread | ⟨d', hread, hresolve⟩ := h <;> simp_all

theorem Fails.isSome_directive? {line : Text} {failure : Failure} (h : Fails provider line failure) :
    directive? line ≠ none := by
  obtain hread | ⟨d, hread, -⟩ := h <;> simp [hread]

theorem StandsFor.unique (h : StandsFor provider located outcome) (h' : StandsFor provider located outcome') :
    outcome' = outcome := by
  cases h with
  | literal line =>
      cases h'
      rfl
  | other hnone =>
      cases h' with
      | other => rfl
      | included hdirective => simp [hnone] at hdirective
      | failed hfails => exact absurd hnone hfails.isSome_directive?
  | included hdirective hresolve =>
      cases h' with
      | other hnone => simp [hnone] at hdirective
      | included hdirective' hresolve' =>
          obtain rfl : _ = _ := by simpa [hdirective] using hdirective'
          obtain rfl : _ = _ := by simpa [hresolve] using hresolve'
          rfl
      | failed hfails => exact absurd hresolve (hfails.not_resolved hdirective _)
  | failed hfails =>
      cases h' with
      | other hnone => exact absurd hnone hfails.isSome_directive?
      | included hdirective hresolve => exact absurd hresolve (hfails.not_resolved hdirective _)
      | failed hfails' => rw [hfails.unique hfails']

theorem unique_of_forall₂_standsFor (h : List.Forall₂ (StandsFor provider) places outcomes)
    (h' : List.Forall₂ (StandsFor provider) places outcomes') : outcomes' = outcomes := by
  induction h generalizing outcomes' with
  | nil =>
      cases h'
      rfl
  | cons hfirst _ ih =>
      cases h' with
      | cons hfirst' hrest' => rw [hfirst.unique hfirst', ih hrest']

/-- What becomes of one line, and that the rest goes on after it. -/
theorem exists_standsFor (provider : Provider) (o : OpenLiteral) (number : Nat) (line : Text) (rest : List Text) :
    ∃ outcome, StandsFor provider ⟨o.isSome || (openAfter o [line]).isSome, line⟩ outcome ∧
      expandLines provider o number (line :: rest) =
        (outcome.lines ++ (expandLines provider (openAfter o [line]) (number + 1) rest).1,
          (outcome.failure?.map (.inclusionFailed number)).toList ++
            (expandLines provider (openAfter o [line]) (number + 1) rest).2) := by
  rcases o with _ | ⟨name, inner⟩
  · cases hliteral : (begin? line).filter (· ∈ literalEnvironments) with
    | some name =>
        have hopen : openAfter none [line] = some (name, 0) := by rw [openAfter, hliteral]; rfl
        rw [hopen]
        refine ⟨_, .literal line, ?_⟩
        simp only [expandLines, hliteral]
        rfl
    | none =>
        have hopen : openAfter none [line] = none := by rw [openAfter, hliteral]; rfl
        rw [hopen]
        cases hdirective : directive? line with
        | none =>
            refine ⟨_, .other hdirective, ?_⟩
            simp only [expandLines, hliteral, expandLine, hdirective]
            rfl
        | some parsed =>
            cases parsed with
            | error failure =>
                refine ⟨_, .failed (.inl hdirective), ?_⟩
                simp only [expandLines, hliteral, expandLine, hdirective, Except.bind]
                rfl
            | ok d =>
                cases hresolve : resolve provider d with
                | error failure =>
                    refine ⟨_, .failed (.inr ⟨d, hdirective, hresolve⟩), ?_⟩
                    simp only [expandLines, hliteral, expandLine, hdirective, Except.bind, hresolve, Except.map]
                    rfl
                | ok lines =>
                    refine ⟨_, .included hdirective hresolve, ?_⟩
                    simp only [expandLines, hliteral, expandLine, hdirective, Except.bind, hresolve, Except.map]
                    rfl
  · exact ⟨_, .literal line, rfl⟩

theorem warningsFrom_cons (number : Nat) (outcome : Outcome) (outcomes : List Outcome) :
    warningsFrom number (outcome :: outcomes) =
      (outcome.failure?.map (.inclusionFailed number)).toList ++ warningsFrom (number + 1) outcomes := by
  rw [warningsFrom, List.zipIdx_cons, List.filterMap_cons]
  cases hfailure : outcome.failure? <;> simp [hfailure, warningsFrom]

theorem code_of_mem_warningsFrom {number : Nat} {w : Warning} (h : w ∈ warningsFrom number outcomes) :
    w.code = "W_INCLUDE_FAILED" := by
  obtain ⟨⟨outcome, number'⟩, -, hw⟩ := List.mem_filterMap.mp h
  obtain ⟨failure, -, rfl⟩ := Option.map_eq_some_iff.mp hw
  rfl

/-- What becomes of some lines. -/
theorem exists_forall₂_standsFor (provider : Provider) (o : OpenLiteral) (number : Nat) (lines : List Text) :
    ∃ outcomes, List.Forall₂ (StandsFor provider) (locate o lines) outcomes ∧
      expandLines provider o number lines = (outcomes.flatMap Outcome.lines, warningsFrom number outcomes) := by
  induction lines generalizing o number with
  | nil => exact ⟨[], .nil, by cases o <;> rfl⟩
  | cons line lines ih =>
      obtain ⟨outcome, hfirst, hexpand⟩ := exists_standsFor provider o number line lines
      obtain ⟨outcomes, hrest, hlater⟩ := ih (openAfter o [line]) (number + 1)
      refine ⟨outcome :: outcomes, .cons hfirst hrest, ?_⟩
      rw [hexpand, hlater, List.flatMap_cons, warningsFrom_cons]

/-- What stands for a line without line feeds has none, unless a failure is worded with one. -/
theorem StandsFor.lineFeed_notMem (h : StandsFor provider located outcome) (hline : '\n' ∉ located.line)
    (hworded : ∀ d failure, resolve provider d = .error failure → (∀ t ∈ d.quoted, '\n' ∉ t) → '\n' ∉ failure.message) :
    ∀ line ∈ outcome.lines, '\n' ∉ line := by
  cases h with
  | literal line => exact List.forall_mem_singleton.mpr hline
  | other hnone => exact List.forall_mem_singleton.mpr hline
  | included hdirective hresolve => exact lineFeed_notMem_codeBlock hdirective hresolve
  | @failed _ failure hfails =>
      have hmessage : '\n' ∉ failure.message := by
        obtain hread | ⟨d, hread, hresolve⟩ := hfails
        · exact lineFeed_notMem_message (lineFeed_notMem_quoted_of_malformed hread hline)
        · exact hworded d _ hresolve (lineFeed_notMem_quoted hread)
      refine List.forall_mem_singleton.mpr ?_
      exact notMem_append (notMem_append (by decide +kernel) (Html.lineFeed_notMem_escapeText hmessage)) (by decide +kernel)

theorem lineFeed_notMem_of_forall₂_standsFor (h : List.Forall₂ (StandsFor provider) places outcomes)
    (hlines : ∀ located ∈ places, '\n' ∉ located.line)
    (hworded : ∀ d failure, resolve provider d = .error failure → (∀ t ∈ d.quoted, '\n' ∉ t) → '\n' ∉ failure.message) :
    ∀ line ∈ outcomes.flatMap Outcome.lines, '\n' ∉ line := by
  induction h with
  | nil => exact nofun
  | cons hfirst _ ih =>
      obtain ⟨hline, hlater⟩ := List.forall_mem_cons.mp hlines
      exact List.forall_mem_append.mpr ⟨hfirst.lineFeed_notMem hline hworded, ih hlater⟩

end StandsFor

/-- Inclusions change the lines of directives outside of literal environments, each by itself, and warn of those that
fail. -/
theorem isReplaced_expand (provider : Provider) (source : Text) :
    ∃ places outcomes, IsReplaced provider source places outcomes (expand provider source) := by
  obtain ⟨outcomes, houtcomes, hexpand⟩ := exists_forall₂_standsFor provider none 1 (source.splitOn '\n')
  have htext : (expand provider source).1 = Text.unlines (outcomes.flatMap Outcome.lines) := by rw [expand, hexpand]
  refine ⟨locate none (source.splitOn '\n'), outcomes, fun _ => divides_iff, fun others => ⟨?_, ?_⟩, htext, ?_, ?_, ?_⟩
  · exact unique_of_forall₂_standsFor houtcomes
  · rintro rfl
    exact houtcomes
  · rw [expand, hexpand]
  · rw [expand, hexpand]
    exact fun w => code_of_mem_warningsFrom
  · intro hworded
    have hlines : ∀ located ∈ locate none (source.splitOn '\n'), '\n' ∉ located.line := fun located hlocated =>
      Text.notMem_of_mem_splitOn (line_mem_of_mem_locate hlocated)
    rw [htext]
    refine Text.splitOn_unlines (lineFeed_notMem_of_forall₂_standsFor houtcomes hlines hworded) ?_
    have hne := expandLines_ne_nil provider none 1 (List.splitOn_ne_nil '\n' source)
    rwa [hexpand] at hne

end Manuscript.Inclusion
