import Manuscript.Conversion
import Manuscript.Proofs.Inclusion.Failure

/-!
Where in the manuscript an error comes from.  Errors number the lines of the expanded manuscript, in which a directive
before the line has become a block of any length.

Main statement: the number that an error names is that of the author's line and what the inclusions before it have added
(`Conversion.isNumbered_of_run`), so that it is the author's number only where nothing was included before.
-/

namespace Manuscript

namespace Source

/-- The number of the line that an error is about. -/
def Error.line : Error → Nat
  | .unterminated _ line | .unbalanced _ line | .lineOutOfRange _ _ line | .invalidOptions _ line => line

variable {c c' : Context} {line : Text} {rest : List Text} {e : Error}

/-- What an error says of a line is true of it. -/
inductive Blames : Error → Text → Prop
  | unterminated {name line : Text} {number : Nat} (hcaptured : isCaptured name = true)
      (hbegin : begin? line = some name) : Blames (.unterminated name number) line
  | unbalanced {name line : Text} {number : Nat} (hcaptured : isCaptured name = true)
      (hend : end? line = some name) : Blames (.unbalanced name number) line
  | lineOutOfRange {name line : Text} {requested : UInt32} {available number : Nat} (hliteral : name ∈ literalEnvironments)
      (hbegin : begin? line = some name) : Blames (.lineOutOfRange requested available number) line
  | invalidOptions {language options line : Text} {number : Nat} (hhint : hint? line = some (language, options))
      (hoptions : Highlight.Options.parse? options = none) : Blames (.invalidOptions options number) line

/-- An error is about the line that cannot be read, under the number that the context has for it. -/
theorem of_next_error (h : next c line rest = .error e) : e.line = c.line ∧ Blames e line := by
  cases reads_of_next h with
  | invalidOptions hhint hoptions => exact ⟨rfl, .invalidOptions hhint hoptions⟩
  | invalidBlock _ _ hopened _ hread =>
      obtain ⟨hbegin, -, hcategory⟩ := of_opened?_eq_some hopened
      unfold readBlock at hread
      split at hread
      · cases hread
      · cases hread
      · dsimp only at hread
        split at hread
        · cases hread
          exact ⟨rfl, .lineOutOfRange (mem_literalEnvironments_of_code hcategory) hbegin⟩
        · cases hread
  | unterminated _ _ hopened _ =>
      obtain ⟨hbegin, hcaptured, -⟩ := of_opened?_eq_some hopened
      exact ⟨rfl, .unterminated hcaptured hbegin⟩
  | unbalanced _ _ _ hended =>
      obtain ⟨hend, hcaptured⟩ := Option.filter_eq_some_iff.mp hended
      exact ⟨rfl, .unbalanced hcaptured hend⟩

theorem line_of_next {rest' : List Text} {p : Passage} (h : next c line rest = .ok (p, c', rest')) :
    c'.line = c.line + p.lines.length := by
  cases reads_of_next h with
  | hint | rawHtml => rfl
  | block _ _ _ _ hread => simp [lines_readBlock hread, Context.advance]
  | line =>
      rw [Context.line_pass]
      split <;> rfl

/-- Lines are counted as they are read. -/
theorem ReadOff.line_eq {ps : List Passage} (h : ReadOff c ps c') :
    c'.line = c.line + (ps.flatMap Passage.lines).length := by
  induction h with
  | nil c => rfl
  | cons _ hnext _ ih =>
      rw [ih, line_of_next (hnext []), List.flatMap_cons, List.length_append, Nat.add_assoc]

/-- The passages before a line can be read, and the line then ends the reading. -/
structure StopsAt (lines : List Text) (before : List Passage) (fault : Text) (rest : List Text) (e : Error) : Prop where
  lines_eq : lines = before.flatMap Passage.lines ++ fault :: rest
  stops : ∃ c, ReadOff .start before c ∧ next c fault rest = .error e

theorem StopsAt.line_eq {lines rest : List Text} {before : List Passage} {fault : Text}
    (h : StopsAt lines before fault rest e) : e.line = (before.flatMap Passage.lines).length + 1 ∧ Blames e fault := by
  obtain ⟨c, hread, hnext⟩ := h.stops
  obtain ⟨hline, hblames⟩ := of_next_error hnext
  refine ⟨?_, hblames⟩
  rw [hline, hread.line_eq, Nat.add_comm]
  rfl

theorem exists_stopsAt {lines : List Text} (h : (passages .start lines).2 = some e) :
    ∃ before fault rest, StopsAt lines before fault rest e := by
  rcases exists_readOff (List.append_nil (passages .start lines).1).symm with ⟨c, remaining, hread, hlines, hremaining⟩
  cases remaining with
  | nil =>
      have hnone := congrArg Prod.snd hremaining
      rw [h] at hnone
      simp [passages] at hnone
  | cons fault rest =>
      refine ⟨_, fault, rest, hlines, c, hread, ?_⟩
      cases hnext : next c fault rest with
      | error e' =>
          have herror := congrArg Prod.snd hremaining
          rw [passages_cons_error hnext, h] at herror
          rw [Option.some.inj herror]
      | ok read =>
          obtain ⟨p, c', rest'⟩ := read
          have hpassages := congrArg Prod.fst hremaining
          rw [passages_cons_ok hnext] at hpassages
          cases hpassages

end Source

namespace Inclusion

open Source

variable {provider : Provider} {sources : Sources} {o : OpenLiteral} {line : Text} {lines pre : List Text}

/-- The lines that some lines become. -/
def becomes (provider : Provider) (o : OpenLiteral) (lines : List Text) : List Text :=
  (expandLines provider o 1 lines).1

/-- The lines that are included in the place of a line. -/
def included? (provider : Provider) : OpenLiteral → Text → Option (List Text)
  | some _, _ => none
  | none, line =>
    match directive? line with
    | some (.ok d) => (resolve provider d).toOption
    | some (.error _) | none => none

/-- By how many lines the inclusions make some lines more. -/
def growth (provider : Provider) : OpenLiteral → List Text → Nat
  | _, [] => 0
  | o, line :: rest =>
    ((included? provider o line).map fun lines => lines.length + 2).getD 0 +
      growth provider (openAfter o [line]) rest

theorem expandLine_number (provider : Provider) (number number' : Nat) (line : Text) :
    (expandLine provider number line).1 = (expandLine provider number' line).1 := by
  unfold expandLine
  split
  · rfl
  · split <;> rfl

theorem expandLines_number (provider : Provider) (o : OpenLiteral) (number number' : Nat) (lines : List Text) :
    (expandLines provider o number lines).1 = (expandLines provider o number' lines).1 := by
  induction lines generalizing o number number' with
  | nil => rfl
  | cons line rest ih =>
      rcases o with _ | ⟨name, inner⟩
      · simp only [expandLines]
        split
        · rw [ih]
        · rw [expandLine_number provider number number', ih]
      · simp only [expandLines]
        rw [ih]

theorem becomes_append (provider : Provider) (o : OpenLiteral) (before rest : List Text) :
    becomes provider o (before ++ rest) = becomes provider o before ++ becomes provider (openAfter o before) rest := by
  rw [becomes, expandLines_append, expandLines_number provider _ _ 1 rest]
  rfl

theorem becomes_cons (provider : Provider) (o : OpenLiteral) (line : Text) (rest : List Text) :
    becomes provider o (line :: rest) = becomes provider o [line] ++ becomes provider (openAfter o [line]) rest :=
  becomes_append provider o [line] rest

/-- A line stays if there is no directive in it that the inclusions look at. -/
theorem becomes_singleton_eq_self (provider : Provider) (h : o = none → directive? line = none) :
    becomes provider o [line] = [line] := by
  rcases o with _ | ⟨name, inner⟩
  · simp only [becomes, expandLines, expandLine, h rfl]
    split <;> rfl
  · rfl

/-- A line stays, gives way to the lines that it includes, or to the line of a failure. -/
theorem becomes_singleton_cases (provider : Provider) (o : OpenLiteral) (line : Text) :
    (included? provider o line = none ∧ (o = none → directive? line = none) ∧ becomes provider o [line] = [line]) ∨
    (included? provider o line = none ∧ (directive? line).isSome ∧
      ∃ failure, becomes provider o [line] = [failureLine failure]) ∨
    ∃ d lines, directive? line = some (.ok d) ∧ resolve provider d = .ok lines ∧
      included? provider o line = some lines ∧ becomes provider o [line] = codeBlock d lines := by
  rcases o with _ | ⟨name, inner⟩
  · cases hdirective : directive? line with
    | none =>
        exact .inl ⟨by simp [included?, hdirective], fun _ => rfl, becomes_singleton_eq_self provider fun _ => hdirective⟩
    | some parsed =>
        obtain ⟨hbegin, -⟩ := begin?_eq_none_of_annotation (startsWith_of_directive? hdirective).1
        cases parsed with
        | error failure =>
            refine .inr (.inl ⟨by simp [included?, hdirective], rfl, failure, ?_⟩)
            simp [becomes, expandLines, hbegin, expandLine, hdirective, Except.bind]
        | ok d =>
            cases hresolve : resolve provider d with
            | error failure =>
                refine .inr (.inl ⟨by simp [included?, hdirective, hresolve, Except.toOption], rfl, failure, ?_⟩)
                simp [becomes, expandLines, hbegin, expandLine, hdirective, hresolve, Except.bind, Except.map]
            | ok lines =>
                refine .inr (.inr ⟨d, lines, rfl, hresolve, by simp [included?, hdirective, hresolve, Except.toOption], ?_⟩)
                rw [becomes, expandLines_directive hdirective hresolve, expandLines, List.append_nil]
  · exact .inl ⟨rfl, fun hnone => absurd hnone (Option.some_ne_none _), rfl⟩

theorem length_becomes (provider : Provider) (o : OpenLiteral) (lines : List Text) :
    (becomes provider o lines).length = lines.length + growth provider o lines := by
  induction lines generalizing o with
  | nil => rfl
  | cons line rest ih =>
      have hline : (becomes provider o [line]).length =
          1 + ((included? provider o line).map fun lines => lines.length + 2).getD 0 := by
        obtain ⟨hnone, -, heq⟩ | ⟨hnone, -, failure, heq⟩ | ⟨d, lines, -, -, hsome, heq⟩ :=
          becomes_singleton_cases provider o line
        · simp [hnone, heq]
        · simp [hnone, heq]
        · simp only [hsome, heq, codeBlock, Option.map_some, Option.getD_some, List.length_append, List.length_cons,
            List.length_nil]
          omega
      rw [becomes_cons, List.length_append, hline, ih, growth, List.length_cons]
      omega

/-- No line is more than one line afterwards if and only if nothing is included. -/
theorem growth_eq_zero_iff : growth provider o lines = 0 ↔
    ∀ before line rest, lines = before ++ line :: rest → included? provider (openAfter o before) line = none := by
  induction lines generalizing o with
  | nil => simp [growth]
  | cons first lines ih =>
      have hfirst : ((included? provider o first).map fun lines => lines.length + 2).getD 0 = 0 ↔
          included? provider o first = none := by
        cases included? provider o first <;> simp
      rw [growth, Nat.add_eq_zero_iff, hfirst, ih]
      constructor
      · rintro ⟨hnone, hlater⟩ before line rest hsplit
        cases before with
        | nil =>
            obtain ⟨rfl, -⟩ := List.cons.inj hsplit
            exact hnone
        | cons first' before =>
            obtain ⟨rfl, hrest⟩ := List.cons.inj hsplit
            have hopen := hlater before line rest hrest
            cases o <;> exact hopen
      · intro hall
        refine ⟨hall [] first lines rfl, fun before line rest hsplit => ?_⟩
        have hopen := hall (first :: before) line rest (by rw [hsplit]; rfl)
        cases o <;> exact hopen

/-- Every line of an expanded manuscript is one of those that a line of the manuscript becomes. -/
theorem exists_of_becomes_eq_append {front back : List Text} {fault : Text}
    (h : becomes provider o lines = front ++ fault :: back) :
    ∃ pre line post within after, lines = pre ++ line :: post ∧ front = becomes provider o pre ++ within ∧
      becomes provider (openAfter o pre) [line] = within ++ fault :: after := by
  induction lines generalizing o front with
  | nil => cases front <;> cases h
  | cons line rest ih =>
      rw [becomes_cons] at h
      rcases List.append_eq_append_iff.mp h with ⟨within, rfl, hrest⟩ | ⟨after, hline, hback⟩
      · rcases ih hrest with ⟨pre, line', post, within', after, rfl, rfl, hwithin⟩
        refine ⟨line :: pre, line', post, within', after, rfl, ?_, ?_⟩
        · rw [becomes_cons provider o line pre, List.append_assoc]
        · rw [← hwithin]
          cases o <;> rfl
      · cases after with
        | nil =>
            have hrest : becomes provider (openAfter o [line]) rest = [] ++ fault :: back := hback.symm
            rcases ih hrest with ⟨pre, line', post, within', after, rfl, hfront, hwithin⟩
            refine ⟨line :: pre, line', post, within', after, rfl, ?_, ?_⟩
            · rw [becomes_cons provider o line pre, List.append_assoc, ← hfront, List.append_nil, hline, List.append_nil]
            · rw [← hwithin]
              cases o <;> rfl
        | cons fault' after =>
            obtain ⟨rfl, -⟩ := List.cons.inj hback
            exact ⟨[], line, rest, front, after, rfl, rfl, hline⟩

/-- The line `fault`, which stands after the lines `within` in what the author's line has become, ends the reading. -/
structure Origin (provider : Provider) (source : Text) (e : Error) (pre : List Text) (line : Text) (post : List Text)
    (within : List Text) (fault : Text) : Prop where
  source_eq : source.splitOn '\n' = pre ++ line :: post
  within_eq : ∃ after, becomes provider (openAfter none pre) [line] = within ++ fault :: after
  stops : ∃ before rest, StopsAt (becomes provider none (source.splitOn '\n')) before fault rest e ∧
    before.flatMap Passage.lines = becomes provider none pre ++ within

section Origin

variable {source : Text} {e : Error} {post within : List Text} {fault : Text}

theorem Origin.blames (h : Origin provider source e pre line post within fault) : Blames e fault := by
  obtain ⟨before, rest, hstops, -⟩ := h.stops
  exact hstops.line_eq.2

/-- The number that an error names counts what the inclusions before the line have added. -/
theorem Origin.line_eq (h : Origin provider source e pre line post within fault) :
    e.line = pre.length + 1 + (growth provider none pre + within.length) := by
  obtain ⟨before, rest, hstops, hbefore⟩ := h.stops
  rw [hstops.line_eq.1, hbefore, List.length_append, length_becomes]
  omega

/-- An error over a line that the author wrote is over this line as a whole. -/
theorem Origin.fault_eq (h : Origin provider source e pre line post within fault)
    (hauthors : included? provider (openAfter none pre) line = none) : fault = line ∧ within = [] := by
  have hsingle {l : Text} {after : List Text} (heq : [l] = within ++ fault :: after) : within = [] ∧ fault = l := by
    cases within with
    | nil => exact ⟨rfl, (List.cons.inj heq).1.symm⟩
    | cons first within => cases within <;> cases heq
  obtain ⟨after, hwithin⟩ := h.within_eq
  obtain ⟨-, -, hstays⟩ | ⟨-, -, failure, hfails⟩ | ⟨_, _, -, -, hsome, -⟩ :=
    becomes_singleton_cases provider (openAfter none pre) line
  · obtain ⟨hnil, hfault⟩ := hsingle (hstays.symm.trans hwithin)
    exact ⟨hfault, hnil⟩
  · obtain ⟨-, rfl⟩ := hsingle (hfails.symm.trans hwithin)
    -- The line of a failed inclusion is raw HTML, which is never at fault.
    obtain ⟨hhint, hhtml⟩ := rawHtml?_failureLine failure
    obtain ⟨html, hhtml⟩ := Option.isSome_iff_exists.mp hhtml
    obtain ⟨hbegin, hend⟩ := begin?_eq_none_of_annotation (startsWith_of_rawHtml? hhtml)
    cases h.blames with
    | unterminated _ hbegin' => exact absurd (hbegin.symm.trans hbegin') nofun
    | unbalanced _ hend' => exact absurd (hend.symm.trans hend') nofun
    | lineOutOfRange _ hbegin' => exact absurd (hbegin.symm.trans hbegin') nofun
    | invalidOptions hhint' _ => exact absurd (hhint.symm.trans hhint') nofun
  · rw [hauthors] at hsome
    cases hsome

theorem exists_origin (h : (passages .start (becomes provider none (source.splitOn '\n'))).2 = some e) :
    ∃ pre line post within fault, Origin provider source e pre line post within fault := by
  rcases exists_stopsAt h with ⟨before, fault, rest, hstops⟩
  rcases exists_of_becomes_eq_append hstops.lines_eq with ⟨pre, line, post, within, after, hsource, hbefore, hwithin⟩
  exact ⟨pre, line, post, within, fault, hsource, ⟨after, hwithin⟩, before, rest, hstops, hbefore⟩

/-- There is one place that an error can come from: the one with its number. -/
theorem origin_of_line_eq (h : (passages .start (becomes provider none (source.splitOn '\n'))).2 = some e)
    (hsource : source.splitOn '\n' = pre ++ line :: post) {after : List Text}
    (hwithin : becomes provider (openAfter none pre) [line] = within ++ fault :: after)
    (hline : e.line = (becomes provider none pre ++ within).length + 1) :
    Origin provider source e pre line post within fault := by
  rcases exists_stopsAt h with ⟨before, fault', rest, hstops⟩
  have hlines : becomes provider none pre ++ within ++ fault ::
      (after ++ becomes provider (openAfter (openAfter none pre) [line]) post) =
        before.flatMap Passage.lines ++ fault' :: rest := by
    rw [← hstops.lines_eq, hsource, becomes_append, becomes_cons, hwithin]
    simp only [List.append_assoc, List.cons_append]
  have hlength : (becomes provider none pre ++ within).length = (before.flatMap Passage.lines).length := by
    have hnumber := hstops.line_eq.1
    omega
  obtain ⟨hbefore, hrest⟩ := List.append_inj hlines hlength
  obtain ⟨rfl, rfl⟩ := List.cons.inj hrest
  exact ⟨hsource, ⟨after, hwithin⟩, before, _, hstops, hbefore.symm⟩

end Origin

end Inclusion

namespace Conversion

open Inclusion

/-- A conversion ends with an error about the manuscript if and only if the expanded manuscript cannot be read. -/
theorem run_eq_error_iff {c : Conversion} {w : Workspace} {source : Text} {e : Source.Error} :
    (c.run w source).1 = .error (.source e) ↔
      (Source.passages .start (becomes w.sources.provider none (source.splitOn '\n'))).2 = some e := by
  rw [becomes, ← splitOn_expand_eq]
  obtain ⟨hread, scanned, hscanned⟩ | ⟨e', hread, herror⟩ :=
    Source.fst_tokenize c.highlighter c.format ⟨.empty c.salt, w.store⟩ (expand w.sources.provider source).1
  · simp only [run, hscanned, hread, reduceCtorEq, iff_false]
    intro h
    split at h <;> cases h
  · simp only [run, herror, hread, Except.error.injEq, ConversionError.source.injEq, Option.some.injEq]

/-- An error is over a line that is numbered in the expanded manuscript: its number is that of the author's line which the
line comes from, and the lines that were added by then.  So it is the author's number of a line that he wrote himself if
and only if nothing is included before this line. -/
def IsNumbered (provider : Provider) (source : Text) (e : Source.Error) : Prop :=
  ∃ pre line post within fault, Origin provider source e pre line post within fault ∧
    e.line = pre.length + 1 + (growth provider none pre + within.length) ∧
    (included? provider (openAfter none pre) line = none →
      fault = line ∧ (e.line = pre.length + 1 ↔
        ∀ before line' rest, pre = before ++ line' :: rest → included? provider (openAfter none before) line' = none))

/-- Every error about the manuscript is numbered so. -/
theorem isNumbered_of_run (c : Conversion) (w : Workspace) (source : Text) {e : Source.Error}
    (h : (c.run w source).1 = .error (.source e)) : IsNumbered w.sources.provider source e := by
  obtain ⟨pre, line, post, within, fault, horigin⟩ := exists_origin (run_eq_error_iff.mp h)
  refine ⟨pre, line, post, within, fault, horigin, horigin.line_eq, fun hauthors => ?_⟩
  obtain ⟨hfault, rfl⟩ := horigin.fault_eq hauthors
  refine ⟨hfault, ?_⟩
  rw [← growth_eq_zero_iff, horigin.line_eq, List.length_nil]
  omega

/-- Every error over a line that the author wrote names the number of this line. -/
def NamesAuthorsLines : Prop :=
  ∀ (c : Conversion) (w : Workspace) (source : Text) (e : Source.Error), (c.run w source).1 = .error (.source e) →
    ∀ pre line post within fault, Origin w.sources.provider source e pre line post within fault →
      included? w.sources.provider (openAfter none pre) line = none → e.line = pre.length + 1

end Conversion

namespace IncludedBefore

open Inclusion

def conversion : Conversion :=
  ⟨.markup, false, .numbered, false, .default, Highlight.plain, Document.ofXmlText, "s"⟩

def workspace : Workspace := ⟨⟨⟨[(["a.rb"], Utf8.encode "x\n")], [], []⟩, [], []⟩, .inMemory⟩

def directive : Text := "%= <<(a.rb)"

def marker : Text := "\\begin\x7bverbatim\x7d"

/-- The environment on the second line is never closed. -/
def source : Text := Text.unlines [directive, marker]

theorem run_source : (conversion.run workspace source).1 = .error (.source (.unterminated "verbatim" 5)) :=
  Conversion.run_eq_error_iff.mpr (by decide +kernel)

theorem isNumbered : (conversion.run workspace source).1 = .error (.source (.unterminated "verbatim" 5)) ∧
    Conversion.IsNumbered workspace.sources.provider source (.unterminated "verbatim" 5) :=
  ⟨run_source, Conversion.isNumbered_of_run conversion workspace source run_source⟩

theorem origin : Origin workspace.sources.provider source (.unterminated "verbatim" 5) [directive] marker [] [] marker :=
  have hwithin : becomes workspace.sources.provider (openAfter none [directive]) [marker] = [] ++ marker :: [] := by
    decide +kernel
  origin_of_line_eq (by decide +kernel) (by decide +kernel) hwithin (by decide +kernel)

/-- Four lines have been put in the place of the first one. -/
theorem not_namesAuthorsLines : ¬Conversion.NamesAuthorsLines := by
  intro hnames
  have hline := hnames conversion workspace source _ run_source _ _ _ _ _ origin (by decide +kernel)
  exact absurd hline (by decide)

end IncludedBefore

end Manuscript
