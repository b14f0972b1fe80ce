import Manuscript.Proofs.Inclusion.Clause
import Manuscript.Proofs.Inclusion.Failure

/-!
Directives as they are written.  Of the clauses of a directive the git clause may stand before or after the options.

Main statement: a directive that is written is read back, unless its options leave a git clause open that the one after
them closes (`readsBack_iff`).
-/

namespace Manuscript.Inclusion

/-- A subset as it is written behind the path. -/
def Subset.written : Subset → Text
  | .whole => []
  | .lines selector | .part selector => '[' :: (selector ++ [']'])

/-- The language as it is written. -/
def Directive.languageClause (d : Directive) : Text := (d.language.map fun l : Text => (", lang: " ++ l : Text)).getD []

/-- What is included, and its language, as they are written. -/
def Directive.front (d : Directive) : Text := d.path ++ d.subset.written ++ d.languageClause

/-- The options as they are written. -/
def Directive.optionsClause (d : Directive) : Text := (d.options.map fun o : Text => (", options: " ++ o : Text)).getD []

/-- The revision as it is written. -/
def Directive.revisionClause (d : Directive) : Text := (d.revision.map fun r => (", " ++ r.written : Text)).getD []

/-- What stands between the brackets. -/
def Directive.written (d : Directive) (revisionFirst : Bool) : Text :=
  d.front ++ if revisionFirst then d.revisionClause ++ d.optionsClause else d.optionsClause ++ d.revisionClause

/-- A directive as it is written. -/
def Directive.line (d : Directive) (revisionFirst : Bool) : Text := "%= <<(" ++ d.written revisionFirst ++ ")"

/-- The words that options and git clauses begin with. -/
def clauseWords : List Text := ["options:", "git:"]

/-- A subset that can be written. -/
def Subset.IsPlain : Subset → Prop
  | .whole => True
  | .lines spec => IsValue spec ∧ spec.all isLineSpecCharacter = true
  | .part name => IsValue name ∧ name.all isLineSpecCharacter = false ∧ '[' ∉ name ∧ ']' ∉ name ∧
      ∀ word ∈ clauseWords, ¬word <:+: name

instance : (subset : Subset) → Decidable subset.IsPlain
  | .whole => inferInstanceAs (Decidable True)
  | .lines spec => inferInstanceAs (Decidable (IsValue spec ∧ spec.all isLineSpecCharacter = true))
  | .part name => inferInstanceAs (Decidable (IsValue name ∧ name.all isLineSpecCharacter = false ∧ '[' ∉ name ∧
      ']' ∉ name ∧ ∀ word ∈ clauseWords, ¬word <:+: name))

/-- A directive whose values do not look like other parts of it. -/
structure Directive.IsPlain (d : Directive) : Prop where
  path : IsValue d.path
  path_comma : ',' ∉ d.path
  path_bracket : '[' ∉ d.path ∧ ']' ∉ d.path
  path_words : ∀ word ∈ clauseWords, ¬word <:+: d.path
  subset : d.subset.IsPlain
  language : ∀ l ∈ d.language, IsValue l ∧ ',' ∉ l ∧ ∀ word ∈ clauseWords, ¬word <:+: l
  options : ∀ o ∈ d.options, IsValue o ∧ ¬HoldsClause o
  revision : ∀ r ∈ d.revision, r.IsPlain

instance (d : Directive) : Decidable d.IsPlain :=
  decidable_of_iff
    (IsValue d.path ∧ ',' ∉ d.path ∧ ('[' ∉ d.path ∧ ']' ∉ d.path) ∧ (∀ word ∈ clauseWords, ¬word <:+: d.path) ∧
      d.subset.IsPlain ∧ (∀ l ∈ d.language, IsValue l ∧ ',' ∉ l ∧ ∀ word ∈ clauseWords, ¬word <:+: l) ∧
      (∀ o ∈ d.options, IsValue o ∧ ¬HoldsClause o) ∧ ∀ r ∈ d.revision, r.IsPlain)
    ⟨fun ⟨path, comma, bracket, words, subset, language, options, revision⟩ =>
        ⟨path, comma, bracket, words, subset, language, options, revision⟩,
      fun h => ⟨h.path, h.path_comma, h.path_bracket, h.path_words, h.subset, h.language, h.options, h.revision⟩⟩

/-- The options that a directive is written with before its revision leave no git clause open. -/
def Directive.IsClosed (d : Directive) (revisionFirst : Bool) : Prop :=
  revisionFirst = false → d.revision ≠ none → ∀ o ∈ d.options, ¬LeavesOpen o

section Targets

variable {t : Text}

/-- Text without commas and brackets is passed. -/
theorem splitTarget?_append (hcomma : ',' ∉ t) (hopen : '[' ∉ t) (hclose : ']' ∉ t) (rest : Text) :
    splitTarget? 0 (t ++ rest) = (splitTarget? 0 rest).map fun (target, rest) => (t ++ target, rest) := by
  induction t with
  | nil => simp
  | cons c t ih =>
      obtain ⟨hcomma', hcomma⟩ : ',' ≠ c ∧ ',' ∉ t := by simpa using hcomma
      obtain ⟨hopen', hopen⟩ : '[' ≠ c ∧ '[' ∉ t := by simpa using hopen
      obtain ⟨hclose', hclose⟩ : ']' ≠ c ∧ ']' ∉ t := by simpa using hclose
      simp only [List.cons_append, splitTarget?, Ne.symm hcomma', Ne.symm hopen', Ne.symm hclose', false_and, if_false,
        ih hcomma hopen hclose, Option.map_map]
      rfl

/-- What stands between brackets is passed. -/
theorem splitTarget?_brackets (hopen : '[' ∉ t) (hclose : ']' ∉ t) (rest : Text) :
    splitTarget? 0 ('[' :: (t ++ ']' :: rest)) =
      (splitTarget? 0 rest).map fun (target, rest) => ('[' :: (t ++ ']' :: target), rest) := by
  have hinside : splitTarget? 1 (t ++ ']' :: rest) =
      (splitTarget? 0 rest).map fun (target, rest) => (t ++ ']' :: target, rest) := by
    induction t with
    | nil => simp [splitTarget?]
    | cons c t ih =>
        obtain ⟨hopen', hopen⟩ : '[' ≠ c ∧ '[' ∉ t := by simpa using hopen
        obtain ⟨hclose', hclose⟩ : ']' ≠ c ∧ ']' ∉ t := by simpa using hclose
        simp only [List.cons_append, splitTarget?, Ne.symm hopen', Ne.symm hclose', Nat.one_ne_zero, and_false,
          if_false, ih hopen hclose, Option.map_map]
        rfl
  simp [splitTarget?, hinside, Function.comp_def]

end Targets

section Parts

variable {d : Directive} {word : Text}

theorem isBracket_of_isLineSpecCharacter {c : Char} (h : isLineSpecCharacter c = true) : c ≠ '[' ∧ c ≠ ']' ∧ c ≠ ':' := by
  refine ⟨?_, ?_, ?_⟩ <;>
  · rintro rfl
    exact absurd h (by decide)

theorem colon_mem_of_mem_clauseWords (h : word ∈ clauseWords) : ':' ∈ word := by
  revert word
  decide

/-- A subset that can be written is the whole, or named by a selector between brackets. -/
theorem Subset.IsPlain.eq_whole_or {subset : Subset} (h : subset.IsPlain) : subset = .whole ∨
    ∃ selector, subset.written = '[' :: (selector ++ [']']) ∧ IsValue selector ∧ subsetOf selector = subset ∧
      '[' ∉ selector ∧ ']' ∉ selector ∧ ∀ word ∈ clauseWords, ¬word <:+: selector := by
  cases subset with
  | whole => exact .inl rfl
  | lines spec =>
      obtain ⟨hvalue, hall⟩ := h
      have hother (c : Char) (hc : c ∈ spec) := isBracket_of_isLineSpecCharacter (List.all_eq_true.mp hall c hc)
      refine .inr ⟨spec, rfl, hvalue, ?_, fun hmem => (hother _ hmem).1 rfl, fun hmem => (hother _ hmem).2.1 rfl, ?_⟩
      · rw [subsetOf, if_neg hvalue.ne_nil, if_pos hall]
      · exact fun word hword hpart => (hother _ (hpart.subset (colon_mem_of_mem_clauseWords hword))).2.2 rfl
  | part name =>
      obtain ⟨hvalue, hall, hopen, hclose, hwords⟩ := h
      refine .inr ⟨name, rfl, hvalue, ?_, hopen, hclose, hwords⟩
      rw [subsetOf, if_neg hvalue.ne_nil, if_neg (by simp [hall])]

/-- The path and the subset are what stands before the first comma. -/
theorem splitTarget?_target (hd : d.IsPlain) (rest : Text) :
    splitTarget? 0 (d.path ++ d.subset.written ++ rest) =
      (splitTarget? 0 rest).map fun (target, rest) => (d.path ++ d.subset.written ++ target, rest) := by
  rw [List.append_assoc, splitTarget?_append hd.path_comma hd.path_bracket.1 hd.path_bracket.2]
  rcases hd.subset.eq_whole_or with hwhole | ⟨selector, hwritten, -, -, hopen, hclose, -⟩
  · simp only [hwhole, Subset.written, List.append_nil, List.nil_append]
  · simp only [hwritten, List.cons_append, List.append_assoc, List.nil_append, splitTarget?_brackets hopen hclose,
      Option.map_map]
    rfl

theorem target?_written (hd : d.IsPlain) : target? (d.path ++ d.subset.written) = some (d.path, d.subset) := by
  rcases hd.subset.eq_whole_or with hwhole | ⟨selector, hwritten, hvalue, hsubset, -, hclose, -⟩
  · have hnone : Text.cut? "[" d.path = none :=
      Text.cut?_eq_none fun h => hd.path_bracket.1 (h.subset List.mem_cons_self)
    rw [hwhole, Subset.written, List.append_nil, target?, hnone]
    simp only [hd.path.trim_eq]
  · have hopened : Text.cut? "[" (d.path ++ '[' :: (selector ++ [']'])) = some (d.path, selector ++ [']']) :=
      Text.cut?_append_cons hd.path_bracket.1 _
    have hclosed : Text.cutLast? ']' (selector ++ [']']) = some (selector, []) := by
      simp [Text.cutLast?, Text.cut?, Text.after?]
    rw [hwritten, target?, hopened]
    simp only [hclosed, Option.bind_eq_bind, Option.bind_some, hd.path.trim_eq, hvalue.trim_eq, hsubset]
    rfl

/-- The language is read from what stands behind the first comma. -/
theorem exists_attributes (hd : d.IsPlain) {gap : Text} (hgap : gap = [] ∨ gap = ", ".toList) :
    ∃ attributes, splitTarget? 0 (d.languageClause ++ gap) = some ([], attributes) ∧
      languageOf? none (attributes.splitOn ',') = some d.language := by
  cases hlanguage : d.language with
  | none =>
      rw [Directive.languageClause, hlanguage]
      rcases hgap with rfl | rfl
      · exact ⟨[], rfl, rfl⟩
      · exact ⟨[' '], rfl, rfl⟩
  | some l =>
      obtain ⟨hvalue, hcomma, -⟩ := hd.language l hlanguage
      have hclause : d.languageClause = ',' :: ((" lang: " : Text) ++ l) := by
        rw [Directive.languageClause, hlanguage]
        rfl
      have hitem : ',' ∉ (" lang: " : Text) ++ l := by simp [hcomma]
      have hread (rest : List Text) (hrest : ∀ language, languageOf? language rest = some language) :
          languageOf? none (((" lang: " : Text) ++ l) :: rest) = some (some l) := by
        have htrim : Text.trim ((" lang: " : Text) ++ l) = ("lang:" : Text) ++ ' ' :: l := by
          have hlead : Text.isBlankOnly " " = true := rfl
          have htail : Text.isBlankOnly [] = true := rfl
          have h := Text.trim_between (c := 'l') (s := "ang: ") hlead htail (by decide) hvalue.ne_nil hvalue.trimEnd_eq
          rw [List.append_nil] at h
          exact h
        have hblank : Text.isBlankOnly (' ' :: l) = false := hvalue.isBlankOnly
        rw [languageOf?, htrim, if_neg (by simp), Text.after?_append]
        simp only [hblank, Bool.false_eq_true, if_false, Text.trim_cons_blank (show isBlank ' ' = true by decide),
          hvalue.trim_eq, hrest]
      rw [hclause]
      rcases hgap with rfl | rfl
      · refine ⟨_, by rw [List.append_nil]; rfl, ?_⟩
        rw [List.splitOn_eq_singleton hitem]
        exact hread [] fun _ => rfl
      · refine ⟨((" lang: " : Text) ++ l) ++ ',' :: [' '], rfl, ?_⟩
        rw [List.splitOn_append_cons_self, List.splitOn_eq_singleton hitem]
        exact hread _ fun _ => rfl

theorem separator_notMem_of_mem_clauseWords (h : word ∈ clauseWords) :
    '[' ∉ word ∧ ']' ∉ word ∧ ',' ∉ word ∧ ' ' ∉ word ∧ ¬word <:+: [] ∧ ¬word <:+: "lang:".toList := by
  revert word
  decide

/-- Neither options nor a git clause begin in what is included. -/
theorem not_infix_front (hd : d.IsPlain) (word : Text) (hword : word ∈ clauseWords) : ¬word <:+: d.front := by
  obtain ⟨hopen, hclose, hcomma, hblank, hnil, hlang⟩ := separator_notMem_of_mem_clauseWords hword
  have htarget : ¬word <:+: d.path ++ d.subset.written := by
    rcases hd.subset.eq_whole_or with hwhole | ⟨selector, hwritten, -, -, -, -, hselector⟩
    · rw [hwhole, Subset.written, List.append_nil]
      exact hd.path_words word hword
    · rw [hwritten, Text.infix_append_cons_iff hopen, Text.infix_append_cons_iff hclose]
      simp only [hd.path_words word hword, hselector word hword, hnil, or_self, not_false_eq_true]
  rw [Directive.front, Directive.languageClause]
  cases hlanguage : d.language with
  | none => simpa using htarget
  | some l =>
      have hl := (hd.language l hlanguage).2.2 word hword
      have hclause : d.path ++ d.subset.written ++ ((", lang: " : Text) ++ l) =
          d.path ++ d.subset.written ++ ',' :: ([] ++ ' ' :: ("lang:".toList ++ ' ' :: l)) := rfl
      rw [Option.map_some, Option.getD_some, hclause, Text.infix_append_cons_iff hcomma, Text.infix_append_cons_iff hblank,
        Text.infix_append_cons_iff hblank]
      simp only [htarget, hnil, hlang, hl, or_self, not_false_eq_true]

/-- What is left of the options when they have been taken off. -/
def Directive.gap (d : Directive) : Text := if d.options = none then [] else ", "

theorem takeOptions_optionsClause (hd : d.IsPlain) : takeOptions (d.front ++ d.optionsClause) = (d.options, d.front ++ d.gap) := by
  have hfront := not_infix_front hd "options:" (by decide)
  cases hoptions : d.options with
  | none =>
      rw [Directive.optionsClause, Directive.gap, hoptions, Option.map_none, Option.getD_none, List.append_nil, takeOptions,
        Text.cut?_eq_none hfront, if_pos rfl, List.append_nil]
  | some o =>
      obtain ⟨hvalue, -⟩ := hd.options o hoptions
      have hword : ¬("options:" : Text) <:+: d.front ++ [','] := by
        rw [Text.infix_append_cons_iff (by decide)]
        simp only [hfront, false_or]
        decide
      have hclause : d.front ++ d.optionsClause = (d.front ++ [',']) ++ ' ' :: (("options:" : Text) ++ ' ' :: o) := by
        rw [Directive.optionsClause, hoptions, List.append_assoc]
        rfl
      have hcut : Text.cut? "options:" (d.front ++ d.optionsClause) = some (d.front ++ ", ", ' ' :: o) := by
        rw [hclause, Text.cut?_append_of_not_infix (by decide) hword, Text.cut?_append_self (by decide)]
        simp
      rw [takeOptions, hcut, Directive.gap, hoptions]
      simp [Text.trim_cons_blank (show isBlank ' ' = true by decide), hvalue.trim_eq, hvalue.ne_nil]

/-- Without its revision a directive is read back. -/
theorem body?_eq (hd : d.IsPlain) {inner : Text} (h : takeRevision [] inner = (d.revision, d.front ++ d.optionsClause)) :
    body? inner = some d := by
  have hgap : d.gap = [] ∨ d.gap = ", ".toList := by
    unfold Directive.gap
    split
    · exact .inl rfl
    · exact .inr rfl
  obtain ⟨attributes, hattributes, hlanguage⟩ := exists_attributes hd hgap
  have hsplit : splitTarget? 0 (d.front ++ d.gap) = some (d.path ++ d.subset.written, attributes) := by
    rw [Directive.front, List.append_assoc, splitTarget?_target hd, hattributes]
    simp only [Option.map_some, List.append_nil]
  rw [body?, h]
  simp only [takeOptions_optionsClause hd, hsplit, Option.bind_eq_bind, Option.bind_some, hlanguage, target?_written hd,
    if_neg hd.path.ne_nil]

theorem lineFeed_notMem_written (hd : d.IsPlain) (revisionFirst : Bool) : '\n' ∉ d.written revisionFirst := by
  have hpath := hd.path.lineFeed
  have hsubset : '\n' ∉ d.subset.written := by
    rcases hd.subset.eq_whole_or with hwhole | ⟨selector, hwritten, hvalue, -⟩
    · rw [hwhole]
      exact List.not_mem_nil
    · simp [hwritten, hvalue.lineFeed]
  have hlanguage : '\n' ∉ d.languageClause := by
    cases hlanguage : d.language with
    | none => simp [Directive.languageClause, hlanguage]
    | some l => simp [Directive.languageClause, hlanguage, (hd.language l hlanguage).1.lineFeed]
  have hoptions : '\n' ∉ d.optionsClause := by
    cases hoptions : d.options with
    | none => simp [Directive.optionsClause, hoptions]
    | some o => simp [Directive.optionsClause, hoptions, (hd.options o hoptions).1.lineFeed]
  have hrevision : '\n' ∉ d.revisionClause := by
    cases hrevision : d.revision with
    | none => simp [Directive.revisionClause, hrevision]
    | some r =>
        have hr := hd.revision r hrevision
        unfold Directive.revisionClause Revision.written
        simp [hrevision, hr.tag.lineFeed, hr.repo.lineFeed]
  rw [Directive.written, Directive.front]
  cases revisionFirst <;> simp [hpath, hsubset, hlanguage, hoptions, hrevision]

end Parts

section Lines

variable {d : Directive} {lead tail : Text}

/-- Blanks around a directive do not matter. -/
theorem inner?_line (hd : d.IsPlain) (hlead : Text.isBlankOnly lead = true) (htail : Text.isBlankOnly tail = true)
    (revisionFirst : Bool) : inner? (lead ++ d.line revisionFirst ++ tail) = some (d.written revisionFirst) := by
  have hline : d.line revisionFirst =
      '%' :: (("= <<(" : Text) ++ d.written revisionFirst) ++ (")" : Text) := rfl
  have htrim : Text.trim (lead ++ d.line revisionFirst ++ tail) =
      ("%=" : Text) ++ ((" " : Text) ++ (("<<(" : Text) ++ (d.written revisionFirst ++ (")" : Text)))) := by
    rw [hline, Text.trim_between hlead htail (by decide) (by decide) (by decide)]
    simp
  have hopened := after?_trimStart (b := " ") rfl "<<(" (by decide)
  rw [inner?, htrim]
  simp only [Text.after?_append, Option.bind_eq_bind, Option.bind_some, hopened, Text.before?_append,
    if_neg (lineFeed_notMem_written hd revisionFirst)]

/-- A git clause begins only in the options. -/
theorem not_infix_append_options (hd : d.IsPlain) : ¬("git:" : Text) <:+: d.front ++ (", options:" : Text) := by
  have hclause : d.front ++ (", options:" : Text) = d.front ++ ',' :: ([] ++ ' ' :: ("options:" : Text)) := rfl
  rw [hclause, Text.infix_append_cons_iff (by decide), Text.infix_append_cons_iff (by decide)]
  simp only [not_infix_front hd "git:" (by decide), false_or]
  decide

theorem optionsClause_eq {o : Text} (h : d.options = some o) :
    d.front ++ d.optionsClause = (d.front ++ (", options:" : Text)) ++ ' ' :: o := by
  rw [Directive.optionsClause, h, List.append_assoc]
  rfl

theorem not_holdsClause_options (hd : d.IsPlain) : ¬HoldsClause (d.front ++ d.optionsClause) := by
  cases hoptions : d.options with
  | none =>
      rw [Directive.optionsClause, hoptions, Option.map_none, Option.getD_none, List.append_nil]
      exact not_holdsClause (not_infix_front hd "git:" (by decide))
  | some o =>
      rw [optionsClause_eq hoptions]
      exact fun h => (hd.options o hoptions).2 (h.of_append (not_infix_append_options hd))

theorem leavesOpen_options_iff (hd : d.IsPlain) :
    LeavesOpen (d.front ++ d.optionsClause) ↔ ∃ o ∈ d.options, LeavesOpen o := by
  cases hoptions : d.options with
  | none =>
      rw [Directive.optionsClause, hoptions, Option.map_none, Option.getD_none, List.append_nil]
      simpa using not_leavesOpen (not_infix_front hd "git:" (by decide))
  | some o =>
      rw [optionsClause_eq hoptions]
      have hopen : LeavesOpen (d.front ++ (", options:" : Text) ++ ' ' :: o) ↔ LeavesOpen o :=
        ⟨LeavesOpen.of_append (not_infix_append_options hd), fun h => List.append_cons _ ' ' o ▸ h.append_left _⟩
      simpa using hopen

/-- The revision of a directive is the first git clause. -/
theorem revision_of_body? {inner : Text} (h : body? inner = some d) : (takeRevision [] inner).1 = d.revision := by
  simp only [body?, Option.bind_eq_bind, Option.bind_eq_some_iff] at h
  obtain ⟨⟨target, attributes⟩, -, language, -, ⟨path, subset⟩, -, hd⟩ := h
  split at hd
  · cases hd
  · rw [← Option.some.inj hd]

/-- A directive that is written is read back, unless its options leave a git clause open before the revision. -/
theorem readsBack_iff (hd : d.IsPlain) (hlead : Text.isBlankOnly lead = true) (htail : Text.isBlankOnly tail = true)
    (revisionFirst : Bool) :
    directive? (lead ++ d.line revisionFirst ++ tail) = some (.ok d) ↔ d.IsClosed revisionFirst := by
  have hbody : directive? (lead ++ d.line revisionFirst ++ tail) = some (.ok d) ↔
      body? (d.written revisionFirst) = some d := by
    rw [directive?, inner?_line hd hlead htail, Option.map_some]
    cases body? (d.written revisionFirst) <;> simp
  rw [hbody]
  cases hrevision : d.revision with
  | none =>
      have hclosed : d.IsClosed revisionFirst := fun _ hsome => absurd hrevision hsome
      refine iff_of_true (body?_eq hd ?_) hclosed
      have hwritten : d.written revisionFirst = d.front ++ d.optionsClause := by
        cases revisionFirst <;> simp [Directive.written, Directive.revisionClause, hrevision]
      rw [hwritten, hrevision]
      exact takeRevision_of_not_holdsClause (not_holdsClause_options hd)
  | some r =>
      have hr := hd.revision r hrevision
      have hclause : d.revisionClause = ',' :: ' ' :: r.written := by
        rw [Directive.revisionClause, hrevision]
        rfl
      have hfront := not_infix_front hd "git:" (by decide)
      cases revisionFirst with
      | true =>
          have hclosed : d.IsClosed true := nofun
          refine iff_of_true (body?_eq hd ?_) hclosed
          have hwritten : d.written true = d.front ++ ',' :: ' ' :: (r.written ++ d.optionsClause) := by
            simp [Directive.written, hclause]
          rw [hwritten, hrevision]
          exact takeRevision_written hr (not_holdsClause hfront) (not_leavesOpen hfront) _
      | false =>
          have hwritten : d.written false = d.front ++ d.optionsClause ++ ',' :: ' ' :: (r.written ++ []) := by
            simp [Directive.written, hclause]
          have hclosed : d.IsClosed false ↔ ¬LeavesOpen (d.front ++ d.optionsClause) := by
            rw [leavesOpen_options_iff hd]
            simp [Directive.IsClosed, hrevision]
          rw [hclosed]
          constructor
          · intro hread hopen
            obtain ⟨r', hr', hlonger⟩ := takeRevision_of_leavesOpen (not_holdsClause_options hd) hopen hr [] []
            rw [← hwritten, revision_of_body? hread, hrevision] at hr'
            exact absurd hlonger (Option.some.inj hr' ▸ Nat.lt_irrefl _)
          · intro hopen
            refine body?_eq hd ?_
            rw [hwritten, hrevision, takeRevision_written hr (not_holdsClause_options hd) hopen, List.append_nil]

end Lines

/-- A directive with all its clauses; that `git:` stands in the options does not matter. -/
def numbered : Directive :=
  ⟨"src/main.rs", .lines "1, 3-5", some "rust", some "title=git: {on}, numbers", some ⟨"v1.0", "../other repo"⟩⟩

theorem isPlain_numbered : numbered.IsPlain := by decide +kernel

/-- Reading a directive with its revision after the options, between blanks. -/
theorem readsBack_numbered : numbered.IsPlain ∧ numbered.IsClosed false ∧
    directive? ((" " : Text) ++ numbered.line false ++ ("\t" : Text)) = some (.ok numbered) := by
  have hclosed : numbered.IsClosed false := fun _ _ => by decide +kernel
  exact ⟨isPlain_numbered, hclosed, (readsBack_iff isPlain_numbered rfl rfl false).mpr hclosed⟩

/-- A directive whose options begin like a git clause. -/
def unclosed : Directive := ⟨"a", .whole, none, some "git: \x7btag: x, repo: y", some ⟨"T", "R"⟩⟩

theorem isPlain_unclosed : unclosed.IsPlain := by decide +kernel

/-- Options that leave a git clause open take in the one after them. -/
theorem directive?_unclosed :
    directive? (unclosed.line false) = some (.ok ⟨"a", .whole, none, none, some ⟨"x", "y, git: \x7btag: T, repo: R"⟩⟩) := by
  decide +kernel

/-- Not every directive that is written is read back. -/
theorem not_forall_readsBack : ¬∀ (d : Directive) (revisionFirst : Bool) (lead tail : Text), d.IsPlain →
    Text.isBlankOnly lead = true → Text.isBlankOnly tail = true →
      directive? (lead ++ d.line revisionFirst ++ tail) = some (.ok d) := by
  intro h
  have hread := h unclosed false [] [] isPlain_unclosed rfl rfl
  rw [List.nil_append, List.append_nil, directive?_unclosed] at hread
  cases hread

end Manuscript.Inclusion
