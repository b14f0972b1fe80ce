import Manuscript.Proofs.Source.Passages
import Manuscript.Source.Tokens

/-!
Which manuscripts can be read.  A manuscript splits into lines by themselves and environments with opaque bodies,
in which the markers of the environment's own name are balanced.

Main statement: a manuscript can be read if and only if it splits as a whole, and otherwise the error is about the
line where the longest split of a part ends (`tokenize_of_annotationsHold`).
-/

namespace Manuscript.Source

/-- Does the line begin an environment of the name? -/
def begins (name line : Text) : Bool := begin? line = some name

/-- Does the line end an environment of the name? -/
def ends (name line : Text) : Bool := end? line = some name

/-- The lines close what they open and `inner` environments that were open before, in every order but none too
early. -/
structure Closes (name : Text) (inner : Nat) (body : List Text) : Prop where
  sane : ∀ before, before <+: body → before.countP (ends name) ≤ before.countP (begins name) + inner
  settled : body.countP (ends name) = body.countP (begins name) + inner

/-- The markers of the name are balanced: no end comes without a begin before it, and no begin stays open. -/
def Balanced (name : Text) (body : List Text) : Prop := Closes name 0 body

/-- A part of a manuscript: a line by itself, or an environment with an opaque body. -/
inductive Segment where
  | plain (line : Text)
  | block (name first : Text) (body : List Text) (last : Text)

namespace Segment

/-- The lines of a segment. -/
def lines : Segment → List Text
  | .plain line => [line]
  | .block _ first body last => first :: body ++ [last]

/-- A line by itself is no marker of an environment with an opaque body, and such an environment stands between
its markers and has a balanced body. -/
def Valid : Segment → Prop
  | .plain line => ∀ name, isCaptured name = true → begin? line ≠ some name ∧ end? line ≠ some name
  | .block name first body last =>
    isCaptured name = true ∧ begin? first = some name ∧ Balanced name body ∧ end? last = some name

end Segment

/-- Valid segments make up the start of some lines, and `rest` is left. -/
structure Starts (segments : List Segment) (lines rest : List Text) : Prop where
  valid : ∀ s ∈ segments, s.Valid
  lines_eq : lines = segments.flatMap Segment.lines ++ rest

theorem end?_eq_none_of_begin? {line name : Text} (h : begin? line = some name) : end? line = none := by
  simp only [begin?, marker?, Option.bind_eq_bind, Option.bind_eq_some_iff] at h
  obtain ⟨after, hafter, -⟩ := h
  unfold end? marker?
  rw [Text.eq_append_of_after? hafter]
  rfl

theorem begin?_eq_none_of_annotation {line : Text} (h : Text.startsWith "%=" (Text.trimStart line) = true) :
    begin? line = none ∧ end? line = none := by
  obtain ⟨after, hafter⟩ := Option.isSome_iff_exists.mp h
  unfold begin? end? marker?
  rw [Text.eq_append_of_after? hafter]
  exact ⟨rfl, rfl⟩

/-- A line in front changes how many environments are open before the rest. -/
theorem closes_cons_iff {name line : Text} {inner inner' : Nat} {body : List Text}
    (h : inner' + [line].countP (ends name) = inner + [line].countP (begins name)) :
    Closes name inner (line :: body) ↔ Closes name inner' body := by
  have hcount : ∀ (p : Text → Bool) (t : List Text), (line :: t).countP p = [line].countP p + t.countP p :=
    fun p t => @List.countP_append _ p [line] t
  constructor
  · intro hclose
    constructor
    · intro before hbefore
      have hsane := hclose.sane (line :: before) ((List.prefix_cons_inj line).mpr hbefore)
      rw [hcount (ends name) before, hcount (begins name) before] at hsane
      omega
    · have hsettled := hclose.settled
      rw [hcount (ends name) body, hcount (begins name) body] at hsettled
      omega
  · intro hclose
    constructor
    · intro before hbefore
      rcases List.prefix_cons_iff.mp hbefore with rfl | ⟨t, rfl, ht⟩
      · simp
      · have hsane := hclose.sane t ht
        rw [hcount (ends name) t, hcount (begins name) t]
        omega
    · have hsettled := hclose.settled
      rw [hcount (ends name) body, hcount (begins name) body]
      omega

theorem closes_cons_begin {name line : Text} {inner : Nat} {body : List Text} (h : begin? line = some name) :
    Closes name inner (line :: body) ↔ Closes name (inner + 1) body := by
  apply closes_cons_iff
  have hend := end?_eq_none_of_begin? h
  simp [begins, ends, h, hend]

theorem closes_cons_end {name line : Text} {inner : Nat} {body : List Text} (hbegin : begin? line ≠ some name)
    (hend : end? line = some name) : Closes name (inner + 1) (line :: body) ↔ Closes name inner body := by
  apply closes_cons_iff
  simp [begins, ends, hbegin, hend]

theorem closes_cons_of_ne {name line : Text} {inner : Nat} {body : List Text} (hbegin : begin? line ≠ some name)
    (hend : end? line ≠ some name) : Closes name inner (line :: body) ↔ Closes name inner body := by
  apply closes_cons_iff
  simp [begins, ends, hbegin, hend]

theorem closes_nil_iff {name : Text} {inner : Nat} : Closes name inner [] ↔ inner = 0 := by
  constructor
  · intro hclose
    simpa using hclose.settled.symm
  · rintro rfl
    exact ⟨fun before hbefore => by simp [List.prefix_nil.mp hbefore], by simp⟩

theorem not_closes_zero_cons_end {name line : Text} {body : List Text} (hbegin : begin? line ≠ some name)
    (hend : end? line = some name) : ¬Closes name 0 (line :: body) := by
  intro hclose
  have hsane := hclose.sane [line] ((List.prefix_cons_inj line).mpr List.nil_prefix)
  simp [begins, ends, hbegin, hend] at hsane

/-- Looking for the end marker finds the first body that closes all that is open. -/
theorem body?_eq_some_iff {name : Text} {inner : Nat} {lines body rest : List Text} {last : Text} :
    body? name inner lines = some (body, last, rest) ↔
      lines = body ++ last :: rest ∧ Closes name inner body ∧ end? last = some name := by
  induction lines generalizing inner body with
  | nil => simp [body?]
  | cons line lines ih =>
      -- A line that belongs to the body, after which `n` environments are open.
      have hadd : ∀ {n : Nat}, (∀ t, Closes name inner (line :: t) ↔ Closes name n t) →
          ¬(Closes name inner [] ∧ end? line = some name) →
            ((body? name n lines).map (fun split => (line :: split.1, split.2)) = some (body, last, rest) ↔
              line :: lines = body ++ last :: rest ∧ Closes name inner body ∧ end? last = some name) := by
        intro n hcons hempty
        rw [Option.map_eq_some_iff]
        constructor
        · rintro ⟨⟨body', last', rest'⟩, hbody, heq⟩
          obtain ⟨rfl, rfl, rfl⟩ := by simpa using heq
          obtain ⟨rfl, hclose, hend⟩ := ih.mp hbody
          exact ⟨rfl, (hcons body').mpr hclose, hend⟩
        · rintro ⟨hlines, hclose, hend⟩
          cases body with
          | nil =>
              obtain ⟨rfl, -⟩ := by simpa using hlines
              exact absurd ⟨hclose, hend⟩ hempty
          | cons first body =>
              obtain ⟨rfl, rfl⟩ := by simpa using hlines
              exact ⟨(body, last, rest), ih.mpr ⟨rfl, (hcons body).mp hclose, hend⟩, rfl⟩
      simp only [body?]
      split
      · rename_i hbegin
        refine hadd (fun t => closes_cons_begin hbegin) ?_
        simp [end?_eq_none_of_begin? hbegin]
      · rename_i hbegin
        split
        · rename_i hend
          cases inner with
          | zero =>
              constructor
              · intro heq
                obtain ⟨rfl, rfl, rfl⟩ := by simpa using heq
                exact ⟨rfl, closes_nil_iff.mpr rfl, hend⟩
              · rintro ⟨hlines, hclose, -⟩
                cases body with
                | nil =>
                    obtain ⟨rfl, rfl⟩ := by simpa using hlines
                    rfl
                | cons first body =>
                    obtain ⟨rfl, -⟩ := by simpa using hlines
                    exact absurd hclose (not_closes_zero_cons_end hbegin hend)
          | succ inner =>
              refine hadd (fun t => closes_cons_end hbegin hend) fun hempty => ?_
              exact absurd (closes_nil_iff.mp hempty.1) (Nat.succ_ne_zero inner)
        · rename_i hend
          exact hadd (fun t => closes_cons_of_ne hbegin hend) fun hempty => hend hempty.2

theorem body?_append {name last : Text} {body : List Text} (hbody : Balanced name body)
    (hend : end? last = some name) (rest : List Text) : body? name 0 (body ++ last :: rest) = some (body, last, rest) :=
  body?_eq_some_iff.mpr ⟨rfl, hbody, hend⟩

/-- No marked line of the options is missing in an environment that the lines start with and that code can
stand in. -/
def InRange (o : Highlight.Options) (lines : List Text) : Prop :=
  ∀ name first body last after, lines = Segment.lines (.block name first body last) ++ after →
    Segment.Valid (.block name first body last) → name ∈ literalEnvironments →
      o.outOfRange? (Text.lines (Text.unlines body)).length = none

/-- The options of every hint that stands in a line by itself can be read, and the marked lines are there if a code
block follows. -/
def AnnotationsHold (lines : List Text) : Prop :=
  ∀ before line rest, Starts before lines (line :: rest) → ∀ language options,
    hint? line = some (language, options) → ∃ o, Highlight.Options.parse? options = some o ∧ InRange o rest

/-- What is wrong with a line by itself, and the error about it. -/
inductive Fault (line : Text) (rest : List Text) (number : Nat) : Error → Prop
  | unterminated {name : Text} (hcaptured : isCaptured name = true) (hbegin : begin? line = some name)
      (hopen : ∀ body last after, rest = body ++ last :: after → end? last = some name → ¬Balanced name body) :
      Fault line rest number (.unterminated name number)
  | unbalanced {name : Text} (hcaptured : isCaptured name = true) (hend : end? line = some name) :
      Fault line rest number (.unbalanced name number)

theorem code_mem_literalEnvironments : ("code" : Text) ∈ literalEnvironments := by
  decide

theorem isCaptured_iff {name : Text} : isCaptured name = true ↔ name ∈ literalEnvironments ∨ name ∈ mathEnvironments := by
  simp [isCaptured]

/-- The environments with a category are those whose bodies are cached, hinted or not. -/
theorem isSome_category?_iff {name : Text} {isHinted : Bool} :
    (category? name isHinted).isSome = true ↔ isCaptured name = true := by
  rw [isCaptured_iff]
  unfold category?
  split
  · rename_i hcode
    refine iff_of_true rfl (Or.inl ?_)
    rcases hcode with rfl | ⟨-, hmem⟩
    · exact code_mem_literalEnvironments
    · exact hmem
  · split
    · rename_i hmem
      exact iff_of_true rfl (Or.inl hmem)
    · rename_i hliteral
      split
      · rename_i hmath
        exact iff_of_true rfl (Or.inr hmath)
      · rename_i hmath
        exact iff_of_false Bool.false_ne_true (not_or.mpr ⟨hliteral, hmath⟩)

theorem mem_literalEnvironments_of_code {name : Text} {isHinted : Bool}
    (h : category? name isHinted = some .code) : name ∈ literalEnvironments := by
  unfold category? at h
  split at h
  · rename_i hcode
    rcases hcode with rfl | ⟨-, hmem⟩
    · exact code_mem_literalEnvironments
    · exact hmem
  · split at h
    · cases h
    · split at h <;> cases h

theorem of_opened?_eq_some {c : Context} {line name : Text} {category : Category}
    (h : opened? c line = some (name, category)) :
    begin? line = some name ∧ isCaptured name = true ∧ category? name c.hint.isSome = some category := by
  simp only [opened?, Option.bind_eq_bind, Option.bind_eq_some_iff] at h
  obtain ⟨name', hbegin, category', hcategory, heq⟩ := h
  obtain ⟨rfl, rfl⟩ := by simpa using heq
  exact ⟨hbegin, isSome_category?_iff.mp (Option.isSome_of_eq_some hcategory), hcategory⟩

theorem begin?_ne_of_opened? {c : Context} {line name : Text} (h : opened? c line = none)
    (hname : isCaptured name = true) : begin? line ≠ some name := by
  intro hbegin
  have hsome : (category? name c.hint.isSome).isSome = true := isSome_category?_iff.mpr hname
  obtain ⟨category, hcategory⟩ := Option.isSome_iff_exists.mp hsome
  simp [opened?, hbegin, hcategory] at h

theorem end?_ne_of_filter {line name : Text} (h : (end? line).filter isCaptured = none)
    (hname : isCaptured name = true) : end? line ≠ some name := by
  intro hend
  simp [hend, hname] at h

namespace Segment

/-- Lines start with one valid segment at most. -/
theorem Valid.unique {s s' : Segment} (hs : s.Valid) (hs' : s'.Valid) {rest rest' : List Text}
    (h : s.lines ++ rest = s'.lines ++ rest') : s = s' ∧ rest = rest' := by
  cases s with
  | plain line =>
      cases s' with
      | plain line' =>
          obtain ⟨rfl, rfl⟩ := by simpa [lines] using h
          exact ⟨rfl, rfl⟩
      | block name first body last =>
          obtain ⟨rfl, -⟩ := by simpa [lines] using h
          exact absurd hs'.2.1 (hs name hs'.1).1
  | block name first body last =>
      cases s' with
      | plain line =>
          obtain ⟨rfl, -⟩ := by simpa [lines] using h
          exact absurd hs.2.1 (hs' name hs.1).1
      | block name' first' body' last' =>
          obtain ⟨rfl, hlines⟩ : first = first' ∧ body ++ last :: rest = body' ++ last' :: rest' := by
            simpa [lines] using h
          obtain ⟨-, hbegin, hbody, hend⟩ := hs
          obtain ⟨-, hbegin', hbody', hend'⟩ := hs'
          obtain rfl := Option.some.inj (hbegin.symm.trans hbegin')
          have hfound := body?_append hbody hend rest
          rw [hlines, body?_append hbody' hend' rest'] at hfound
          obtain ⟨rfl, rfl, rfl⟩ := by simpa using hfound
          exact ⟨rfl, rfl⟩

end Segment

theorem Starts.nil (lines : List Text) : Starts [] lines lines :=
  ⟨by simp, rfl⟩

theorem starts_cons_iff {s : Segment} {segments : List Segment} {lines rest : List Text} :
    Starts (s :: segments) lines rest ↔
      ∃ later, s.Valid ∧ lines = s.lines ++ later ∧ Starts segments later rest := by
  constructor
  · rintro ⟨hvalid, rfl⟩
    have hrest := fun t ht => hvalid t (List.mem_cons_of_mem s ht)
    exact ⟨_, hvalid s List.mem_cons_self, by simp, hrest, rfl⟩
  · rintro ⟨later, hs, rfl, hvalid, rfl⟩
    exact ⟨List.forall_mem_cons.mpr ⟨hs, hvalid⟩, by simp⟩

/-- Of two starts of the same lines one goes on from the other. -/
theorem Starts.prefix_or_starts {before other : List Segment} {lines rest after : List Text}
    (h : Starts before lines rest) (h' : Starts other lines after) :
    other <+: before ∨ ∃ s more, Starts (s :: more) rest after := by
  induction before generalizing other lines with
  | nil =>
      obtain rfl : lines = rest := h.lines_eq
      cases other with
      | nil => exact Or.inl (List.prefix_refl [])
      | cons s more => exact Or.inr ⟨s, more, h'⟩
  | cons s before ih =>
      obtain ⟨later, hs, rfl, hbefore⟩ := starts_cons_iff.mp h
      cases other with
      | nil => exact Or.inl List.nil_prefix
      | cons s' other =>
          obtain ⟨later', hs', hlines, hother⟩ := starts_cons_iff.mp h'
          obtain ⟨rfl, rfl⟩ := hs.unique hs' hlines
          rcases ih hbefore hother with hinitial | hmore
          · exact Or.inl ((List.prefix_cons_inj s).mpr hinitial)
          · exact Or.inr hmore

theorem AnnotationsHold.later {s : Segment} (hs : s.Valid) {rest : List Text}
    (h : AnnotationsHold (s.lines ++ rest)) : AnnotationsHold rest := by
  intro before line after hbefore
  exact h (s :: before) line after (starts_cons_iff.mpr ⟨rest, hs, rfl, hbefore⟩)

/-- At a fault no segment starts. -/
theorem Fault.not_starts {line : Text} {rest : List Text} {number : Nat} {e : Error}
    (h : Fault line rest number e) {s : Segment} {more : List Segment} {after : List Text} :
    ¬Starts (s :: more) (line :: rest) after := by
  intro hstarts
  obtain ⟨later, hs, hlines, -⟩ := starts_cons_iff.mp hstarts
  cases h with
  | unterminated hcaptured hbegin hopen =>
      cases s with
      | plain line' =>
          obtain ⟨rfl, -⟩ := by simpa [Segment.lines] using hlines
          exact (hs _ hcaptured).1 hbegin
      | block name first body last =>
          obtain ⟨rfl, rfl⟩ : line = first ∧ rest = body ++ last :: later := by
            simpa [Segment.lines] using hlines
          obtain ⟨-, hbegin', hbody, hend⟩ := hs
          obtain rfl := Option.some.inj (hbegin.symm.trans hbegin')
          exact hopen body last later rfl hend hbody
  | unbalanced hcaptured hend =>
      cases s with
      | plain line' =>
          obtain ⟨rfl, -⟩ := by simpa [Segment.lines] using hlines
          exact (hs _ hcaptured).2 hend
      | block name first body last =>
          obtain ⟨rfl, -⟩ := by simpa [Segment.lines] using hlines
          rw [end?_eq_none_of_begin? hs.2.1] at hend
          cases hend

/-- The hint before some lines, if there is one, marks no line that is missing. -/
def Context.HintHolds (c : Context) (lines : List Text) : Prop :=
  ∀ hint, c.hint = some hint → InRange hint.options lines

theorem Context.hintHolds_of_eq_none {c : Context} (h : c.hint = none) (lines : List Text) : c.HintHolds lines := by
  intro hint hhint
  rw [h] at hhint
  cases hhint

theorem plain_valid_of_annotation {line : Text} (h : Text.startsWith "%=" (Text.trimStart line) = true) :
    (Segment.plain line).Valid := by
  obtain ⟨hbegin, hend⟩ := begin?_eq_none_of_annotation h
  intro name _
  rw [hbegin, hend]
  exact ⟨nofun, nofun⟩

theorem startsWith_of_hint? {line : Text} {hint : Text × Text} (h : hint? line = some hint) :
    Text.startsWith "%=" (Text.trimStart line) = true := by
  by_contra hline
  rw [hint?_eq_none (Bool.of_not_eq_true hline)] at h
  cases h

theorem startsWith_of_rawHtml? {line html : Text} (h : rawHtml? line = some html) :
    Text.startsWith "%=" (Text.trimStart line) = true := by
  by_contra hline
  rw [rawHtml?_eq_none (Bool.of_not_eq_true hline)] at h
  cases h

/-- What is read next is a valid segment. -/
theorem segment_of_next {c c' : Context} {line : Text} {rest rest' : List Text} {p : Passage}
    (hannotations : AnnotationsHold (line :: rest)) (h : next c line rest = .ok (p, c', rest')) :
    ∃ s : Segment, s.Valid ∧ line :: rest = s.lines ++ rest' ∧ c'.line = c.line + s.lines.length ∧
      c'.HintHolds rest' := by
  cases reads_of_next h with
  | hint hhint hoptions =>
      obtain ⟨o, ho, hrange⟩ := hannotations [] line rest (.nil _) _ _ hhint
      obtain rfl := Option.some.inj (hoptions.symm.trans ho)
      refine ⟨.plain line, plain_valid_of_annotation (startsWith_of_hint? hhint), rfl, rfl, ?_⟩
      intro hint heq
      obtain rfl := Option.some.inj heq
      exact hrange
  | rawHtml hhint hhtml =>
      have hvalid := plain_valid_of_annotation (startsWith_of_rawHtml? hhtml)
      exact ⟨.plain line, hvalid, rfl, rfl, Context.hintHolds_of_eq_none rfl rest⟩
  | block hhint hhtml hopened hbody hread =>
      obtain ⟨hbegin, hcaptured, -⟩ := of_opened?_eq_some hopened
      obtain ⟨rfl, hbalanced, hend⟩ := body?_eq_some_iff.mp hbody
      refine ⟨.block _ line _ _, ⟨hcaptured, hbegin, hbalanced, hend⟩, ?_, ?_, Context.hintHolds_of_eq_none rfl rest'⟩
      · simp [Segment.lines]
      · simp [Segment.lines, Context.advance]
  | line hhint hhtml hopened hended =>
      have hvalid : (Segment.plain line).Valid :=
        fun name hname => ⟨begin?_ne_of_opened? hopened hname, end?_ne_of_filter hended hname⟩
      exact ⟨.plain line, hvalid, rfl, c.line_pass line, Context.hintHolds_of_eq_none (c.hint_pass line) rest⟩

theorem outOfRange?_default (available : Nat) : Hint.default.options.outOfRange? available = none := rfl

/-- A block can be read if its marked lines are there. -/
theorem readBlock_ne_error {c : Context} {category : Category} {name first last : Text} {body after : List Text}
    {e : Error} (hcategory : category? name c.hint.isSome = some category)
    (hvalid : (Segment.block name first body last).Valid)
    (hhint : c.HintHolds (first :: (body ++ last :: after))) :
    readBlock c category name first body last ≠ .error e := by
  cases category with
  | literal | math => exact nofun
  | code =>
      have hrange : (c.hint.getD .default).options.outOfRange? (Text.lines (Text.unlines body)).length = none := by
        cases hfound : c.hint with
        | none => exact outOfRange?_default _
        | some hint =>
            refine hhint hint hfound name first body last after ?_ hvalid (mem_literalEnvironments_of_code hcategory)
            simp [Segment.lines]
      simp only [readBlock, hrange]
      exact nofun

/-- What cannot be read is a fault. -/
theorem fault_of_next {c : Context} {line : Text} {rest : List Text} {e : Error}
    (hannotations : AnnotationsHold (line :: rest)) (hhint : c.HintHolds (line :: rest))
    (h : next c line rest = .error e) : Fault line rest c.line e := by
  cases reads_of_next h with
  | invalidOptions hfound hoptions =>
      obtain ⟨o, ho, -⟩ := hannotations [] line rest (.nil _) _ _ hfound
      rw [hoptions] at ho
      cases ho
  | invalidBlock _ _ hopened hbody hread =>
      obtain ⟨hbegin, hcaptured, hcategory⟩ := of_opened?_eq_some hopened
      obtain ⟨rfl, hbalanced, hend⟩ := body?_eq_some_iff.mp hbody
      exact absurd hread (readBlock_ne_error hcategory ⟨hcaptured, hbegin, hbalanced, hend⟩ hhint)
  | unterminated _ _ hopened hbody =>
      obtain ⟨hbegin, hcaptured, -⟩ := of_opened?_eq_some hopened
      refine .unterminated hcaptured hbegin fun body last after hrest hend hbalanced => ?_
      rw [hrest, body?_append hbalanced hend] at hbody
      cases hbody
  | unbalanced _ _ _ hended =>
      obtain ⟨hend, hcaptured⟩ := Option.filter_eq_some_iff.mp hended
      exact .unbalanced hcaptured hend

/-- Passages are read until the lines are used up or a fault is found. -/
theorem starts_of_passages {c : Context} {lines : List Text} (hannotations : AnnotationsHold lines)
    (hhint : c.HintHolds lines) :
    ((passages c lines).2 = none → ∃ segments, Starts segments lines []) ∧
      ∀ e, (passages c lines).2 = some e → ∃ before line rest, Starts before lines (line :: rest) ∧
        Fault line rest (c.line + (before.flatMap Segment.lines).length) e := by
  induction c, lines using passages_induction with
  | nil c => exact ⟨fun _ => ⟨[], .nil []⟩, fun e he => by simp [passages] at he⟩
  | error c line rest e hnext =>
      rw [passages_cons_error hnext]
      constructor
      · intro hnone
        cases hnone
      · intro e' he'
        obtain rfl := Option.some.inj he'
        exact ⟨[], line, rest, .nil _, fault_of_next hannotations hhint hnext⟩
  | ok c line rest p c' rest' hnext ih =>
      obtain ⟨s, hs, hlines, hline, hhint'⟩ := segment_of_next hannotations hnext
      rw [hlines] at hannotations
      obtain ⟨hread, hfault⟩ := ih (hannotations.later hs) hhint'
      rw [passages_cons_ok hnext]
      constructor
      · intro hnone
        obtain ⟨segments, hsegments⟩ := hread hnone
        exact ⟨s :: segments, starts_cons_iff.mpr ⟨rest', hs, hlines, hsegments⟩⟩
      · intro e he
        obtain ⟨before, line', after, hbefore, hwrong⟩ := hfault e he
        refine ⟨s :: before, line', after, starts_cons_iff.mpr ⟨rest', hs, hlines, hbefore⟩, ?_⟩
        rw [hline] at hwrong
        rwa [List.flatMap_cons, List.length_append, ← Nat.add_assoc]

theorem Starts.ne_nil_of_initial {before other : List Segment} {lines rest after : List Text}
    (h : Starts before lines rest) (hrest : rest ≠ []) (h' : Starts other lines after) (hinitial : other <+: before) :
    after ≠ [] := by
  obtain ⟨more, rfl⟩ := hinitial
  have hlines := h.lines_eq
  rw [h'.lines_eq, List.flatMap_append, List.append_assoc, List.append_cancel_left_eq] at hlines
  rw [hlines]
  exact List.append_ne_nil_of_right_ne_nil _ hrest

theorem fst_tokenize (highlighter : Highlighter) (format : Format) (g : Gathered) (source : Text) :
    (passages .start (source.splitOn '\n')).2 = none ∧
        (∃ scanned, (tokenize highlighter format g source).1 = .ok scanned) ∨
      ∃ e, (passages .start (source.splitOn '\n')).2 = some e ∧
        (tokenize highlighter format g source).1 = .error e := by
  unfold tokenize
  cases hread : (passages .start (source.splitOn '\n')).2 with
  | none => exact Or.inl ⟨rfl, _, by simp only [hread]; rfl⟩
  | some e => exact Or.inr ⟨e, rfl, by simp only [hread]⟩

/-- A manuscript whose hints are in order can be read if and only if it splits into lines by themselves and
balanced environments.  If it does not, the error is about the first line that no split of the lines before can go on
with: a marker that opens an environment that is never closed, or one that closes an environment that is not open. -/
theorem tokenize_of_annotationsHold {highlighter : Highlighter} {format : Format} {g : Gathered} {source : Text}
    (hannotations : AnnotationsHold (source.splitOn '\n')) :
    ((∃ scanned, (tokenize highlighter format g source).1 = .ok scanned) ↔
        ∃ segments, Starts segments (source.splitOn '\n') []) ∧
      ∀ e, (tokenize highlighter format g source).1 = .error e →
        ∃ before line rest, Starts before (source.splitOn '\n') (line :: rest) ∧
          (∀ other after, Starts other (source.splitOn '\n') after → other <+: before) ∧
          Fault line rest ((before.flatMap Segment.lines).length + 1) e := by
  obtain ⟨hread, hfault⟩ := starts_of_passages hannotations (Context.hintHolds_of_eq_none (c := .start) rfl _)
  have hlongest : ∀ e, (passages .start (source.splitOn '\n')).2 = some e →
      ∃ before line rest, Starts before (source.splitOn '\n') (line :: rest) ∧
        (∀ other after, Starts other (source.splitOn '\n') after → other <+: before) ∧
        Fault line rest ((before.flatMap Segment.lines).length + 1) e := by
    intro e he
    obtain ⟨before, line, rest, hbefore, hwrong⟩ := hfault e he
    refine ⟨before, line, rest, hbefore, fun other after hother => ?_, by rwa [Nat.add_comm]⟩
    rcases hbefore.prefix_or_starts hother with hinitial | ⟨s, more, hmore⟩
    · exact hinitial
    · exact absurd hmore hwrong.not_starts
  rcases fst_tokenize highlighter format g source with ⟨hnone, scanned, hok⟩ | ⟨e, he, herror⟩
  · refine ⟨iff_of_true ⟨scanned, hok⟩ (hread hnone), fun e herror => ?_⟩
    rw [hok] at herror
    cases herror
  · obtain ⟨before, line, rest, hbefore, hmax, hwrong⟩ := hlongest e he
    constructor
    · refine iff_of_false ?_ ?_
      · rintro ⟨scanned, hok⟩
        rw [herror] at hok
        cases hok
      · rintro ⟨segments, hsegments⟩
        have hinitial := hmax segments [] hsegments
        exact hbefore.ne_nil_of_initial (List.cons_ne_nil line rest) hsegments hinitial rfl
    · intro e' he'
      obtain rfl := Except.error.inj (herror.symm.trans he')
      exact ⟨before, line, rest, hbefore, hmax, hwrong⟩

/-- Hints that mark no lines are in order wherever they stand. -/
theorem annotationsHold_of_forall {lines : List Text}
    (h : ∀ line ∈ lines, ∀ hint ∈ hint? line, ∃ o ∈ Highlight.Options.parse? hint.2, o.markedLines = []) :
    AnnotationsHold lines := by
  intro before line rest hbefore language options hhint
  have hmem : line ∈ lines := by
    rw [hbefore.lines_eq]
    simp
  obtain ⟨o, ho, hnone⟩ := h line hmem (language, options) hhint
  refine ⟨o, ho, fun name first body last after _ _ _ => ?_⟩
  rw [Highlight.Options.outOfRange?, hnone]
  rfl

namespace StrayEnd

/-- An environment with another one of its name inside, and a marker that ends nothing. -/
def source : Text :=
  Text.unlines ["%= lang: ruby", "\\begin\x7bverbatim\x7d", "\\end\x7bcode\x7d", "\\begin\x7bverbatim\x7d",
    "\\end\x7bverbatim\x7d", "\\end\x7bverbatim\x7d", "\\end\x7balign\x7d"]

/-- Nothing is gathered yet. -/
def gathered : Gathered := ⟨Cache.empty "s", .inMemory⟩

theorem annotationsHold : AnnotationsHold (source.splitOn '\n') := by
  apply annotationsHold_of_forall
  decide +kernel

/-- The marker in the seventh line is at fault. -/
theorem unbalanced_seven :
    (¬∃ segments, Starts segments (source.splitOn '\n') []) ∧
      ∃ before line rest, Starts before (source.splitOn '\n') (line :: rest) ∧
        (∀ other after, Starts other (source.splitOn '\n') after → other <+: before) ∧
        Fault line rest ((before.flatMap Segment.lines).length + 1) (.unbalanced "align" 7) := by
  have herror : (tokenize Highlight.plain .markup gathered source).1 = .error (.unbalanced "align" 7) := by
    decide +kernel
  obtain ⟨hiff, hfault⟩ := @tokenize_of_annotationsHold Highlight.plain .markup gathered source annotationsHold
  refine ⟨fun hsegments => ?_, hfault _ herror⟩
  obtain ⟨scanned, hok⟩ := hiff.mpr hsegments
  rw [herror] at hok
  cases hok

end StrayEnd

end Manuscript.Source
