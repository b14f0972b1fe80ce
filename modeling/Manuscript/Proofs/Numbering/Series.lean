import Manuscript.Numbering
import Manuscript.Proofs.Text.Numeral

/-!
What is counted together: the headings of a level, or the floats of a kind.  A number in a series is made up of the
counts of the headings above and of the series itself; what is counted in one of these takes the number forward, and
what is counted elsewhere leaves it as it is.

Main statement: what is counted takes the number of a series forward or leaves it as it is (`Counters.parts_step`).
-/

namespace Manuscript

/-- Some counts come before others when they are less in the first place in which the two differ. -/
def Earlier (counts later : List Nat) : Prop := List.Lex (· < ·) counts later

theorem not_earlier_self (counts : List Nat) : ¬Earlier counts counts :=
  List.lt_irrefl counts

theorem Earlier.trans {counts later last : List Nat} (h : Earlier counts later) (h' : Earlier later last) :
    Earlier counts last :=
  List.lt_trans h h'

/-- What is counted together: the headings of a level, or the floats of a kind. -/
inductive Series where
  | heading (level : Level)
  | float (kind : FloatKind)
  deriving DecidableEq

namespace Series

/-- The kind of what is counted. -/
def kind : Series → Kind
  | .heading level => .heading level
  | .float kind => .float kind

/-- The word for what is counted. -/
def word : Series → Text
  | .heading level => level.name
  | .float kind => kind.name

/-- The id that a number in the series gives. -/
def anchor (series : Series) (number : Text) : Text :=
  series.word ++ "-" ++ number.map fun c => if c = '.' then '-' else c

/-- The series of the headings above: each of them lets the series start anew. -/
def higher : Series → List Series
  | .heading .chapter => []
  | .heading .sect => [.heading .chapter]
  | .heading .subsect => [.heading .chapter, .heading .sect]
  | .heading .subsubsect => [.heading .chapter, .heading .sect, .heading .subsect]
  | .float _ => [.heading .chapter]

/-- The series whose counts make up a number: those above and the series itself, but no chapters in an article. -/
def components (isArticle : Bool) (series : Series) : List Series :=
  (series.higher ++ [series]).filter fun part => !(isArticle && part == .heading .chapter)

theorem not_mem_higher_self (series : Series) : series ∉ series.higher := by
  cases series with
  | heading level => cases level <;> decide
  | float kind => cases kind <;> decide

theorem mem_higher_trans {above part series : Series} (h : above ∈ part.higher) (hpart : part ∈ series.higher) :
    above ∈ series.higher := by
  cases series with
  | heading level => cases level <;> grind [higher]
  | float kind => grind [higher]

theorem mem_components {isArticle : Bool} {part series : Series} :
    part ∈ series.components isArticle ↔
      (part ∈ series.higher ∨ part = series) ∧ (isArticle → part ≠ .heading .chapter) := by
  rw [components, List.mem_filter, List.mem_append, List.mem_singleton]
  cases isArticle <;> simp

/-- The highest component comes first: no later one starts it anew. -/
theorem pairwise_components (isArticle : Bool) (series : Series) :
    (series.components isArticle).Pairwise fun part later => later ∉ part.higher ∧ later ≠ part := by
  cases isArticle <;> rcases series with (_ | _ | _ | _) | (_ | _ | _ | _ | _) <;> decide

variable {isArticle : Bool} {series next : Series} {f g : Series → Nat}

/-- When one component goes forward, and what it does not start anew stays, then the components go forward. -/
theorem earlier_map_components (h : next ∈ series.components isArticle) (hnext : f next < g next)
    (hother : ∀ part, next ∉ part.higher → next ≠ part → g part = f part) :
    Earlier ((series.components isArticle).map f) ((series.components isArticle).map g) := by
  have horder := pairwise_components isArticle series
  obtain ⟨above, below, hsplit⟩ := List.append_of_mem h
  rw [hsplit, List.pairwise_append] at horder
  have habove : above.map f = above.map g := by
    refine List.map_congr_left fun part hpart => ?_
    obtain ⟨hhigher, hne⟩ := horder.2.2 part hpart next List.mem_cons_self
    exact (hother part hhigher hne).symm
  rw [hsplit, List.map_append, List.map_append, List.map_cons, List.map_cons, habove]
  exact List.append_left_lt (.rel hnext)

/-- What is none of the components starts none of them anew. -/
theorem map_components_eq (h : next ∉ series.components isArticle) (hnext : isArticle → next ≠ .heading .chapter)
    (hother : ∀ part, next ∉ part.higher → next ≠ part → g part = f part) :
    (series.components isArticle).map g = (series.components isArticle).map f := by
  refine List.map_congr_left fun part hpart => ?_
  have hpart := (mem_components.mp hpart).1
  apply hother
  · intro habove
    refine h (mem_components.mpr ⟨.inl ?_, hnext⟩)
    obtain hpart | rfl := hpart
    · exact mem_higher_trans habove hpart
    · exact habove
  · rintro rfl
    exact h (mem_components.mpr ⟨hpart, hnext⟩)

end Series

namespace Counters

/-- The count of a series. -/
def count (c : Counters) : Series → UInt32
  | .heading .chapter => c.chapter
  | .heading .sect => c.sect
  | .heading .subsect => c.subsect
  | .heading .subsubsect => c.subsubsect
  | .float kind => c.floats kind

/-- Counts what comes next in a series. -/
def step (c : Counters) (series : Series) (seq : Option Text) : Counters :=
  match series with
  | .heading level => c.enter level
  | .float kind => c.addFloat kind seq

/-- The number of what was last counted in a series. -/
def number (c : Counters) : Series → Text
  | .heading level => c.headingNumber level
  | .float kind => c.floatNumber kind

/-- The counts that make up a number in a series. -/
def parts (c : Counters) (series : Series) : List Nat :=
  (series.components c.isArticle).map fun part => (c.count part).toNat

@[simp] theorem isArticle_step (c : Counters) (series : Series) (seq : Option Text) :
    (c.step series seq).isArticle = c.isArticle := by
  cases series with
  | heading level => cases level <;> rfl
  | float kind => rfl

theorem number_eq_dotted {c : Counters} {series : Series} (h : c.isArticle → series ≠ .heading .chapter) :
    c.number series = Text.dotted (c.parts series) := by
  obtain ⟨isArticle, chapter, sect, subsect, subsubsect, floats⟩ := c
  cases isArticle with
  | false =>
      cases series with
      | heading level => cases level <;> rfl
      | float kind => rfl
  | true =>
      cases series with
      | heading level =>
          cases level with
          | chapter => exact absurd rfl (h rfl)
          | _ => rfl
      | float kind => exact (Text.dotted_singleton (floats kind).toNat).symm

/-- What is counted starts anew what is below it and changes no other series. -/
theorem count_step (c : Counters) (next : Series) (seq : Option Text) (series : Series) :
    (c.step next seq).count series =
      if next ∈ series.higher then 0
      else if next = series then (c.step next seq).count next
      else c.count series := by
  cases next with
  | heading level =>
      cases series with
      | heading other => cases level <;> cases other <;> rfl
      | float kind => cases level <;> rfl
  | float kind =>
      cases series with
      | heading level => cases level <;> rfl
      | float other =>
          by_cases hkind : kind = other
          · simp [Series.higher, hkind]
          · simp [step, count, addFloat, Series.higher, hkind, Ne.symm hkind]

theorem count_step_of_not_mem_higher {c : Counters} {next series : Series} (seq : Option Text)
    (h : next ∉ series.higher) (hne : next ≠ series) : (c.step next seq).count series = c.count series := by
  rw [count_step, if_neg h, if_neg hne]

theorem count_step_self (c : Counters) (series : Series) : (c.step series none).count series = c.count series + 1 := by
  cases series with
  | heading level => cases level <;> rfl
  | float kind =>
      simp only [step, count, addFloat]
      rfl

/-- A count goes forward, unless it has come to the end of what 32 bits hold.  A suggested number is taken only if it
does not lead back. -/
theorem count_lt_count_step {c : Counters} {series : Series} (h : c.count series + 1 ≠ 0) (seq : Option Text) :
    c.count series < (c.step series seq).count series := by
  have hsucc : c.count series < c.count series + 1 := by grind
  cases series with
  | heading level => cases level <;> exact hsucc
  | float kind =>
      simp only [step, count, addFloat] at hsucc ⊢
      cases hn : (seq.bind c.suggested?).filter fun n => c.floats kind + 1 ≤ n with
      | none => exact hsucc
      | some n =>
          have hle := (Option.filter_eq_some_iff.mp hn).2
          simp only [decide_eq_true_eq] at hle
          exact UInt32.lt_of_lt_of_le hsucc hle

/-- What is counted in a component of a series takes the number of the series forward. -/
theorem parts_earlier_step {c : Counters} {next series : Series} (hnext : next ∈ series.components c.isArticle)
    (h : c.count next + 1 ≠ 0) (seq : Option Text) : Earlier (c.parts series) ((c.step next seq).parts series) := by
  unfold parts
  rw [isArticle_step]
  refine Series.earlier_map_components hnext (UInt32.lt_iff_toNat_lt.mp (count_lt_count_step h seq)) ?_
  intro part hhigher hne
  rw [count_step_of_not_mem_higher seq hhigher hne]

/-- What is counted elsewhere leaves it as it is. -/
theorem parts_step_of_not_mem {c : Counters} {next series : Series} (hnext : c.isArticle → next ≠ .heading .chapter)
    (h : next ∉ series.components c.isArticle) (seq : Option Text) :
    (c.step next seq).parts series = c.parts series := by
  unfold parts
  rw [isArticle_step]
  refine Series.map_components_eq h hnext ?_
  intro part hhigher hne
  rw [count_step_of_not_mem_higher seq hhigher hne]

/-- A step takes the number of a series forward or leaves it as it is. -/
theorem parts_step {c : Counters} {next : Series} (hnext : c.isArticle → next ≠ .heading .chapter)
    (h : c.count next + 1 ≠ 0) (seq : Option Text) (series : Series) :
    c.parts series = (c.step next seq).parts series ∨ Earlier (c.parts series) ((c.step next seq).parts series) := by
  by_cases hmem : next ∈ series.components c.isArticle
  · exact .inr (parts_earlier_step hmem h seq)
  · exact .inl (parts_step_of_not_mem hnext hmem seq).symm

end Counters

end Manuscript
