import Manuscript.Proofs.Inclusion.Capture
import Manuscript.Proofs.Text.Marks
import Manuscript.Proofs.Text.Numeral

/-!
Line specifications: numbers of lines and ranges of them, with commas in between.

Main statement: each part selects the lines whose numbers it asks for, in the order in which it counts, and the parts
are taken one after the other (`selectsByNumber`).
-/

namespace Manuscript

namespace Inclusion

/-- The line with a number; lines are counted from one. -/
def numbered? (lines : List Text) (n : Nat) : Option Text := if n = 0 then none else lines[n - 1]?

/-- The numbers from the first to the last, counted upwards or downwards. -/
def numbersBetween (first last : Nat) : List Nat :=
  if first ≤ last then List.range' first (last + 1 - first) else (List.range' last (first + 1 - last)).reverse

/-- The text is a number of 64 bits, perhaps between blanks. -/
def IsLineNumber (t : Text) (n : Nat) : Prop :=
  ∃ lead numeral tail : Text, t = lead ++ numeral ++ tail ∧ Text.isBlankOnly lead = true ∧
    Text.isBlankOnly tail = true ∧ Text.IsNumeral numeral n ∧ n < Text.bound64

/-- The numbers of lines that a part of a line specification asks for. -/
inductive Asks : Text → List Nat → Prop
  | line {t : Text} {n : Nat} (h : IsLineNumber t n) : Asks t [n]
  | range {s t : Text} {first last : Nat} (hs : IsLineNumber s first) (ht : IsLineNumber t last) :
      Asks (s ++ '-' :: t) (numbersBetween first last)

/-- Line specifications select lines by their numbers. -/
structure SelectsByNumber (lines : List Text) (select : Text → List Text) : Prop where
  /-- Parts are taken one after the other. -/
  append : ∀ a b, select (a ++ ',' :: b) = select a ++ select b
  /-- Each number that a part asks for selects the line that has it, if there is one. -/
  asked : ∀ part numbers, Asks part numbers → select part = numbers.filterMap (numbered? lines)
  /-- A range the other way round selects the lines the other way round. -/
  reverse : ∀ s t first last, IsLineNumber s first → IsLineNumber t last →
    select (t ++ '-' :: s) = (select (s ++ '-' :: t)).reverse
  /-- Parts that ask for nothing select nothing. -/
  otherwise : ∀ part, ',' ∉ part → (∀ numbers, ¬Asks part numbers) → select part = []
  subset : ∀ spec, select spec ⊆ lines

section Numbers

variable {s t : Text} {c : Char} {first last n : Nat}

theorem isBlank_eq_false_of_isNumeral (h : Text.IsNumeral t n) : ∀ c ∈ t, isBlank c = false := by
  intro c hc
  obtain ⟨digits, ht, -, hdigits, -⟩ := h
  have hplus : c = '+' ∨ c.isDigit = true := by
    obtain rfl | rfl := ht
    · exact .inr (List.all_eq_true.mp hdigits c hc)
    · exact (List.mem_cons.mp hc).imp_right fun hmem => List.all_eq_true.mp hdigits c hmem
  obtain rfl | hdigit := hplus
  · rfl
  · have hrange : 48 ≤ c.toNat ∧ c.toNat ≤ 57 := Char.isDigit_iff_toNat.mp hdigit
    simp only [isBlank, Bool.or_eq_false_iff, Bool.and_eq_false_iff, decide_eq_false_iff_not, beq_eq_false_iff_ne]
    omega

theorem ne_nil_of_isNumeral (h : Text.IsNumeral t n) : t ≠ [] := by
  obtain ⟨digits, rfl | rfl, hne, -⟩ := h
  · exact hne
  · exact List.cons_ne_nil '+' digits

/-- Numbers of lines are read up to the blanks around them. -/
theorem lineNumber?_eq_some_iff : lineNumber? t = some n ↔ IsLineNumber t n := by
  rw [lineNumber?, Text.natBelow?_eq_some_iff]
  constructor
  · rintro ⟨hnumeral, hbound⟩
    obtain ⟨lead, tail, hlead, htail, ht⟩ := Text.exists_blanks_trim t
    exact ⟨lead, _, tail, ht, hlead, htail, hnumeral, hbound⟩
  · rintro ⟨lead, numeral, tail, rfl, hlead, htail, hnumeral, hbound⟩
    have hblank := isBlank_eq_false_of_isNumeral hnumeral
    have htrim := Text.trim_of_forall hlead htail hblank (ne_nil_of_isNumeral hnumeral)
    exact ⟨htrim.symm ▸ hnumeral, hbound⟩

/-- Neither a dash nor a comma belongs to a number. -/
theorem IsLineNumber.notMem (h : IsLineNumber t n) (hc : c = '-' ∨ c = ',') : c ∉ t := by
  obtain ⟨lead, numeral, tail, rfl, hlead, htail, hnumeral, -⟩ := h
  have hother : isBlank c = false ∧ c.isDigit = false ∧ c ≠ '+' := by
    obtain rfl | rfl := hc <;> decide
  have hblank : ∀ blanks : Text, Text.isBlankOnly blanks = true → c ∉ blanks := by
    intro blanks hblanks hmem
    rw [List.all_eq_true.mp hblanks c hmem] at hother
    cases hother.1
  simp [hblank lead hlead, hblank tail htail, hnumeral.notMem hother.2.1 hother.2.2]

theorem numbersBetween_reverse (first last : Nat) :
    numbersBetween last first = (numbersBetween first last).reverse := by
  unfold numbersBetween
  by_cases hle : first ≤ last
  · by_cases hge : last ≤ first
    · obtain rfl := Nat.le_antisymm hle hge
      simp
    · rw [if_pos hle, if_neg hge]
  · rw [if_neg hle, if_pos (by omega), List.reverse_reverse]

end Numbers

section Lines

variable {lines : List Text} {part : Text} {numbers : List Nat}

/-- So many lines from one number on. -/
theorem filterMap_range' (lines : List Text) (first count : Nat) :
    (List.range' (first + 1) count).filterMap (numbered? lines) = (lines.drop first).take count := by
  induction count generalizing first with
  | zero => simp
  | succ count ih =>
      rw [List.range'_succ, List.filterMap_cons, ih (first + 1), numbered?, if_neg (Nat.succ_ne_zero first),
        Nat.add_sub_cancel]
      by_cases hlt : first < lines.length
      · rw [List.getElem?_eq_getElem hlt, List.drop_eq_getElem_cons hlt, List.take_succ_cons]
      · rw [List.getElem?_eq_none (by omega), List.drop_of_length_le (by omega), List.drop_of_length_le (by omega),
          List.take_nil, List.take_nil]

/-- The lines of a range are those that the numbers in it have. -/
theorem lineRange_eq {first last : Nat} (h : first ≤ last) :
    lineRange lines first last = (List.range' first (last + 1 - first)).filterMap (numbered? lines) := by
  cases first with
  | zero =>
      have hzero : numbered? lines 0 = none := rfl
      rw [lineRange, List.drop_zero, Nat.sub_zero, List.range'_succ, List.filterMap_cons, hzero, filterMap_range',
        List.drop_zero]
  | succ first =>
      have hcount : last + 1 - (first + 1) = last - first := by omega
      rw [hcount, filterMap_range', lineRange, Nat.add_sub_cancel, List.drop_take]

theorem selectRange_line {n : Nat} (h : IsLineNumber part n) :
    selectRange lines part = [n].filterMap (numbered? lines) := by
  have hcut : Text.cut? "-" part = none :=
    Text.cut?_eq_none fun hdash => h.notMem (.inl rfl) (hdash.subset List.mem_cons_self)
  rw [selectRange, hcut]
  simp only [lineNumber?_eq_some_iff.mpr h]
  split
  · rename_i hzero
    subst hzero
    rfl
  · rw [lineRange_eq (Nat.le_refl n), Nat.add_sub_cancel_left]
    rfl

theorem selectRange_range {s t : Text} {first last : Nat} (hs : IsLineNumber s first) (ht : IsLineNumber t last) :
    selectRange lines (s ++ '-' :: t) = (numbersBetween first last).filterMap (numbered? lines) := by
  have hcut : Text.cut? "-" (s ++ '-' :: t) = some (s, t) := Text.cut?_append_cons (hs.notMem (.inl rfl)) t
  rw [selectRange, hcut]
  simp only [lineNumber?_eq_some_iff.mpr hs, lineNumber?_eq_some_iff.mpr ht]
  unfold numbersBetween
  split
  · rename_i hle
    exact lineRange_eq hle
  · rename_i hgt
    rw [List.filterMap_reverse, lineRange_eq (by omega)]

/-- A part selects the lines that it asks for. -/
theorem selectRange_of_asks (h : Asks part numbers) : selectRange lines part = numbers.filterMap (numbered? lines) := by
  cases h with
  | line h => exact selectRange_line h
  | range hs ht => exact selectRange_range hs ht

/-- Whatever a part selects it asks for. -/
theorem selectRange_eq_nil (h : ∀ numbers, ¬Asks part numbers) : selectRange lines part = [] := by
  unfold selectRange
  split
  · split
    · rename_i n hn
      exact absurd (.line (lineNumber?_eq_some_iff.mp hn)) (h [n])
    · rfl
  · rename_i s t hcut
    split
    · rename_i first last hs ht
      have hask := Asks.range (lineNumber?_eq_some_iff.mp hs) (lineNumber?_eq_some_iff.mp ht)
      have hpart : part = s ++ '-' :: t := by simpa using Text.eq_append_of_cut? hcut
      exact absurd (hpart ▸ hask) (h _)
    · rfl

theorem Asks.comma_notMem (h : Asks part numbers) : ',' ∉ part := by
  cases h with
  | line h => exact h.notMem (.inr rfl)
  | range hs ht => simp [hs.notMem (.inr rfl), ht.notMem (.inr rfl)]

theorem selectLines_part (h : ',' ∉ part) : selectLines lines part = selectRange lines part := by
  rw [selectLines, List.splitOn_eq_singleton h, List.flatMap_singleton]

theorem selectLines_of_asks (h : Asks part numbers) :
    selectLines lines part = numbers.filterMap (numbered? lines) := by
  rw [selectLines_part h.comma_notMem, selectRange_of_asks h]

end Lines

/-- Line specifications select lines by their numbers, part by part. -/
theorem selectsByNumber (lines : List Text) : SelectsByNumber lines (selectLines lines) where
  append a b := by
    rw [selectLines, List.splitOn_append_cons_self, List.flatMap_append]
    rfl
  asked _ _ h := selectLines_of_asks h
  reverse s t first last hs ht := by
    rw [selectLines_of_asks (.range ht hs), selectLines_of_asks (.range hs ht), numbersBetween_reverse first last,
      List.filterMap_reverse]
  otherwise part hcomma h := by rw [selectLines_part hcomma, selectRange_eq_nil h]
  subset spec := by
    intro line hline
    obtain ⟨part, -, hpart⟩ := List.mem_flatMap.mp hline
    exact selectRange_subset lines part hpart

/-- Ranges may run backwards, and what lies outside the file is dropped. -/
example : selectLines ["a", "b", "c"] " 5 -2, x, 0,+1" = ["c", "b", "a"] := by decide

end Inclusion

end Manuscript
