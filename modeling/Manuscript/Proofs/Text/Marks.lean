import Mathlib.Data.List.DropRight
import Manuscript.Proofs.Text.Lines
import Manuscript.Proofs.Text.Trim

/-!
Looking for marks, and trimming, in texts that are put together of parts.

Main statements: a mark is not found before a part that holds it (`cut?_append_of_not_infix`), and of a text between blanks
nothing is lost but these (`trim_between`).
-/

namespace Manuscript.Text

variable {mark lead tail s t : Text} {c : Char}

theorem before?_append (head tail : Text) : before? tail (head ++ tail) = some head := by
  rw [before?, List.reverse_append, after?_append, Option.map_some, List.reverse_reverse]

/-- A text that does not hold a mark does not begin with it, whatever follows it. -/
theorem after?_append_cons_eq_none (hc : c ∉ mark) (h : ¬mark <:+: t) (rest : Text) : after? mark (t ++ c :: rest) = none := by
  rw [after?_append_cons hc, Option.map_eq_none_iff]
  refine Option.eq_none_iff_forall_ne_some.mpr fun more hmore => h ?_
  rw [eq_append_of_after? hmore]
  exact (List.prefix_append mark more).isInfix

theorem cut?_eq_none (h : ¬mark <:+: t) : cut? mark t = none := by
  refine Option.eq_none_iff_forall_ne_some.mpr fun found hfound => h ?_
  rw [eq_append_of_cut? hfound]
  exact ⟨found.1, found.2, rfl⟩

/-- A mark is not found before a part that holds it. -/
theorem cut?_append_of_not_infix (hc : c ∉ mark) (h : ¬mark <:+: t) (rest : Text) :
    cut? mark (t ++ c :: rest) = (cut? mark rest).map fun (head, rest) => (t ++ c :: head, rest) := by
  induction t with
  | nil =>
      have hnone : after? mark (c :: rest) = none := after?_append_cons_eq_none hc h rest
      rw [List.nil_append, cut?, hnone]
      rfl
  | cons d t ih =>
      have hnone : after? mark (d :: (t ++ c :: rest)) = none := after?_append_cons_eq_none hc h rest
      have hlater := ih fun hpart => h (List.infix_cons hpart)
      rw [List.cons_append, cut?, hnone]
      simp only [hlater, Option.map_map]
      rfl

theorem cut?_append_self (hmark : mark ≠ []) (rest : Text) : cut? mark (mark ++ rest) = some ([], rest) := by
  obtain ⟨c, more, rfl⟩ := List.exists_cons_of_ne_nil hmark
  have hafter := after?_append (c :: more) rest
  rw [List.cons_append] at hafter ⊢
  rw [cut?, hafter]

/-! Trimming -/

theorem trimStart_append (hlead : isBlankOnly lead = true) (t : Text) : trimStart (lead ++ t) = trimStart t :=
  List.dropWhile_append_of_pos (List.all_eq_true.mp hlead)

theorem trimStart_append_cons (hc : isBlank c = false) (t rest : Text) :
    trimStart (t ++ c :: rest) = trimStart t ++ c :: rest := by
  rw [trimStart, trimStart, List.dropWhile_append]
  split
  · rename_i hempty
    rw [List.isEmpty_iff.mp hempty, List.dropWhile_cons_of_neg (by simp [hc]), List.nil_append]
  · rfl

/-- What was trimmed off the start of a text is blank. -/
theorem exists_blanks_trimStart (t : Text) : ∃ lead, isBlankOnly lead = true ∧ t = lead ++ trimStart t :=
  ⟨t.takeWhile isBlank, List.all_takeWhile, List.takeWhile_append_dropWhile.symm⟩

theorem trimEnd_append_blanks (htail : isBlankOnly tail = true) (t : Text) : trimEnd (t ++ tail) = trimEnd t := by
  rw [trimEnd, trimEndWhere, List.reverse_append, List.dropWhile_append_of_pos, trimEnd, trimEndWhere]
  exact fun c hc => List.all_eq_true.mp htail c (List.mem_reverse.mp hc)

/-- Nothing is trimmed off the end of a text that ends in a trimmed one. -/
theorem trimEnd_append (hne : t ≠ []) (ht : trimEnd t = t) (s : Text) : trimEnd (s ++ t) = s ++ t := by
  refine List.rdropWhile_eq_self_iff.mpr fun hnonempty => ?_
  rw [List.getLast_append_of_ne_nil hnonempty hne]
  exact List.rdropWhile_eq_self_iff.mp ht hne

theorem trimEnd_of_trim (ht : trim t = t) : trimEnd t = t := by
  rw [← ht]
  exact List.rdropWhile_idempotent isBlank _

theorem isBlankOnly_of_trim (hne : t ≠ []) (ht : trim t = t) : isBlankOnly t = false := by
  refine Bool.eq_false_iff.mpr fun hblank => hne ?_
  have hstart : trimStart t = [] := List.dropWhile_eq_nil_iff.mpr (List.all_eq_true.mp hblank)
  rw [← ht, trim, hstart]
  rfl

/-- Of a text between blanks that begins and ends with other characters nothing is lost. -/
theorem trim_between (hlead : isBlankOnly lead = true) (htail : isBlankOnly tail = true) (hc : isBlank c = false)
    (hne : t ≠ []) (ht : trimEnd t = t) : trim (lead ++ (c :: s ++ t) ++ tail) = c :: s ++ t := by
  rw [trim, List.append_assoc, trimStart_append hlead, List.append_assoc, List.cons_append, trimStart_cons hc,
    ← List.cons_append, ← List.append_assoc, trimEnd_append_blanks htail, trimEnd_append hne ht]

/-- What is trimmed off a text is blank. -/
theorem exists_blanks_trim (t : Text) :
    ∃ lead tail, isBlankOnly lead = true ∧ isBlankOnly tail = true ∧ t = lead ++ trim t ++ tail := by
  obtain ⟨lead, hlead, ht⟩ := exists_blanks_trimStart t
  have hend : trimEnd (trimStart t) ++ (trimStart t).rtakeWhile isBlank = trimStart t :=
    List.rdropWhile_append_rtakeWhile
  refine ⟨lead, (trimStart t).rtakeWhile isBlank, hlead, ?_, ?_⟩
  · exact List.all_eq_true.mpr fun c hc => List.mem_rtakeWhile_imp hc
  · rw [trim, List.append_assoc, hend]
    exact ht

/-- Of a text between blanks that holds none nothing is lost. -/
theorem trim_of_forall (hlead : isBlankOnly lead = true) (htail : isBlankOnly tail = true)
    (ht : ∀ c ∈ t, isBlank c = false) (hne : t ≠ []) : trim (lead ++ t ++ tail) = t := by
  obtain ⟨c, s, rfl⟩ := List.exists_cons_of_ne_nil hne
  have hend : trimEnd (c :: s) = c :: s :=
    List.rdropWhile_eq_self_iff.mpr fun h => by simp [ht _ (List.getLast_mem h)]
  rw [trim, List.append_assoc, trimStart_append hlead, List.cons_append, trimStart_cons (ht c List.mem_cons_self),
    ← List.cons_append, trimEnd_append_blanks htail, hend]

/-! Words -/

/-- Blanks before a text add no words. -/
theorem words_blanks_append (hlead : isBlankOnly lead = true) (t : Text) : words (lead ++ t) = words t := by
  induction lead with
  | nil => rfl
  | cons c lead ih =>
      obtain ⟨hc, hlead⟩ : isBlank c = true ∧ isBlankOnly lead = true := by simpa [isBlankOnly] using hlead
      rw [← ih hlead, words, List.cons_append, ← List.nil_append (c :: _), List.splitOnP_append_cons [] _ hc,
        List.filter_append]
      rfl

/-- Blanks after a text add no words. -/
theorem words_append_blanks (htail : isBlankOnly tail = true) (t : Text) : words (t ++ tail) = words t := by
  induction tail using List.reverseRecOn with
  | nil => rw [List.append_nil]
  | append_singleton tail c ih =>
      obtain ⟨htail, hc⟩ : isBlankOnly tail = true ∧ isBlank c = true := by simpa [isBlankOnly] using htail
      rw [← ih htail, words, ← List.append_assoc, List.splitOnP_append_cons _ [] hc, List.filter_append]
      exact List.append_nil _

theorem words_trim (t : Text) : words (trim t) = words t := by
  obtain ⟨lead, tail, hlead, htail, ht⟩ := exists_blanks_trim t
  conv_rhs => rw [ht, words_append_blanks htail, words_blanks_append hlead]

end Manuscript.Text
