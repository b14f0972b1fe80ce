import Mathlib.Data.List.DropRight
import Manuscript.Text.Basic

/-!
What trimming and cutting leave of a text.

Main statements: trimming leaves nothing to trim (`trim_trim`), and all that is cut out of a text are characters of it
in their order (`sublist_of_after?` and so on).
-/

namespace Manuscript.Text

theorem trimStart_sublist (t : Text) : (trimStart t).Sublist t :=
  List.dropWhile_sublist isBlank

theorem trimEnd_prefix_self (t : Text) : trimEnd t <+: t :=
  List.rdropWhile_prefix isBlank t

theorem trim_sublist (t : Text) : (trim t).Sublist t :=
  (trimEnd_prefix_self (trimStart t)).sublist.trans (trimStart_sublist t)

theorem trimChar_sublist (c : Char) (t : Text) : (trimChar c t).Sublist t :=
  (List.rdropWhile_prefix (· == c) _).sublist.trans (List.dropWhile_sublist _)

theorem sublist_of_after? {lead t rest : Text} (h : after? lead t = some rest) : rest.Sublist t := by
  rw [eq_append_of_after? h]
  exact List.sublist_append_right lead rest

theorem eq_append_of_before? {tail t head : Text} (h : before? tail t = some head) : t = head ++ tail := by
  obtain ⟨reversed, hafter, rfl⟩ := Option.map_eq_some_iff.mp h
  rw [← List.reverse_inj, eq_append_of_after? hafter, List.reverse_append, List.reverse_reverse]

theorem sublist_of_before? {tail t head : Text} (h : before? tail t = some head) : head.Sublist t := by
  rw [eq_append_of_before? h]
  exact List.sublist_append_left head tail

theorem sublist_of_cut? {mark t head rest : Text} (h : cut? mark t = some (head, rest)) :
    head.Sublist t ∧ rest.Sublist t := by
  rw [eq_append_of_cut? h]
  exact ⟨(List.sublist_append_left head mark).trans (List.sublist_append_left (head ++ mark) rest),
    List.sublist_append_right (head ++ mark) rest⟩

theorem sublist_of_cutLast? {c : Char} {t head rest : Text} (h : cutLast? c t = some (head, rest)) :
    head.Sublist t ∧ rest.Sublist t := by
  obtain ⟨⟨tail, before⟩, hcut, heq⟩ := Option.map_eq_some_iff.mp h
  obtain ⟨rfl, rfl⟩ := by simpa using heq
  obtain ⟨htail, hbefore⟩ := sublist_of_cut? hcut
  exact ⟨by simpa using hbefore.reverse, by simpa using htail.reverse⟩

/-- A wording without the character is looked for before it. -/
theorem after?_append_cons {c : Char} {lead : Text} (hlead : c ∉ lead) (t rest : Text) :
    after? lead (t ++ c :: rest) = (after? lead t).map (· ++ c :: rest) := by
  induction lead generalizing t with
  | nil => rfl
  | cons l lead ih =>
      obtain ⟨hl, hlead⟩ : c ≠ l ∧ c ∉ lead := by simpa using hlead
      cases t with
      | nil => exact if_neg hl.symm
      | cons d t =>
          rw [List.cons_append, after?, after?]
          split
          · exact ih hlead t
          · rfl

/-- What stands before a mark does not hold it. -/
theorem notMem_of_cut? {c : Char} {t head rest : Text} (h : cut? [c] t = some (head, rest)) : c ∉ head := by
  induction t generalizing head with
  | nil => cases h
  | cons d t ih =>
      simp only [cut?] at h
      split at h
      · cases h
        exact List.not_mem_nil
      · rename_i hnone
        obtain ⟨⟨head', rest'⟩, hcut, heq⟩ := Option.map_eq_some_iff.mp h
        obtain ⟨rfl, rfl⟩ := by simpa using heq
        have hne : c ≠ d := by
          rintro rfl
          simp [after?] at hnone
        exact List.not_mem_cons_of_ne_of_not_mem hne (ih hcut)

/-- A mark is looked for behind what does not hold it. -/
theorem cut?_append_of_notMem {c : Char} {lead : Text} (h : c ∉ lead) (t : Text) :
    cut? [c] (lead ++ t) = (cut? [c] t).map fun (head, rest) => (lead ++ head, rest) := by
  induction lead with
  | nil => simp
  | cons l lead ih =>
      obtain ⟨hl, hlead⟩ : c ≠ l ∧ c ∉ lead := by simpa using h
      have hnone : after? [c] (l :: (lead ++ t)) = none := if_neg hl
      simp only [List.cons_append, cut?, hnone, ih hlead, Option.map_map]
      rfl

theorem cut?_append_cons {c : Char} {head : Text} (h : c ∉ head) (rest : Text) :
    cut? [c] (head ++ c :: rest) = some (head, rest) := by
  rw [cut?_append_of_notMem h]
  simp [cut?, after?]

/-- Two texts that a character parts are parted at the first place where it stands. -/
theorem append_cons_inj {c : Char} {s s' t t' : Text} (hs : c ∉ s) (hs' : c ∉ s') (h : s ++ c :: t = s' ++ c :: t') :
    s = s' ∧ t = t' := by
  have hcut : ∀ {s : Text}, c ∉ s → ∀ t : Text, cut? [c] (s ++ c :: t) = some (s, t) := by
    intro s hs t
    have hafter : after? [c] (c :: t) = some t := after?_append [c] t
    simp only [cut?_append_of_notMem hs, cut?, hafter, Option.map_some, List.append_nil]
  have hpair := (hcut hs t).symm.trans (h ▸ hcut hs' t')
  exact Prod.mk.inj (Option.some.inj hpair)

/-- Two texts that a character parts are parted at the last place where it stands. -/
theorem append_cons_inj_of_notMem_right {c : Char} {s s' t t' : Text} (ht : c ∉ t) (ht' : c ∉ t')
    (h : s ++ c :: t = s' ++ c :: t') : s = s' ∧ t = t' := by
  have hreverse := congrArg List.reverse h
  simp only [List.reverse_append, List.reverse_cons, List.append_assoc, List.singleton_append] at hreverse
  obtain ⟨hlast, hfirst⟩ := append_cons_inj (mt List.mem_reverse.mp ht) (mt List.mem_reverse.mp ht') hreverse
  exact ⟨List.reverse_injective hfirst, List.reverse_injective hlast⟩

theorem trimStart_cons {c : Char} (hc : isBlank c = false) (t : Text) : trimStart (c :: t) = c :: t := by
  rw [trimStart, List.dropWhile_cons_of_neg (by simp [hc])]

theorem isBlank_of_trimStart {t s : Text} {c : Char} (h : trimStart t = c :: s) : isBlank c = false := by
  have hdrop : t.dropWhile isBlank = c :: s := h
  have hne : t.dropWhile isBlank ≠ [] := by
    rw [hdrop]
    exact List.cons_ne_nil c s
  simpa [hdrop] using List.head_dropWhile_not isBlank hne

/-- A text without blanks at its start keeps that property when blanks are taken off its end. -/
theorem trimStart_trimEnd_trimStart (t : Text) : trimStart (trimEnd (trimStart t)) = trimEnd (trimStart t) := by
  cases hstart : trimStart t with
  | nil => rfl
  | cons c s =>
      have hc := isBlank_of_trimStart hstart
      cases hend : trimEnd (c :: s) with
      | nil => rfl
      | cons d r =>
          obtain ⟨more, hmore⟩ := trimEnd_prefix_self (c :: s)
          rw [hend] at hmore
          obtain rfl : d = c := (List.cons.inj hmore).1
          exact trimStart_cons hc r

theorem trim_trim (t : Text) : trim (trim t) = trim t := by
  have hidem : trimEnd (trimEnd (trimStart t)) = trimEnd (trimStart t) := List.rdropWhile_idempotent isBlank _
  simp only [trim, trimStart_trimEnd_trimStart, hidem]

theorem trim_cons_blank {c : Char} (hc : isBlank c = true) (t : Text) : trim (c :: t) = trim t := by
  rw [trim, trim, trimStart, trimStart, List.dropWhile_cons_of_pos hc]

/-- What stands before a character that is kept is kept. -/
theorem trimEndWhere_append_cons {p : Char → Bool} {c : Char} (hc : p c = false) (lead t : Text) :
    trimEndWhere p (lead ++ c :: t) = lead ++ c :: trimEndWhere p t := by
  have hlead : (c :: lead.reverse).dropWhile p = c :: lead.reverse := List.dropWhile_cons_of_neg (by simp [hc])
  simp only [trimEndWhere, List.reverse_append, List.reverse_cons, List.append_assoc, List.singleton_append,
    List.dropWhile_append, hlead]
  split
  · rename_i hempty
    rw [List.isEmpty_iff.mp hempty]
    simp
  · simp

/-- Blanks are taken off the end only after the last character that is none. -/
theorem exists_trimEnd_append {c : Char} (hc : isBlank c = false) (lead t : Text) :
    ∃ tail, trimEnd (lead ++ c :: t) = lead ++ c :: tail :=
  ⟨trimEnd t, trimEndWhere_append_cons hc lead t⟩

/-- Trimming leaves something unless there is nothing but blanks. -/
theorem trim_ne_nil {t : Text} (h : isBlankOnly t = false) : trim t ≠ [] := by
  intro hempty
  have hblank : ∀ c ∈ trimStart t, isBlank c = true := by
    intro c hc
    exact List.rdropWhile_eq_nil_iff.mp hempty c hc
  have hstart : trimStart t = [] := by
    cases hcases : trimStart t with
    | nil => rfl
    | cons c s =>
        have hc := hblank c (hcases ▸ List.mem_cons_self)
        rw [isBlank_of_trimStart hcases] at hc
        cases hc
  have hall : isBlankOnly t = true := List.all_eq_true.mpr (List.dropWhile_eq_nil_iff.mp hstart)
  rw [h] at hall
  cases hall

end Manuscript.Text
