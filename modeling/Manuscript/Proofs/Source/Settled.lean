import Manuscript.Proofs.Inclusion.Additions
import Manuscript.Proofs.Source.Rewritten

/-!
Passages that are written such that nothing more happens to them when they are read again (`IsSettled`).

Main statement: what is written still holds every line that an inclusion has added (`countP_rewritten`).
-/

namespace Manuscript

namespace Source

open Inclusion (isAdded IsFree becomes)
open Highlight (markupOpening)

variable {p : Passage} {ps : List Passage}

theorem isAdded_congr {t t' : Text} (h : Unstars t t') : isAdded t = isAdded t' := by
  have hbegin : (begin? t).any (· ∈ literalEnvironments) = (begin? t').any (· ∈ literalEnvironments) := by
    have hnames : ∀ name ∈ literalEnvironments, '\\' ∉ name := by decide +kernel
    rw [Bool.eq_iff_iff]
    simp only [Option.any_eq_true, decide_eq_true_eq]
    constructor <;> rintro ⟨name, hname, hmem⟩
    · exact ⟨name, (h.marker?_eq_some_iff (hnames name hmem)).1.mp hname, hmem⟩
    · exact ⟨name, (h.marker?_eq_some_iff (hnames name hmem)).1.mpr hname, hmem⟩
  rw [isAdded, isAdded, hbegin, h.startsWith (by decide +kernel)]

theorem isAdded_eq_false {line : Text} (hbegin : begin? line = none)
    (hline : Text.startsWith "%=" (Text.trimStart line) = false) : isAdded line = false := by
  have hstarts : Text.startsWith "%= <s" line = false := by
    by_contra hstarts
    obtain ⟨more, hmore⟩ := Option.isSome_iff_exists.mp ((Bool.not_eq_false _).mp hstarts)
    rw [Text.eq_append_of_after? hmore] at hline
    cases hline
  rw [isAdded, hbegin, hstarts]
  rfl

theorem isAdded_of_end? {line name : Text} (h : end? line = some name) : isAdded line = false := by
  refine isAdded_eq_false ?_ ?_
  · cases hbegin : begin? line with
    | none => rfl
    | some name' => rw [end?_eq_none_of_begin? hbegin] at h; cases h
  · by_contra hannotation
    obtain ⟨-, hnone⟩ := begin?_eq_none_of_annotation ((Bool.not_eq_false _).mp hannotation)
    rw [hnone] at h
    cases h

theorem isAdded_of_loneLabel? {line label : Text} (h : loneLabel? line = some label) : isAdded line = false := by
  obtain ⟨hbegin, -, hstarts⟩ := marker_eq_none_of_loneLabel? h
  refine isAdded_eq_false hbegin ?_
  by_contra hannotation
  obtain ⟨rest, hrest⟩ := Option.isSome_iff_exists.mp ((Bool.not_eq_false _).mp hannotation)
  rw [Text.eq_append_of_after? hrest] at hstarts
  cases hstarts

theorem isAdded_of_hint? {line : Text} (h : (hint? line).isSome) : isAdded line = false := by
  obtain ⟨hint, hhint⟩ := Option.isSome_iff_exists.mp h
  obtain ⟨hbegin, -⟩ := begin?_eq_none_of_annotation (startsWith_of_hint? hhint)
  have hstarts : Text.startsWith "%= <s" line = false := by
    by_contra hstarts
    obtain ⟨more, hmore⟩ := Option.isSome_iff_exists.mp ((Bool.not_eq_false _).mp hstarts)
    rw [Text.eq_append_of_after? hmore] at h
    cases h
  rw [isAdded, hbegin, hstarts]
  rfl

/-- Raw HTML that stands for a failure still does when it has been written. -/
theorem isAdded_of_rawHtml? {line html : Text} (h : rawHtml? line = some html) (hadded : isAdded line = true) :
    isAdded (("%= " : Text) ++ html) = true := by
  obtain ⟨hbegin, -⟩ := begin?_eq_none_of_annotation (startsWith_of_rawHtml? h)
  rw [isAdded, hbegin, Option.any_none, Bool.false_or] at hadded
  obtain ⟨more, hmore⟩ := Option.isSome_iff_exists.mp hadded
  obtain ⟨tail, htail⟩ := Text.exists_trimEnd_append (c := 's') (by decide) ['<'] more
  have htrim : Text.trim (' ' :: '<' :: 's' :: more) = '<' :: 's' :: tail := htail
  have hstart : Text.trimStart line = ("%=" : Text) ++ ' ' :: '<' :: 's' :: more := by
    rw [Text.eq_append_of_after? hmore]
    rfl
  simp only [rawHtml?, hstart, Text.after?_append, Option.bind_eq_bind, Option.bind_some, htrim] at h
  split at h
  · cases h
  · obtain rfl := Option.some.inj h
    exact Bool.or_eq_true_iff.mpr (.inr rfl)

theorem countP_written (body : List Text) : (written body).countP isAdded = body.countP isAdded := by
  unfold written
  split
  · rename_i hempty
    rw [hempty]
    rfl
  · rfl

theorem countP_writtenCode {body : List Text} (hbody : ∀ line ∈ body, '\n' ∉ line) :
    (writtenCode body).countP isAdded = body.countP isAdded := by
  rw [writtenCode, countP_written]
  split
  · rename_i hends
    obtain ⟨init, -, rfl, -⟩ := exists_of_endsWith hbody hends
    rw [List.dropLast_concat, List.countP_append]
    rfl
  · rfl

theorem countP_block (first : Text) (body : List Text) (last : Text) :
    (first :: body ++ [last]).countP isAdded =
      [first].countP isAdded + body.countP isAdded + [last].countP isAdded := by
  rw [← List.singleton_append, List.append_assoc, List.countP_append, List.countP_append, Nat.add_assoc]

theorem countP_singleton_of_false {line : Text} (h : isAdded line = false) : [line].countP isAdded = 0 := by
  rw [List.countP_singleton, h]
  rfl

/-- Labels that have moved to the end were none of the lines that are added, and are none now. -/
theorem countP_le_math (body : List Text) :
    body.countP isAdded ≤ (written (body.filter fun line => (loneLabel? line).isNone)).countP isAdded := by
  rw [countP_written]
  induction body with
  | nil => exact Nat.le_refl _
  | cons line body ih =>
      cases hlone : loneLabel? line with
      | none =>
          have hkept : (line :: body).filter (fun line => (loneLabel? line).isNone) =
              line :: body.filter fun line => (loneLabel? line).isNone := List.filter_cons_of_pos (by simp [hlone])
          rw [hkept, List.countP_cons, List.countP_cons]
          exact Nat.add_le_add_right ih _
      | some label =>
          have hmoved : (line :: body).filter (fun line => (loneLabel? line).isNone) =
              body.filter fun line => (loneLabel? line).isNone := List.filter_cons_of_neg (by simp [hlone])
          rw [hmoved, List.countP_cons_of_neg (Bool.not_eq_true _ ▸ isAdded_of_loneLabel? hlone)]
          exact ih

/-- Writing a passage takes none of the lines away. -/
theorem Passage.IsRead.countP_le (h : p.IsRead) (hfeeds : ∀ line ∈ p.lines, '\n' ∉ line) :
    p.lines.countP isAdded ≤ (p.rewritten?.toList.flatMap Passage.lines).countP isAdded := by
  cases h with
  | hint hhint =>
      simp only [lines, countP_singleton_of_false (isAdded_of_hint? hhint)]
      exact Nat.zero_le _
  | @rawHtml line html hhint hhtml =>
      have hstays := isAdded_of_rawHtml? hhtml
      simp only [rewritten?, Option.toList_some, List.flatMap_singleton, lines, List.countP_singleton]
      split
      · rename_i hadded
        rw [if_pos (hstays hadded)]
      · exact Nat.zero_le _
  | @literal name first last body hname hblock =>
      simp only [rewritten?, Option.toList_some, List.flatMap_singleton, lines, countP_block, countP_written, Nat.le_refl]
  | @code name first last body requested isInListing hname hblock =>
      have hbody : ∀ line ∈ body, '\n' ∉ line := (forall_mem_block.mp hfeeds).2.1
      have hlast : [last].countP isAdded = 0 := countP_singleton_of_false (isAdded_of_end? hblock.2.2.2)
      have hopening : [markupOpening requested.options].countP isAdded = 1 := rfl
      have hfirst : [first].countP isAdded ≤ 1 := List.countP_le_length
      simp only [rewritten?, Option.toList_some, List.flatMap_singleton, lines, countP_block, countP_writtenCode hbody]
      omega
  | @math name first last body hname hblock =>
      have hbody := countP_le_math body
      simp only [rewritten?, Option.toList_some, List.flatMap_singleton, lines, countP_block]
      rw [List.countP_append]
      omega
  | comment => exact Nat.le_refl _
  | @prose line =>
      have hline := isAdded_congr (Unstars.flatMap_restored line)
      simp only [rewritten?, Option.toList_some, List.flatMap_singleton, lines, List.countP_singleton, hline, Nat.le_refl]

/-- Writing a manuscript takes none of the lines away. -/
theorem countP_rewritten (hread : ∀ p ∈ ps, p.IsRead) (hfeeds : ∀ p ∈ ps, ∀ line ∈ p.lines, '\n' ∉ line) :
    (ps.flatMap Passage.lines).countP isAdded ≤ ((rewritten ps).flatMap Passage.lines).countP isAdded := by
  have hle : ∀ qs : List Passage, (∀ q ∈ qs, q.IsRead ∧ ∀ line ∈ q.lines, '\n' ∉ line) →
      (qs.flatMap Passage.lines).countP isAdded ≤
        ((qs.filterMap Passage.rewritten?).flatMap Passage.lines).countP isAdded := by
    intro qs hqs
    induction qs with
    | nil => exact Nat.le_refl _
    | cons q qs ih =>
        obtain ⟨⟨hq, hlines⟩, hqs⟩ := List.forall_mem_cons.mp hqs
        have hfirst := hq.countP_le hlines
        have hrest := ih hqs
        have hsplit : (q :: qs).filterMap Passage.rewritten? = q.rewritten?.toList ++ qs.filterMap Passage.rewritten? := by
          rw [List.filterMap_cons]
          cases q.rewritten? <;> rfl
        rw [hsplit, List.flatMap_cons, List.flatMap_append, List.countP_append, List.countP_append]
        omega
  have h := hle ps fun p hp => ⟨hread p hp, hfeeds p hp⟩
  unfold rewritten
  split
  · rename_i hnone
    rw [hnone] at h
    exact h
  · exact h

/-- What is read as a literal environment is balanced. -/
theorem balanced_of_isRead {name first last : Text} {body : List Text} (h : (Passage.literal first body last).IsRead)
    (hbegin : begin? first = some name) : Balanced name body := by
  cases h with
  | literal hname hblock =>
      obtain rfl := Option.some.inj (hblock.2.1.symm.trans hbegin)
      exact hblock.2.2.1

/-- What is written for a passage stands after what is written for the passages before it. -/
theorem rewritten_append {before after : List Passage} {p q : Passage} (hq : p.rewritten? = some q) :
    rewritten (before ++ p :: after) = before.filterMap Passage.rewritten? ++ q :: after.filterMap Passage.rewritten? := by
  have hall : (before ++ p :: after).filterMap Passage.rewritten? =
      before.filterMap Passage.rewritten? ++ q :: after.filterMap Passage.rewritten? := by
    rw [List.filterMap_append, List.filterMap_cons_some hq]
  rw [rewritten, hall, if_neg]
  exact List.append_ne_nil_of_right_ne_nil _ (List.cons_ne_nil _ _)

/-- Passages that are written such that nothing more happens to them. -/
structure IsSettled (ps : List Passage) : Prop where
  /-- A `Verbatim` environment that begins in code ends in it, and none ends that does not begin in it. -/
  balanced : ∀ first body last requested isInListing, .code first body last requested isInListing ∈ ps →
    Balanced "Verbatim" body
  starsLost_eq : ∀ q ∈ rewritten ps, q.starsLost = 0
  isFree : IsFree none ((rewritten ps).flatMap Passage.lines)

theorem eq_of_flatMap_lines_unstarred {qs : List Passage}
    (h : (qs.map Passage.unstarred).flatMap Passage.lines = qs.flatMap Passage.lines) :
    ∀ q ∈ qs, q.unstarred = q := by
  induction qs with
  | nil => exact nofun
  | cons q qs ih =>
      rw [List.map_cons, List.flatMap_cons, List.flatMap_cons] at h
      obtain ⟨hq, hqs⟩ := List.append_inj h q.length_lines_unstarred
      exact List.forall_mem_cons.mpr ⟨Passage.eq_of_lines_unstarred hq, ih hqs⟩

end Source

end Manuscript
