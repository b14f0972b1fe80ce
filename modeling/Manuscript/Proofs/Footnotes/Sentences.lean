import Mathlib.Data.List.DropRight
import Manuscript.Footnotes
import Manuscript.Proofs.Cache.Revealed

/-!
Where texts end sentences, with tokens in them and with the characters that the tokens stand for.

Main statements: a text ends a sentence if nothing but closing characters follows its last stop (`isEnded_append_cons`),
and so revealed tokens make a text end a sentence just where closing characters were hidden (`veilsEnd_iff`).
-/

namespace Manuscript

namespace Footnotes

/-- Does the character end a sentence? -/
def isStop (c : Char) : Bool := c == '.' || c == '?' || c == '!'

/-- Does the text end a sentence? -/
def isEnded (t : Text) : Bool :=
  (Text.trimEndWhere sentenceClosers.contains (Text.trimEnd t)).getLast?.any isStop

/-- Is there nothing in the text but what may follow the end of a sentence? -/
def Closes (t : Text) : Prop := Text.trimEndWhere sentenceClosers.contains (Text.trimEnd t) = []

theorem endsSentence_of_text {n : Node} {t : Text} (h : n.kind = .text t) : endsSentence n = isEnded t := by
  rw [endsSentence, h]
  rfl

theorem isStop_eq_false_of_mem_hexDigits : ∀ c ∈ hexDigits, isStop c = false := forall_mem_hexDigits (by decide)

theorem isCloser_eq_false_of_mem_hexDigits : ∀ c ∈ hexDigits, sentenceClosers.contains c = false :=
  forall_mem_hexDigits (by decide)

theorem isStop_iff {c : Char} : isStop c = true ↔ c = '.' ∨ c = '?' ∨ c = '!' := by
  simp [isStop, or_assoc]

theorem trimmed_sublist (t : Text) : (Text.trimEndWhere sentenceClosers.contains (Text.trimEnd t)).Sublist t :=
  (List.rdropWhile_prefix _ _).sublist.trans (List.rdropWhile_prefix _ _).sublist

theorem isEnded_eq_false {t : Text} (ht : ∀ c ∈ t, isStop c = false) : isEnded t = false := by
  unfold isEnded
  cases hlast : (Text.trimEndWhere sentenceClosers.contains (Text.trimEnd t)).getLast? with
  | none => rfl
  | some c => exact ht c ((trimmed_sublist t).subset (List.mem_of_getLast? hlast))

/-- A text ends a sentence if nothing but what may follow the end of a sentence follows its last stop. -/
theorem isEnded_append_cons {stop : Char} (hstop : isStop stop = true) (lead : Text) {rest : Text}
    (hrest : ∀ c ∈ rest, isStop c = false) : isEnded (lead ++ stop :: rest) = true ↔ Closes rest := by
  have hkept : isBlank stop = false ∧ sentenceClosers.contains stop = false := by
    obtain rfl | rfl | rfl := isStop_iff.mp hstop <;> decide
  unfold isEnded Closes
  rw [Text.trimEnd, Text.trimEndWhere_append_cons hkept.1, Text.trimEndWhere_append_cons hkept.2]
  have hsub := trimmed_sublist rest
  unfold Text.trimEnd at hsub ⊢
  obtain hnil | ⟨init, last, hlast⟩ := List.eq_nil_or_concat' (Text.trimEndWhere sentenceClosers.contains
    (Text.trimEndWhere isBlank rest))
  · rw [hnil, List.getLast?_concat]
    exact iff_of_true hstop rfl
  · have hno := hrest last (hsub.subset (by rw [hlast]; simp))
    have hconcat : lead ++ stop :: (init ++ [last]) = (lead ++ stop :: init) ++ [last] := by simp
    rw [hlast, hconcat, List.getLast?_concat, Option.any_some, hno]
    simp

theorem exists_lastStop (t : Text) :
    (∀ c ∈ t, isStop c = false) ∨
      ∃ lead stop rest, t = lead ++ stop :: rest ∧ isStop stop = true ∧ ∀ c ∈ rest, isStop c = false := by
  induction t with
  | nil => exact .inl nofun
  | cons c t ih =>
      obtain hnone | ⟨lead, stop, rest, rfl, hstop, hrest⟩ := ih
      · cases hc : isStop c with
        | true => exact .inr ⟨[], c, t, rfl, hc, hnone⟩
        | false => exact .inl (List.forall_mem_cons.mpr ⟨hc, hnone⟩)
      · exact .inr ⟨c :: lead, stop, rest, rfl, hstop, hrest⟩

/-- What may follow the end of a sentence are closing characters and blanks. -/
theorem Closes.mem {t : Text} (h : Closes t) {c : Char} (hc : c ∈ t) :
    sentenceClosers.contains c = true ∨ isBlank c = true := by
  have hclosers : ∀ c ∈ Text.trimEnd t, sentenceClosers.contains c = true := List.rdropWhile_eq_nil_iff.mp h
  have hsplit : t.rdropWhile isBlank ++ t.rtakeWhile isBlank = t := by
    rw [List.rdropWhile, List.rtakeWhile, ← List.reverse_append, List.takeWhile_append_dropWhile, List.reverse_reverse]
  rw [← hsplit] at hc
  obtain hkept | htaken := List.mem_append.mp hc
  · exact .inl (hclosers c hkept)
  · exact .inr (List.mem_rtakeWhile_imp htaken)

end Footnotes

namespace Cache

open Footnotes

/-- Do closing characters follow the last stop of the text, once they are revealed?  As it is, something else does. -/
def VeilsEnd (c : Cache) (t : Text) : Prop :=
  ∃ lead stop rest, t = lead ++ stop :: rest ∧ isStop stop = true ∧ (∀ ch ∈ rest, isStop ch = false) ∧
    ¬ Closes rest ∧ Closes (c.revealed rest)

variable {c : Cache} (hcoded : ∀ e ∈ c.entries, e.kind = .unicode → IsCoded e)

include hcoded

/-- No stop is revealed. -/
theorem isStop_eq_false_of_mem_revealed {t : Text} (ht : ∀ ch ∈ t, isStop ch = false) :
    ∀ ch ∈ c.revealed t, isStop ch = false := by
  intro ch hch
  obtain hmem | hbeyond := mem_of_mem_revealed hcoded hch
  · exact ht ch hmem
  · by_contra hstop
    obtain rfl | rfl | rfl := isStop_iff.mp ((Bool.not_eq_false _).mp hstop) <;> exact absurd hbeyond (by decide)

/-- Closing characters and blanks are no tokens. -/
theorem revealed_of_closes {t : Text} (h : Closes t) : c.revealed t = t := by
  refine revealed_eq_self hcoded fun ch hch => ?_
  obtain hcloser | hblank := h.mem hch
  · exact notMem_hexDigits isCloser_eq_false_of_mem_hexDigits hcloser
  · exact notMem_hexDigits isBlank_eq_false_of_mem_hexDigits hblank

theorem isEnded_revealed_append_cons {stop : Char} (hstop : isStop stop = true) (lead : Text) {rest : Text}
    (hrest : ∀ ch ∈ rest, isStop ch = false) :
    isEnded (c.revealed (lead ++ stop :: rest)) = true ↔ Closes (c.revealed rest) := by
  rw [revealed_append_cons hcoded (notMem_hexDigits isStop_eq_false_of_mem_hexDigits hstop)]
  exact isEnded_append_cons hstop _ (isStop_eq_false_of_mem_revealed hcoded hrest)

theorem isEnded_revealed_of_isEnded {t : Text} (h : isEnded t = true) : isEnded (c.revealed t) = true := by
  obtain hnone | ⟨lead, stop, rest, rfl, hstop, hrest⟩ := exists_lastStop t
  · rw [isEnded_eq_false hnone] at h
    cases h
  · have hcloses := (isEnded_append_cons hstop lead hrest).mp h
    rw [isEnded_revealed_append_cons hcoded hstop lead hrest, revealed_of_closes hcoded hcloses]
    exact hcloses

/-- A text ends a sentence with its tokens revealed, but not as it is, just if closing characters were hidden. -/
theorem veilsEnd_iff (t : Text) : c.VeilsEnd t ↔ isEnded t = false ∧ isEnded (c.revealed t) = true := by
  constructor
  · rintro ⟨lead, stop, rest, rfl, hstop, hrest, hopen, hcloses⟩
    have hended := isEnded_append_cons hstop lead hrest
    exact ⟨(Bool.not_eq_true _).mp (mt hended.mp hopen),
      (isEnded_revealed_append_cons hcoded hstop lead hrest).mpr hcloses⟩
  · rintro ⟨hopen, hended⟩
    obtain hnone | ⟨lead, stop, rest, rfl, hstop, hrest⟩ := exists_lastStop t
    · rw [isEnded_eq_false (isStop_eq_false_of_mem_revealed hcoded hnone)] at hended
      cases hended
    · refine ⟨lead, stop, rest, rfl, hstop, hrest, fun hcloses => ?_,
        (isEnded_revealed_append_cons hcoded hstop lead hrest).mp hended⟩
      rw [(isEnded_append_cons hstop lead hrest).mpr hcloses] at hopen
      cases hopen

/-- Blanks are no tokens. -/
theorem revealed_of_isBlankOnly {t : Text} (h : Text.isBlankOnly t = true) : c.revealed t = t :=
  revealed_eq_self hcoded fun ch hch =>
    notMem_hexDigits isBlank_eq_false_of_mem_hexDigits (List.all_eq_true.mp h ch hch)

end Cache

end Manuscript
