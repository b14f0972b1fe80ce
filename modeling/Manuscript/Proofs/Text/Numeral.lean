import Manuscript.Proofs.Text.Lines
import Manuscript.Text.Numeral

/-!
Numerals with a character between them that is no digit.

Main statement: they can be told apart (`join_numerals_injective`, `dotted_injective`).
-/

namespace Manuscript.Text

theorem ofNat_injective : Function.Injective ofNat := by
  intro m n h
  calc
    m = Nat.ofDigitChars 10 (ofNat m) 0 := Nat.ofDigitChars_ten_toDigits.symm
    _ = Nat.ofDigitChars 10 (ofNat n) 0 := by rw [h]
    _ = n := Nat.ofDigitChars_ten_toDigits

/-- A numeral of a number: decimal digits, after at most one plus sign. -/
def IsNumeral (t : Text) (n : Nat) : Prop :=
  ∃ digits : Text, (t = digits ∨ t = '+' :: digits) ∧ digits ≠ [] ∧ digits.all Char.isDigit ∧
    Nat.ofDigitChars 10 digits 0 = n

theorem natBelow?_eq_some_iff {bound n : Nat} {t : Text} :
    natBelow? bound t = some n ↔ IsNumeral t n ∧ n < bound := by
  constructor
  · intro h
    simp only [natBelow?] at h
    split at h
    · rename_i hdigits
      split at h
      · rename_i hbound
        obtain rfl := Option.some.inj h
        refine ⟨⟨_, ?_, hdigits.1, hdigits.2, rfl⟩, hbound⟩
        cases hafter : after? ['+'] t with
        | none => exact .inl rfl
        | some digits => exact .inr (eq_append_of_after? hafter)
      · cases h
    · cases h
  · rintro ⟨⟨digits, ht, hne, hdigits, rfl⟩, hbound⟩
    have hread : (after? ['+'] t).getD t = digits := by
      obtain rfl | rfl := ht
      · cases t with
        | nil => rfl
        | cons c t =>
            have hc : '+' ≠ c := by
              rintro rfl
              simp at hdigits
            simp [after?, hc]
      · simp [after?]
    simp [natBelow?, hread, hne, hdigits, hbound]

theorem IsNumeral.notMem {t : Text} {n : Nat} (h : IsNumeral t n) {c : Char} (hdigit : c.isDigit = false)
    (hplus : c ≠ '+') : c ∉ t := by
  intro hc
  obtain ⟨digits, ht, -, hdigits, -⟩ := h
  have hmem : c ∈ digits := by
    obtain rfl | rfl := ht
    · exact hc
    · exact List.mem_of_ne_of_mem hplus hc
  rw [List.all_eq_true.mp hdigits c hmem] at hdigit
  cases hdigit

theorem isDigit_of_mem_ofNat {n : Nat} {c : Char} (h : c ∈ ofNat n) : c.isDigit :=
  List.all_eq_true.mp (all_isDigit_ofNat n) c h

theorem ofNat_ne_nil (n : Nat) : ofNat n ≠ [] := by
  intro h
  have hlength := congrArg List.length h
  simp [ofNat] at hlength

section Separator

variable {separator : Char} (hseparator : separator.isDigit = false)

include hseparator

theorem splitOn_join_numerals {ns : List Nat} (hns : ns ≠ []) :
    (join [separator] (ns.map ofNat)).splitOn separator = ns.map ofNat := by
  refine List.splitOn_intercalate separator ?_ (by simpa using hns)
  intro t ht hmem
  obtain ⟨n, -, rfl⟩ := List.mem_map.mp ht
  rw [isDigit_of_mem_ofNat hmem] at hseparator
  cases hseparator

theorem eq_nil_of_join_numerals {ns : List Nat} (h : join [separator] (ns.map ofNat) = []) : ns = [] := by
  by_contra hns
  have hparts := splitOn_join_numerals hseparator hns
  rw [h] at hparts
  cases ns with
  | nil => exact hns rfl
  | cons n ns => exact ofNat_ne_nil n (List.cons.inj hparts).1.symm

theorem join_numerals_injective : Function.Injective fun ns : List Nat => join [separator] (ns.map ofNat) := by
  intro ns ms h
  by_cases hns : ns = []
  · subst hns
    exact (eq_nil_of_join_numerals hseparator h.symm).symm
  · have hms : ms ≠ [] := by
      rintro rfl
      exact hns (eq_nil_of_join_numerals hseparator h)
    refine ofNat_injective.list_map ?_
    rw [← splitOn_join_numerals hseparator hns, ← splitOn_join_numerals hseparator hms]
    exact congrArg (List.splitOn separator) h

end Separator

theorem mem_join_numerals {separator c : Char} {ns : List Nat} (h : c ∈ join [separator] (ns.map ofNat)) :
    c.isDigit ∨ c = separator := by
  obtain hsame | ⟨t, ht, hdigit⟩ := mem_of_mem_join h
  · exact .inr (List.mem_singleton.mp hsame)
  · obtain ⟨n, -, rfl⟩ := List.mem_map.mp ht
    exact .inl (isDigit_of_mem_ofNat hdigit)

/-- The numerals of some numbers with points between them. -/
def dotted (ns : List Nat) : Text := join "." (ns.map ofNat)

@[simp] theorem dotted_singleton (n : Nat) : dotted [n] = ofNat n := by
  rw [dotted, join, List.map_singleton, List.intercalate_singleton]

theorem dotted_injective : Function.Injective dotted :=
  join_numerals_injective (rfl : '.'.isDigit = false)

theorem mem_dotted {ns : List Nat} {c : Char} (h : c ∈ dotted ns) : c.isDigit ∨ c = '.' :=
  mem_join_numerals h

end Manuscript.Text
