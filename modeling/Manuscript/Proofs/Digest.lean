import Mathlib.Data.List.Basic
import Manuscript.Digest
import Manuscript.Html.Escape

/-!
What a digest looks like: forty hexadecimal digits (`length_digest`, `mem_hexDigits_of_mem_digest`).  So a token
is not empty, and it is no markup: character references are written for none of its characters.
-/

namespace Manuscript

/-- The characters that digests are made of. -/
def hexDigits : Text := "0123456789abcdef"

/-- What is computed to hold of all hexadecimal digits holds of them. -/
theorem forall_mem_hexDigits {p : Char → Prop} [DecidablePred p] (h : (hexDigits.all fun c => p c) = true) :
    ∀ c ∈ hexDigits, p c :=
  fun c hc => of_decide_eq_true (List.all_eq_true.mp h c hc)

theorem notMem_hexDigits {p : Char → Bool} (hp : ∀ c ∈ hexDigits, p c = false) {c : Char} (h : p c = true) :
    c ∉ hexDigits := by
  intro hmem
  rw [hp c hmem] at h
  cases h

theorem isBlank_eq_false_of_mem_hexDigits : ∀ c ∈ hexDigits, isBlank c = false :=
  forall_mem_hexDigits (by decide +kernel)

theorem digitChar_mem_hexDigits {n : Nat} (h : n < 16) : n.digitChar ∈ hexDigits := by
  have hall : ∀ m : Fin 16, m.val.digitChar ∈ hexDigits := by decide
  exact hall ⟨n, h⟩

theorem mem_hexDigits_of_mem_toDigits {n : Nat} {c : Char} (h : c ∈ Nat.toDigits 16 n) :
    c ∈ hexDigits := by
  induction n using Nat.strongRecOn with
  | ind n ih =>
      rw [Nat.toDigits_eq_if (by decide)] at h
      split at h
      · rename_i hlt
        obtain rfl := List.mem_singleton.mp h
        exact digitChar_mem_hexDigits hlt
      · rename_i hge
        rcases List.mem_append.mp h with hinit | hlast
        · exact ih (n / 16) (by omega) hinit
        · obtain rfl := List.mem_singleton.mp hlast
          exact digitChar_mem_hexDigits (Nat.mod_lt n (by decide))

namespace Sha1

theorem mem_hexDigits_of_mem_hexWord {w : UInt32} {c : Char} (h : c ∈ hexWord w) : c ∈ hexDigits := by
  rcases List.mem_append.mp h with hzero | hdigit
  · obtain ⟨-, rfl⟩ := List.mem_replicate.mp hzero
    decide
  · exact mem_hexDigits_of_mem_toDigits hdigit

theorem length_hexWord (w : UInt32) : (hexWord w).length = 8 := by
  have hlength : (Nat.toDigits 16 w.toNat).length ≤ 8 :=
    (Nat.length_toDigits_le_iff (by decide) (by decide)).mpr w.toNat_lt
  simp only [hexWord, List.length_append, List.length_replicate]
  omega

end Sha1

theorem mem_hexDigits_of_mem_digest {parts : List Text} {c : Char} (h : c ∈ digest parts) :
    c ∈ hexDigits := by
  simp only [digest, Sha1.hex, List.mem_append] at h
  rcases h with (((h | h) | h) | h) | h <;> exact Sha1.mem_hexDigits_of_mem_hexWord h

theorem length_digest (parts : List Text) : (digest parts).length = 40 := by
  simp [digest, Sha1.hex, Sha1.length_hexWord]

theorem digest_ne_nil (parts : List Text) : digest parts ≠ [] := by
  apply List.length_pos_iff.mp
  rw [length_digest]
  decide

/-- A rewriting of characters that leaves the hexadecimal digits alone leaves digests alone. -/
theorem flatMap_digest {f : Char → Text} (hf : ∀ c ∈ hexDigits, f c = [c]) (parts : List Text) :
    (digest parts).flatMap f = digest parts := by
  have hall : ∀ c ∈ digest parts, f c = [c] := fun c hc => hf c (mem_hexDigits_of_mem_digest hc)
  generalize digest parts = t at hall
  induction t with
  | nil => rfl
  | cons c t ih =>
      have ht := ih fun c' hc' => hall c' (List.mem_cons_of_mem c hc')
      rw [List.flatMap_cons, hall c List.mem_cons_self, ht, List.singleton_append]

theorem textCharacter_of_mem_hexDigits : ∀ c ∈ hexDigits, Html.textCharacter c = [c] :=
  forall_mem_hexDigits (by decide)

theorem attributeCharacter_of_mem_hexDigits : ∀ c ∈ hexDigits, Html.attributeCharacter c = [c] :=
  forall_mem_hexDigits (by decide)

end Manuscript
