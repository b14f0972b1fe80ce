import Mathlib.Data.List.Basic
import Manuscript.Text.Basic
import Manuscript.Text.Utf8

/-!
Texts come back from their bytes.

Main statements: `decode?_encode`, by reading the bytes of one character after the other (`characters_encode`), and the
bytes of a text begin with those of another if and only if the text begins with the other one
(`encode_prefix_encode_iff`).
-/

namespace Manuscript.Utf8

section Reading

variable {low high bits owed : Nat} {byte : UInt8} {rest : Bytes}

/-- A first byte that announces more bytes. -/
theorem characters_begun {b : Begun} (h : lead byte.toNat = .begun b) :
    characters none (byte :: rest) = characters (some b) rest := by
  simp only [characters, step, start, h, List.nil_append]

/-- A byte of a character after which more are owed. -/
theorem characters_more (hlow : low ≤ byte.toNat) (hhigh : byte.toNat ≤ high) :
    characters (some ⟨owed + 2, low, high, bits⟩) (byte :: rest) =
      characters (some ⟨owed + 1, 0x80, 0xBF, bits * 64 + (byte.toNat - 0x80)⟩) rest := by
  have howed : ¬owed + 2 ≤ 1 := by omega
  simp only [characters, step, if_pos (And.intro hlow hhigh), if_neg howed, List.nil_append,
    Nat.reduceSubDiff]

/-- The last byte of a character. -/
theorem characters_last (hlow : low ≤ byte.toNat) (hhigh : byte.toNat ≤ high) :
    characters (some ⟨1, low, high, bits⟩) (byte :: rest) =
      some (Char.ofNat (bits * 64 + (byte.toNat - 0x80))) :: characters none rest := by
  simp only [characters, step, if_pos (And.intro hlow hhigh), Nat.le_refl, if_true, List.singleton_append]

end Reading

theorem lead_two {byte : Nat} (hlow : 0xC2 ≤ byte) (hhigh : byte ≤ 0xDF) :
    lead byte = .begun ⟨1, 0x80, 0xBF, byte - 0xC0⟩ := by
  rw [lead, if_neg (by omega), if_pos ⟨hlow, hhigh⟩]

/-- Of the first bytes of three, the smallest allows no overlong form after it, and one no surrogate. -/
theorem lead_three {byte : Nat} (hlow : 0xE0 ≤ byte) (hhigh : byte ≤ 0xEF) :
    lead byte = .begun ⟨2, if byte = 0xE0 then 0xA0 else 0x80, if byte = 0xED then 0x9F else 0xBF, byte - 0xE0⟩ := by
  rw [lead, if_neg (by omega), if_neg (by omega)]
  by_cases hfirst : byte = 0xE0
  · subst hfirst
    rfl
  · by_cases hsurrogate : byte = 0xED
    · subst hsurrogate
      rfl
    · rw [if_neg hfirst, if_neg hsurrogate, if_pos (by omega), if_neg hfirst, if_neg hsurrogate]

/-- Of the first bytes of four, the smallest allows no overlong form after it, and the greatest nothing beyond
Unicode. -/
theorem lead_four {byte : Nat} (hlow : 0xF0 ≤ byte) (hhigh : byte ≤ 0xF4) :
    lead byte = .begun ⟨3, if byte = 0xF0 then 0x90 else 0x80, if byte = 0xF4 then 0x8F else 0xBF, byte - 0xF0⟩ := by
  rw [lead, if_neg (by omega), if_neg (by omega), if_neg (by omega), if_neg (by omega), if_neg (by omega)]
  by_cases hfirst : byte = 0xF0
  · subst hfirst
    rfl
  · by_cases hlast : byte = 0xF4
    · subst hlast
      rfl
    · rw [if_neg hfirst, if_neg hlast, if_pos (by omega), if_neg hfirst, if_neg hlast]

/-- The bytes of a character are read as the character. -/
theorem characters_utf8EncodeChar (c : Char) (rest : Bytes) :
    characters none (String.utf8EncodeChar c ++ rest) = some c :: characters none rest := by
  have hc : ∀ n, n = c.val.toNat → Char.ofNat n = c := by
    rintro n rfl
    exact Char.ofNat_toNat c
  have hvalid : c.val.toNat < 0xD800 ∨ 0xDFFF < c.val.toNat ∧ c.val.toNat < 0x110000 := c.valid
  have hbyte : ∀ n, n < 256 → (UInt8.ofNat n).toNat = n := fun n hn => by simp [Nat.mod_eq_of_lt hn]
  unfold String.utf8EncodeChar
  generalize c.val.toNat = v at hc hvalid
  simp only
  split
  · have h₀ := hbyte v (by omega)
    have hlead : lead v = .whole c := by rw [lead, if_pos (by omega), hc v rfl]
    simp only [List.singleton_append, characters, step, start, h₀, hlead]
  · split
    · have h₀ := hbyte (v / 64 % 32 + 192) (by omega)
      have h₁ := hbyte (v % 64 + 128) (by omega)
      have hlead : lead (v / 64 % 32 + 192) = _ := lead_two (by omega) (by omega)
      rw [← h₀] at hlead
      rw [List.cons_append, characters_begun hlead, List.singleton_append,
        characters_last (by omega) (by omega), hc _ (by omega)]
    · split
      · have h₀ := hbyte (v / 4096 % 16 + 224) (by omega)
        have h₁ := hbyte (v / 64 % 64 + 128) (by omega)
        have h₂ := hbyte (v % 64 + 128) (by omega)
        have hlead : lead (v / 4096 % 16 + 224) = _ := lead_three (by omega) (by omega)
        rw [← h₀] at hlead
        rw [List.cons_append, characters_begun hlead, List.cons_append,
          characters_more (by split <;> omega) (by split <;> omega), List.singleton_append,
          characters_last (by omega) (by omega), hc _ (by omega)]
      · have h₀ := hbyte (v / 262144 % 8 + 240) (by omega)
        have h₁ := hbyte (v / 4096 % 64 + 128) (by omega)
        have h₂ := hbyte (v / 64 % 64 + 128) (by omega)
        have h₃ := hbyte (v % 64 + 128) (by omega)
        have hlead : lead (v / 262144 % 8 + 240) = _ := lead_four (by omega) (by omega)
        rw [← h₀] at hlead
        rw [List.cons_append, characters_begun hlead, List.cons_append,
          characters_more (by split <;> omega) (by split <;> omega), List.cons_append,
          characters_more (by omega) (by omega), List.singleton_append,
          characters_last (by omega) (by omega), hc _ (by omega)]

theorem characters_encode_append (t : Text) (rest : Bytes) :
    characters none (encode t ++ rest) = t.map some ++ characters none rest := by
  induction t with
  | nil => rfl
  | cons c t ih =>
      rw [encode, List.flatMap_cons, List.append_assoc, characters_utf8EncodeChar, List.map_cons]
      exact congrArg (some c :: ·) ih

theorem characters_encode (t : Text) : characters none (encode t) = t.map some := by
  have happend := characters_encode_append t []
  rwa [List.append_nil, characters, List.append_nil] at happend

/-- Texts come back from their bytes. -/
theorem decode?_encode (t : Text) : decode? (encode t) = some t := by
  rw [decode?, characters_encode]
  induction t with
  | nil => rfl
  | cons c t ih => simp [List.mapM_cons, ih]

@[simp] theorem encode_append (s t : Text) : encode (s ++ t) = encode s ++ encode t := List.flatMap_append

theorem length_encode (t : Text) : (encode t).length = Text.byteLength t := by
  induction t with
  | nil => rfl
  | cons c t ih =>
      rw [encode, List.flatMap_cons, List.length_append, String.length_utf8EncodeChar, Text.byteLength_cons, ← ih]
      rfl

/-- Bytes of a text are looked for as the text is. -/
theorem encode_prefix_encode_iff {s t : Text} : encode s <+: encode t ↔ s <+: t := by
  constructor
  · rintro ⟨rest, hrest⟩
    have hcharacters := characters_encode_append s rest
    rw [hrest, characters_encode] at hcharacters
    exact (List.prefix_map_iff_of_injective (fun _ _ => Option.some.inj)).mp ⟨_, hcharacters.symm⟩
  · rintro ⟨rest, rfl⟩
    rw [encode_append]
    exact List.prefix_append (encode s) (encode rest)

/-- An ASCII character is one byte. -/
theorem encode_singleton {c : Char} (h : c.toNat < 0x80) : encode [c] = [UInt8.ofNat c.toNat] := by
  have hsize : c.utf8Size = 1 := Char.utf8Size_eq_one_iff.mpr (by
    show c.val.toNat ≤ 127
    exact Nat.le_of_lt_succ h)
  rw [encode, List.flatMap_singleton, String.utf8EncodeChar_eq_singleton hsize]
  rfl

/-- No byte of another character is ASCII. -/
theorem le_of_mem_encode_singleton {c : Char} (h : 0x80 ≤ c.toNat) : ∀ byte ∈ encode [c], 0x80 ≤ byte.toNat := by
  have hbyte : ∀ n, 0x80 ≤ n → n < 256 → 0x80 ≤ (UInt8.ofNat n).toNat := by
    intro n hlow hhigh
    simpa [Nat.mod_eq_of_lt hhigh] using hlow
  have hc : 0x80 ≤ c.val.toNat := h
  rw [encode, List.flatMap_singleton]
  unfold String.utf8EncodeChar
  generalize c.val.toNat = v at hc
  simp only
  split
  · omega
  · split
    · simp only [List.forall_mem_cons]
      exact ⟨hbyte _ (by omega) (by omega), hbyte _ (by omega) (by omega), by simp⟩
    · split
      · simp only [List.forall_mem_cons]
        exact ⟨hbyte _ (by omega) (by omega), hbyte _ (by omega) (by omega), hbyte _ (by omega) (by omega), by simp⟩
      · simp only [List.forall_mem_cons]
        exact ⟨hbyte _ (by omega) (by omega), hbyte _ (by omega) (by omega), hbyte _ (by omega) (by omega),
          hbyte _ (by omega) (by omega), by simp⟩

theorem encode_cons {c : Char} (h : c.toNat < 0x80) (t : Text) : encode (c :: t) = UInt8.ofNat c.toNat :: encode t := by
  rw [← List.singleton_append, encode_append, encode_singleton h, List.singleton_append]

/-- After the first byte of a character come none that are ASCII. -/
theorem exists_encode_singleton (c : Char) :
    ∃ first more, encode [c] = first :: more ∧ ∀ byte ∈ more, 0x80 ≤ byte.toNat := by
  by_cases h : c.toNat < 0x80
  · exact ⟨_, [], encode_singleton h, by simp⟩
  · have hbytes := le_of_mem_encode_singleton (Nat.le_of_not_lt h)
    have hne : encode [c] ≠ [] := by
      rw [encode, List.flatMap_singleton]
      exact String.utf8EncodeChar_ne_nil
    obtain ⟨first, more, heq⟩ := List.exists_cons_of_ne_nil hne
    exact ⟨first, more, heq, fun byte hbyte => hbytes byte (heq ▸ List.mem_cons_of_mem first hbyte)⟩

end Manuscript.Utf8
