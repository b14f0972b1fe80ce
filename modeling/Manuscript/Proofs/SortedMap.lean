import Mathlib.Data.List.Nodup
import Manuscript.SortedMap

/-!
Lists and maps in which no key stands twice.

Main statements: an insertion keeps the keys in ascending order (`pairwise_keys_insert`), so that a map holds exactly
the pairs that are found by their keys (`mem_toList_iff`) and is made of them again (`ofList_toList`); a union has the
values of its second map (`get?_union`).
-/

namespace Manuscript

/-- Where no key stands twice, what is in the list is found by its key. -/
theorem find?_key_of_mem {α κ : Type} [DecidableEq κ] {key : α → κ} {l : List α} (hl : (l.map key).Nodup) {a : α}
    (ha : a ∈ l) : l.find? (fun b => key b = key a) = some a := by
  induction l with
  | nil => simp at ha
  | cons b l ih =>
      rw [List.map_cons, List.nodup_cons] at hl
      rcases List.mem_cons.mp ha with rfl | hmem
      · simp
      · have hne : key b ≠ key a := by
          intro heq
          exact hl.1 (heq ▸ List.mem_map_of_mem hmem)
        rw [List.find?_cons_of_neg (by simpa using hne)]
        exact ih hl.2 hmem

namespace SortedMap

variable {κ ν : Type} [DecidableEq κ]

theorem mem_of_get? {m : SortedMap κ ν} {k : κ} {v : ν} (h : m.get? k = some v) : (k, v) ∈ m.toList := by
  obtain ⟨⟨k', v'⟩, hfind, rfl⟩ := Option.map_eq_some_iff.mp h
  obtain rfl : k' = k := by simpa using List.find?_some hfind
  exact List.mem_of_find?_eq_some hfind

theorem mem_toList_iff {m : SortedMap κ ν} (hm : m.keys.Nodup) {k : κ} {v : ν} :
    (k, v) ∈ m.toList ↔ m.get? k = some v := by
  constructor
  · intro hmem
    have hkeys : (m.toList.map Prod.fst).Nodup := hm
    rw [get?, find?_key_of_mem hkeys hmem]
    rfl
  · exact mem_of_get?

variable [LT κ] [DecidableLT κ]

theorem mem_insertInto {k : κ} {v : ν} {pairs : List (κ × ν)} {p : κ × ν} (h : p ∈ insertInto k v pairs) :
    p = (k, v) ∨ p ∈ pairs := by
  induction pairs with
  | nil => exact Or.inl (List.mem_singleton.mp h)
  | cons q pairs ih =>
      obtain ⟨k₁, v₁⟩ := q
      rw [insertInto] at h
      split at h
      · rcases List.mem_cons.mp h with rfl | hmem
        · exact Or.inl rfl
        · exact Or.inr (List.mem_cons_of_mem _ hmem)
      · split at h
        · exact List.mem_cons.mp h
        · rcases List.mem_cons.mp h with rfl | hmem
          · exact Or.inr List.mem_cons_self
          · exact (ih hmem).imp_right (List.mem_cons_of_mem _)

theorem mem_insert {m : SortedMap κ ν} {k : κ} {v : ν} {p : κ × ν} (h : p ∈ (m.insert k v).toList) :
    p = (k, v) ∨ p ∈ m.toList := mem_insertInto h

/-- The entries of a union come from the two maps. -/
theorem mem_union {m₁ m₂ : SortedMap κ ν} {p : κ × ν} (h : p ∈ (m₁.union m₂).toList) :
    p ∈ m₁.toList ∨ p ∈ m₂.toList := by
  obtain ⟨pairs⟩ := m₂
  unfold union at h
  induction pairs generalizing m₁ with
  | nil => exact Or.inl h
  | cons q pairs ih =>
      rcases ih h with hmem | hmem
      · rcases mem_insert hmem with rfl | hmem
        · exact Or.inr List.mem_cons_self
        · exact Or.inl hmem
      · exact Or.inr (List.mem_cons_of_mem q hmem)

theorem mem_ofList {pairs : List (κ × ν)} {p : κ × ν} (h : p ∈ (ofList pairs : SortedMap κ ν).toList) : p ∈ pairs := by
  have hunion : p ∈ (union empty ⟨pairs⟩ : SortedMap κ ν).toList := h
  rcases mem_union hunion with hmem | hmem
  · cases hmem
  · exact hmem

omit [LT κ] [DecidableLT κ] in
theorem mem_keys_iff {m : SortedMap κ ν} {k : κ} : k ∈ m.keys ↔ (m.get? k).isSome = true := by
  constructor
  · intro hk
    obtain ⟨p, hp, rfl⟩ := List.mem_map.mp hk
    simp only [get?, Option.isSome_map, List.find?_isSome]
    exact ⟨p, hp, by simp⟩
  · intro hk
    obtain ⟨v, hv⟩ := Option.isSome_iff_exists.mp hk
    exact List.mem_map_of_mem (mem_of_get? hv)

/-- A union has the values of the second map, and those of the first where the second has none. -/
theorem get?_union {m₁ m₂ : SortedMap κ ν} (hm₂ : m₂.keys.Nodup) (k : κ) :
    (m₁.union m₂).get? k = (m₂.get? k).or (m₁.get? k) := by
  obtain ⟨pairs⟩ := m₂
  simp only [union]
  induction pairs generalizing m₁ with
  | nil => rfl
  | cons p pairs ih =>
      obtain ⟨k₁, v₁⟩ := p
      rw [keys, List.map_cons, List.nodup_cons] at hm₂
      rw [List.foldl_cons, ih hm₂.2, get?_insert]
      by_cases heq : k₁ = k
      · subst heq
        have hnone : (⟨pairs⟩ : SortedMap κ ν).get? k₁ = none :=
          Option.not_isSome_iff_eq_none.mp fun hsome => hm₂.1 (mem_keys_iff.mpr hsome)
        rw [hnone]
        simp [get?]
      · simp [get?, heq]

theorem mem_keys_union {m₁ m₂ : SortedMap κ ν} (hm₂ : m₂.keys.Nodup) {k : κ} :
    k ∈ (m₁.union m₂).keys ↔ k ∈ m₁.keys ∨ k ∈ m₂.keys := by
  rw [mem_keys_iff, mem_keys_iff, mem_keys_iff, get?_union hm₂, Option.isSome_or, Bool.or_eq_true, or_comm]

theorem mem_map_fst_insertInto {k k' : κ} {v : ν} {pairs : List (κ × ν)}
    (h : k' ∈ (insertInto k v pairs).map Prod.fst) : k' = k ∨ k' ∈ pairs.map Prod.fst := by
  obtain ⟨p, hp, rfl⟩ := List.mem_map.mp h
  rcases mem_insertInto hp with rfl | hmem
  · exact Or.inl rfl
  · exact Or.inr (List.mem_map_of_mem hmem)

variable [LE κ] [Std.IsLinearOrder κ] [Std.LawfulOrderLT κ]

/-- An insertion keeps the keys in ascending order. -/
theorem pairwise_keys_insert {m : SortedMap κ ν} (hm : m.keys.Pairwise (· < ·)) (k : κ) (v : ν) :
    (m.insert k v).keys.Pairwise (· < ·) := by
  obtain ⟨pairs⟩ := m
  simp only [keys, insert] at hm ⊢
  induction pairs with
  | nil => simp [insertInto]
  | cons p pairs ih =>
      obtain ⟨k₁, v₁⟩ := p
      rw [List.map_cons, List.pairwise_cons] at hm
      simp only [insertInto]
      split
      · rename_i heq
        subst heq
        exact List.pairwise_cons.mpr hm
      · rename_i hne
        split
        · rename_i hlt
          refine List.pairwise_cons.mpr ⟨fun k' hk' => ?_, List.pairwise_cons.mpr hm⟩
          rcases List.mem_cons.mp hk' with rfl | hmem
          · exact hlt
          · exact Std.lt_trans hlt (hm.1 k' hmem)
        · rename_i hlt
          have hgt : k₁ < k := Std.lt_of_le_of_ne (Std.not_lt.mp hlt) fun heq => hne heq.symm
          refine List.pairwise_cons.mpr ⟨fun k' hk' => ?_, ih hm.2⟩
          rcases mem_map_fst_insertInto hk' with rfl | hmem
          · exact hgt
          · exact hm.1 k' hmem

theorem pairwise_keys_union {m₁ : SortedMap κ ν} (hm₁ : m₁.keys.Pairwise (· < ·)) (m₂ : SortedMap κ ν) :
    (m₁.union m₂).keys.Pairwise (· < ·) := by
  obtain ⟨pairs⟩ := m₂
  simp only [union]
  induction pairs generalizing m₁ with
  | nil => exact hm₁
  | cons p pairs ih => exact ih (pairwise_keys_insert hm₁ p.1 p.2)

theorem pairwise_keys_ofList (pairs : List (κ × ν)) : (ofList pairs : SortedMap κ ν).keys.Pairwise (· < ·) :=
  pairwise_keys_union List.Pairwise.nil ⟨pairs⟩

theorem insertInto_of_lt {k : κ} {v : ν} {pairs : List (κ × ν)} (h : ∀ p ∈ pairs, p.1 < k) :
    insertInto k v pairs = pairs ++ [(k, v)] := by
  induction pairs with
  | nil => rfl
  | cons p pairs ih =>
      have hlt := h p List.mem_cons_self
      have hne : k ≠ p.1 := fun heq => Std.lt_irrefl (heq ▸ hlt)
      have hnlt : ¬k < p.1 := Std.not_lt.mpr (Std.le_of_lt hlt)
      rw [insertInto, if_neg hne, if_neg hnlt, ih fun q hq => h q (List.mem_cons_of_mem _ hq), List.cons_append]

/-- A map is made of its own pairs. -/
theorem ofList_toList {m : SortedMap κ ν} (hm : m.keys.Pairwise (· < ·)) : ofList m.toList = m := by
  have hfold (before pairs : List (κ × ν)) (h : ((before ++ pairs).map Prod.fst).Pairwise (· < ·)) :
      pairs.foldl (fun m p => m.insert p.1 p.2) (⟨before⟩ : SortedMap κ ν) = ⟨before ++ pairs⟩ := by
    induction pairs generalizing before with
    | nil => simp
    | cons p pairs ih =>
        have hlt : ∀ q ∈ before, q.1 < p.1 := by
          rw [List.map_append, List.pairwise_append] at h
          intro q hq
          exact h.2.2 q.1 (List.mem_map_of_mem hq) p.1 (by simp)
        have hinsert : (⟨before⟩ : SortedMap κ ν).insert p.1 p.2 = ⟨before ++ [p]⟩ := by
          rw [insert, insertInto_of_lt hlt]
        rw [List.foldl_cons]
        simp only [hinsert]
        rw [ih (before ++ [p]) (by simpa using h)]
        simp
  exact hfold [] m.toList hm

omit [DecidableEq κ] [DecidableLT κ] [Std.IsLinearOrder κ] in
theorem nodup_keys {m : SortedMap κ ν} (hm : m.keys.Pairwise (· < ·)) : m.keys.Nodup := by
  refine List.Pairwise.imp ?_ hm
  intro a b hlt heq
  subst heq
  exact Std.lt_irrefl hlt

end SortedMap

end Manuscript
