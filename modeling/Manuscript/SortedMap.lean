/-!
Finite maps as lists of pairs in ascending order of their keys.

Main statement: after an insertion the inserted key has the new value and every other key the value it had
(`get?_insert`).
-/

namespace Manuscript

/-- A finite map; every operation keeps the keys in ascending order. -/
structure SortedMap (κ ν : Type) where
  toList : List (κ × ν)

namespace SortedMap

variable {κ ν : Type}

/-- The map without keys. -/
def empty : SortedMap κ ν := ⟨[]⟩

/-- The number of keys. -/
def size (m : SortedMap κ ν) : Nat := m.toList.length

/-- The keys, in ascending order. -/
def keys (m : SortedMap κ ν) : List κ := m.toList.map Prod.fst

variable [DecidableEq κ]

/-- The value of a key. -/
def get? (m : SortedMap κ ν) (k : κ) : Option ν := (m.toList.find? fun p => p.1 = k).map Prod.snd

/-- The map without the key. -/
def erase (m : SortedMap κ ν) (k : κ) : SortedMap κ ν := ⟨m.toList.filter fun p => p.1 ≠ k⟩

variable [LT κ] [DecidableLT κ]

/-- A list of pairs with the key's value set. -/
def insertInto (k : κ) (v : ν) : List (κ × ν) → List (κ × ν)
  | [] => [(k, v)]
  | (k', v') :: rest =>
    if k = k' then (k, v) :: rest
    else if k < k' then (k, v) :: (k', v') :: rest
    else (k', v') :: insertInto k v rest

/-- The map with the key's value set. -/
def insert (m : SortedMap κ ν) (k : κ) (v : ν) : SortedMap κ ν := ⟨insertInto k v m.toList⟩

/-- The map of a list of pairs; the last pair of a key counts. -/
def ofList (pairs : List (κ × ν)) : SortedMap κ ν :=
  pairs.foldl (fun m (k, v) => m.insert k v) empty

/-- The map with the entries of both, the second map's where both have the key. -/
def union (m₁ m₂ : SortedMap κ ν) : SortedMap κ ν :=
  m₂.toList.foldl (fun m (k, v) => m.insert k v) m₁

omit [LT κ] [DecidableLT κ] in
@[simp] theorem get?_empty (k : κ) : (empty : SortedMap κ ν).get? k = none := rfl

theorem get?_insert (m : SortedMap κ ν) (k k' : κ) (v : ν) :
    (m.insert k v).get? k' = if k = k' then some v else m.get? k' := by
  obtain ⟨pairs⟩ := m
  simp only [get?, insert]
  induction pairs with
  | nil => by_cases h : k = k' <;> simp [insertInto, h]
  | cons p rest ih =>
      obtain ⟨k₁, v₁⟩ := p
      simp only [insertInto]
      split
      · rename_i heq
        subst heq
        by_cases h : k = k' <;> simp [h]
      · split
        · by_cases h : k = k' <;> simp [h]
        · rename_i hne _
          by_cases h₁ : k₁ = k'
          · subst h₁
            simp [hne]
          · simpa [h₁] using ih

end SortedMap

end Manuscript
