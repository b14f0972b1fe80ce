import Mathlib.Data.List.Forall2
import Mathlib.Data.Option.Basic

/-!
Two readings of the same kind, of which both give something or neither does, and which give what is related.

Main statements: such readings stay so through `map`, `bind`, `getD` and alternatives (`rel_map`, `rel_bind`, `rel_getD`,
`rel_or`).
-/

namespace Manuscript

section Options

variable {α β γ δ : Type} {r : α → β → Prop} {q : γ → δ → Prop} {x : Option α} {y : Option β}

theorem rel_mono {r' : α → β → Prop} (h : Option.Rel r x y) (hr : ∀ a b, r a b → r' a b) : Option.Rel r' x y := by
  cases h with
  | none => exact .none
  | some hab => exact .some (hr _ _ hab)

theorem rel_map (h : Option.Rel r x y) {f : α → γ} {g : β → δ} (hfg : ∀ a b, r a b → q (f a) (g b)) :
    Option.Rel q (x.map f) (y.map g) := by
  cases h with
  | none => exact .none
  | some hab => exact .some (hfg _ _ hab)

theorem rel_bind (h : Option.Rel r x y) {f : α → Option γ} {g : β → Option δ}
    (hfg : ∀ a b, x = some a → y = some b → r a b → Option.Rel q (f a) (g b)) : Option.Rel q (x.bind f) (y.bind g) := by
  cases h with
  | none => exact .none
  | some hab => exact hfg _ _ rfl rfl hab

theorem rel_getD (h : Option.Rel r x y) {a : α} {b : β} (hab : r a b) : r (x.getD a) (y.getD b) := by
  cases h with
  | none => exact hab
  | some hvalue => exact hvalue

theorem rel_or (h : Option.Rel r x y) {x' : Option α} {y' : Option β} (h' : Option.Rel r x' y') :
    Option.Rel r (x <|> x') (y <|> y') := by
  cases h with
  | none => exact h'
  | some hvalue => exact .some hvalue

theorem isSome_eq_of_rel (h : Option.Rel r x y) : x.isSome = y.isSome := by
  cases h <;> rfl

end Options

section Endorelations

variable {α : Type} {r : α → α → Prop} {x y : Option α}

theorem rel_refl (hr : ∀ a, r a a) (x : Option α) : Option.Rel r x x := by
  cases x with
  | none => exact .none
  | some a => exact .some (hr a)

theorem eq_of_rel (hr : ∀ a b, r a b → b = a) (h : Option.Rel r x y) : y = x := by
  cases h with
  | none => rfl
  | some h => rw [hr _ _ h]

theorem eq_some_iff_of_rel {a : α} (h : Option.Rel r x y) (ha : ∀ {b b'}, r b b' → (b = a ↔ b' = a)) :
    x = some a ↔ y = some a := by
  cases h with
  | none => exact Iff.rfl
  | some hab => simpa using ha hab

end Endorelations

end Manuscript
