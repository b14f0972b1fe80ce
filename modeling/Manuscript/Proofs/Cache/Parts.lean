import Manuscript.Proofs.Cache.Restore

/-!
Parts of drafts, and the places where tokens were put.

Main statements: tokens that act as markers in a draft do so in every part of it (`Meaning.Marks.of_part`), and looking
for one in the text finds the places that it was put at (`Draft.occurrences_text`).
-/

namespace Manuscript

namespace Draft

variable {token : Text} {l d r : Draft}

theorem OccursAsPut.of_append (htoken : token ≠ []) (h : OccursAsPut token (l ++ d)) : OccursAsPut token d := by
  induction l with
  | nil => exact h
  | cons p l ih => exact ih (h.of_cons htoken)

/-- A token that occurs only where it was put does so in the beginning of the draft as well. -/
theorem OccursAsPut.of_start (htoken : token ≠ []) (h : OccursAsPut token (d ++ r)) : OccursAsPut token d := by
  intro before after hsplit
  obtain ⟨left, right, hd, rfl⟩ := h before (after ++ text r) (by rw [text_append, hsplit, List.append_assoc])
  have hpositive := List.length_pos_iff.mpr htoken
  -- The token begins before the end of the draft.
  have hinside (beyond : Draft) (hleft : left = d ++ beyond) : False := by
    have hlength := congrArg List.length hsplit
    rw [hleft, text_append, List.length_append, List.length_append, List.length_append] at hlength
    omega
  rcases List.append_eq_append_iff.mp hd with ⟨beyond, hleft, -⟩ | ⟨rest, rfl, hrest⟩
  · exact (hinside beyond hleft).elim
  · cases rest with
    | nil => exact (hinside [] (by simp)).elim
    | cons p rest =>
        obtain ⟨rfl, -⟩ := List.cons.inj hrest
        exact ⟨left, rest, rfl, rfl⟩

/-- Looking for a marker in the text finds the places that it was put at. -/
theorem occurrences_text (htoken : token ≠ []) (h : OccursAsPut token d) :
    Text.occurrences token (text d) = places token 0 d := by
  have hpassed (position : Nat) (s t : Text) :
      Text.occurrences.sweep token s.length position (s ++ t) =
        Text.occurrences.sweep token 0 (position + s.length) t := by
    induction s generalizing position with
    | nil => rfl
    | cons c s ih =>
        rw [List.length_cons, List.cons_append, Text.occurrences.sweep, ih]
        congr 1
        omega
  have hskipped (position : Nat) (s t : Text)
      (hs : ∀ head c tail, s = head ++ c :: tail → Text.startsWith token (c :: tail ++ t) = false) :
      Text.occurrences.sweep token 0 position (s ++ t) = Text.occurrences.sweep token 0 (position + s.length) t := by
    induction s generalizing position with
    | nil => rfl
    | cons c s ih =>
        have hhead := hs [] c s rfl
        have htail := ih (position + 1) fun head c' tail hsplit => hs (c :: head) c' tail (by simp [hsplit])
        rw [List.cons_append] at hhead ⊢
        rw [Text.occurrences.sweep, if_neg (by simp [hhead]), htail, List.length_cons]
        congr 1
        omega
  suffices hsweep : ∀ position, Text.occurrences.sweep token 0 position (text d) = places token position d by
    rw [Text.occurrences, if_neg htoken]
    exact hsweep 0
  intro position
  induction d generalizing position with
  | nil => rfl
  | cons p d ih =>
      have hrest := ih (h.of_cons htoken) (position + p.text.length)
      rw [text_cons, places]
      by_cases hp : p = .token token
      · subst hp
        rw [if_pos rfl, ← hrest]
        obtain ⟨c, rest, heq⟩ := List.exists_cons_of_ne_nil htoken
        have hstarts : Text.startsWith token (token ++ text d) = true := by
          simp [Text.startsWith, Text.after?_append]
        have hstarts' := hstarts
        simp only [Part.text]
        rw [heq, List.cons_append] at hstarts' ⊢
        rw [← heq] at hstarts' ⊢
        rw [Text.occurrences.sweep, if_pos hstarts', heq, List.length_cons, Nat.add_sub_cancel, ← heq, hpassed]
        congr 2
        omega
      · rw [if_neg hp, ← hrest]
        exact hskipped position p.text (text d) fun head c tail htext => h.not_startsWith hp htext

theorem put_nil_eq_filter (d : Draft) (token : Text) : d.put token [] = d.filter fun p => p ≠ .token token := by
  induction d with
  | nil => rfl
  | cons p d ih =>
      by_cases hp : p = .token token
      · rw [hp, put_cons_self, ih]
        simp
      · rw [put_cons_of_ne hp, ih]
        simp [hp]

end Draft

namespace Meaning

variable {m : Meaning} {l d r : Draft}

theorem unfold_append (m : Meaning) (d e : Draft) (token : Text) :
    m.unfold (d ++ e) token = m.unfold d token ++ m.unfold e token := by
  unfold unfold
  split
  · exact List.flatMap_append
  · rfl

/-- What comes of a part of a draft is part of what comes of the draft. -/
theorem Unfolds.of_part {e : Draft} (h : m.Unfolds d e) (l r : Draft) :
    ∃ l' r', m.Unfolds (l ++ d ++ r) (l' ++ e ++ r') := by
  induction h with
  | refl => exact ⟨l, r, .refl⟩
  | step token _ ih =>
      obtain ⟨l', r', hunfolds⟩ := ih
      have hstep := hunfolds.step token
      rw [unfold_append, unfold_append] at hstep
      exact ⟨_, _, hstep⟩

theorem Marks.of_part {tokens : List Text} (hne : ∀ token ∈ tokens, token ≠ []) (h : m.Marks tokens (l ++ d ++ r)) :
    m.Marks tokens d := by
  intro e he token htoken
  obtain ⟨l', r', hunfolds⟩ := he.of_part l r
  exact ((h _ hunfolds token htoken).of_start (hne token htoken)).of_append (hne token htoken)

/-- Nothing comes of a draft without tokens but the draft. -/
theorem Unfolds.eq_of_forall_notMem {e : Draft} (h : m.Unfolds d e) (hd : ∀ token, .token token ∉ d) : e = d := by
  induction h with
  | refl => rfl
  | step token _ ih =>
      subst ih
      unfold unfold
      split
      · exact Draft.put_eq_self (hd token) _
      · rfl

/-- Tokens that stand for nothing are taken out of a draft. -/
theorem foldl_unfold_eq_filter {m : Meaning} {tokens : List Text} (h : ∀ token ∈ tokens, m.draft? token = some [])
    (d : Draft) : tokens.foldl m.unfold d = d.filter fun p => ∀ token ∈ tokens, p ≠ .token token := by
  induction tokens generalizing d with
  | nil => simp
  | cons token tokens ih =>
      obtain ⟨htoken, htokens⟩ := List.forall_mem_cons.mp h
      have hput : m.unfold d token = d.filter fun p => p ≠ .token token := by
        simp only [unfold, htoken, Draft.put_nil_eq_filter]
      rw [List.foldl_cons, ih htokens, hput, List.filter_filter]
      refine List.filter_congr fun p _ => ?_
      simp [Bool.and_comm]

end Meaning

end Manuscript
