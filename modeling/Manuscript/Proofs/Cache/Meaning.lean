import Manuscript.Proofs.Draft

/-!
What the tokens of a draft stand for.  Tokens of entries stand for drafts, which may hold tokens in turn, and
tokens of labels stand for texts.

Main statements: replacing a token by what it stands for does not change the full expansion of a draft
(`Expands.of_unfold`), and replacing the tokens of all entries, in any order, takes at least one level of
nesting away (`nestedWithin_foldl_unfold`).
-/

namespace Manuscript

/-- What tokens stand for. -/
structure Meaning where
  cached? : Text → Option Draft
  label? : Text → Option Text

namespace Meaning

variable {m : Meaning}

/-- The draft that a token stands for. -/
def draft? (m : Meaning) (token : Text) : Option Draft :=
  (m.cached? token).or ((m.label? token).map Draft.plain)

/-- The full expansion of a draft: each token is replaced by the expansion of what it stands for. -/
inductive Expands (m : Meaning) : Draft → Text → Prop
  | nil : Expands m [] []
  | character (c : Char) {d : Draft} {t : Text} (rest : Expands m d t) :
      Expands m (.character c :: d) (c :: t)
  | token {token : Text} {new d : Draft} {u t : Text} (meaning : m.draft? token = some new)
      (inside : Expands m new u) (rest : Expands m d t) : Expands m (.token token :: d) (u ++ t)

/-- The draft with what a token stands for in the place of the token. -/
def unfold (m : Meaning) (d : Draft) (token : Text) : Draft :=
  match m.draft? token with
  | some new => d.put token new
  | none => d

/-- The drafts that come of a draft when tokens are replaced, one after the other and in any order. -/
inductive Unfolds (m : Meaning) (d : Draft) : Draft → Prop
  | refl : Unfolds m d d
  | step {e : Draft} (token : Text) : Unfolds m d e → Unfolds m d (m.unfold e token)

/-- Every token in the draft stands for something. -/
def Known (m : Meaning) (d : Draft) : Prop := ∀ token, .token token ∈ d → (m.draft? token).isSome

/-- Every token in what an entry stands for stands for something. -/
def Closed (m : Meaning) : Prop := ∀ token new, m.cached? token = some new → m.Known new

/-- The token leads to entries that lie at most so deep inside one another. -/
def Within (m : Meaning) : (depth : Nat) → (token : Text) → Prop
  | 0, token => m.cached? token = none
  | depth + 1, token =>
    ∀ new, m.cached? token = some new → ∀ inner, .token inner ∈ new → m.Within depth inner

/-- The tokens in the draft lead to entries that lie at most so deep inside one another. -/
def NestedWithin (m : Meaning) (depth : Nat) (d : Draft) : Prop :=
  ∀ token, .token token ∈ d → m.Within depth token

namespace Expands

theorem append {d e : Draft} {s t : Text} (hd : Expands m d s) (he : Expands m e t) :
    Expands m (d ++ e) (s ++ t) := by
  induction hd with
  | nil => exact he
  | character c _ ih => exact .character c ih
  | token meaning inside _ _ ih =>
      rw [List.append_assoc]
      exact .token meaning inside ih

theorem exists_of_append {d e : Draft} {t : Text} (h : Expands m (d ++ e) t) :
    ∃ s u, t = s ++ u ∧ Expands m d s ∧ Expands m e u := by
  induction d generalizing t with
  | nil => exact ⟨[], t, rfl, .nil, h⟩
  | cons p d ih =>
      cases h with
      | character c rest =>
          obtain ⟨s, u, rfl, hs, hu⟩ := ih rest
          exact ⟨c :: s, u, rfl, .character c hs, hu⟩
      | token meaning inside rest =>
          obtain ⟨s, u, rfl, hs, hu⟩ := ih rest
          exact ⟨_, u, (List.append_assoc _ s u).symm, .token meaning inside hs, hu⟩

/-- A draft has one full expansion. -/
theorem unique {d : Draft} {s t : Text} (hs : Expands m d s) (ht : Expands m d t) : s = t := by
  induction hs generalizing t with
  | nil =>
      cases ht
      rfl
  | character c _ ih =>
      cases ht with
      | character _ rest => rw [ih rest]
  | token meaning _ _ ihInside ihRest =>
      cases ht with
      | token meaning' inside rest =>
          obtain rfl := Option.some.inj (meaning.symm.trans meaning')
          rw [ihInside inside, ihRest rest]

/-- A draft has an expansion only if each of its tokens stands for something. -/
theorem known {d : Draft} {t : Text} (h : Expands m d t) : m.Known d := by
  induction h with
  | nil => exact fun token htoken => by cases htoken
  | character c _ ih =>
      intro token htoken
      rcases List.mem_cons.mp htoken with heq | hmem
      · cases heq
      · exact ih token hmem
  | token meaning _ _ _ ih =>
      intro token htoken
      rcases List.mem_cons.mp htoken with heq | hmem
      · obtain rfl := Part.token.inj heq
        exact Option.isSome_of_eq_some meaning
      · exact ih token hmem

/-- A draft without tokens expands to its text. -/
theorem text {d : Draft} (h : ∀ token, .token token ∉ d) : Expands m d (Draft.text d) := by
  induction d with
  | nil => exact .nil
  | cons p d ih =>
      have hrest := ih fun token hmem => h token (List.mem_cons_of_mem p hmem)
      cases p with
      | character c => exact .character c hrest
      | token t => exact absurd List.mem_cons_self (h t)

theorem of_put {token : Text} {new d : Draft} (hnew : m.draft? token = some new) {t : Text}
    (h : Expands m (d.put token new) t) : Expands m d t := by
  induction d generalizing t with
  | nil => exact h
  | cons p d ih =>
      by_cases hp : p = .token token
      · subst hp
        rw [Draft.put_cons_self] at h
        obtain ⟨s, u, rfl, hs, hu⟩ := exists_of_append h
        exact .token hnew hs (ih hu)
      · rw [Draft.put_cons_of_ne hp] at h
        cases h with
        | character c rest => exact .character c (ih rest)
        | token meaning inside rest => exact .token meaning inside (ih rest)

theorem of_unfold {token : Text} {d : Draft} {t : Text} (h : Expands m (m.unfold d token) t) :
    Expands m d t := by
  unfold Meaning.unfold at h
  split at h
  · rename_i hnew
    exact of_put hnew h
  · exact h

theorem of_unfolds {d e : Draft} (hde : m.Unfolds d e) {t : Text} (h : Expands m e t) :
    Expands m d t := by
  induction hde with
  | refl => exact h
  | step token _ ih => exact ih h.of_unfold

end Expands

theorem Unfolds.foldl {d e : Draft} (h : m.Unfolds d e) (tokens : List Text) :
    m.Unfolds d (tokens.foldl m.unfold e) := by
  induction tokens generalizing e with
  | nil => exact h
  | cons token tokens ih => exact ih (h.step token)

theorem Unfolds.trans {d e f : Draft} (hde : m.Unfolds d e) (hef : m.Unfolds e f) : m.Unfolds d f := by
  induction hef with
  | refl => exact hde
  | step token _ ih => exact ih.step token

/-- A token in an unfolded draft was there before, or is in what the entry stands for that was unfolded. -/
theorem token_mem_unfold {d : Draft} {token inner : Text} (h : .token inner ∈ m.unfold d token) :
    (.token inner ∈ d ∧ (inner = token → m.draft? token = none)) ∨
      (.token token ∈ d ∧ ∃ new, m.cached? token = some new ∧ .token inner ∈ new) := by
  unfold unfold at h
  split at h
  · rename_i new hnew
    rcases Draft.mem_put.mp h with ⟨htoken, hinner⟩ | ⟨hinner, hne⟩
    · refine Or.inr ⟨htoken, new, ?_, hinner⟩
      -- A label stands for a text, which holds no token.
      rcases Option.or_eq_some_iff.mp hnew with hentry | ⟨-, hlabel⟩
      · exact hentry
      · obtain ⟨t, -, rfl⟩ := Option.map_eq_some_iff.mp hlabel
        exact absurd hinner (Draft.token_notMem_plain inner t)
    · exact Or.inl ⟨hinner, fun heq => absurd (heq ▸ rfl) hne⟩
  · rename_i hnone
    exact Or.inl ⟨h, fun _ => hnone⟩

theorem Known.unfolds (hclosed : m.Closed) {d e : Draft} (hd : m.Known d) (h : m.Unfolds d e) :
    m.Known e := by
  induction h with
  | refl => exact hd
  | step token _ ih =>
      intro inner hinner
      rcases token_mem_unfold hinner with ⟨hmem, -⟩ | ⟨-, new, hnew, hmem⟩
      · exact ih inner hmem
      · exact hclosed token new hnew inner hmem

theorem within_of_cached?_eq_none {token : Text} (h : m.cached? token = none) (depth : Nat) :
    m.Within depth token := by
  cases depth with
  | zero => exact h
  | succ depth =>
      intro new hnew
      rw [h] at hnew
      cases hnew

theorem Within.succ {depth : Nat} {token : Text} (h : m.Within depth token) : m.Within (depth + 1) token := by
  induction depth generalizing token with
  | zero => exact within_of_cached?_eq_none h 1
  | succ depth ih => exact fun new hnew inner hinner => ih (h new hnew inner hinner)

/-- One pass over the tokens of all entries.  A token that the pass has not come to yet may lead one level
deeper; what it uncovers does not, whether or not the pass has gone by the uncovered tokens already. -/
theorem nestedWithin_foldl_unfold {depth : Nat} (tokens : List Text) {d : Draft}
    (h : ∀ token, .token token ∈ d →
      m.Within depth token ∨ (m.Within (depth + 1) token ∧ token ∈ tokens)) :
    m.NestedWithin depth (tokens.foldl m.unfold d) := by
  induction tokens generalizing d with
  | nil =>
      intro token htoken
      rcases h token htoken with hwithin | ⟨-, hmem⟩
      · exact hwithin
      · cases hmem
  | cons next tokens ih =>
      refine ih fun token htoken => ?_
      rcases token_mem_unfold htoken with ⟨hmem, hsame⟩ | ⟨hnext, new, hnew, hmem⟩
      · rcases h token hmem with hwithin | ⟨hwithin, hpending⟩
        · exact Or.inl hwithin
        · rcases List.mem_cons.mp hpending with heq | hpending
          · have hnone : m.cached? token = none := by
              have hdraft := hsame heq
              rw [heq]
              exact (Option.or_eq_none_iff.mp hdraft).1
            exact Or.inl (within_of_cached?_eq_none hnone depth)
          · exact Or.inr ⟨hwithin, hpending⟩
      · have hwithin : m.Within (depth + 1) next := by
          rcases h next hnext with hwithin | ⟨hwithin, -⟩
          · exact hwithin.succ
          · exact hwithin
        exact Or.inl (hwithin new hnew token hmem)

/-- A pass over tokens of labels only takes tokens away. -/
theorem token_mem_foldl_unfold {tokens : List Text} (hlabels : ∀ token ∈ tokens, m.cached? token = none)
    {d : Draft} {token : Text} (h : .token token ∈ tokens.foldl m.unfold d) :
    .token token ∈ d ∧ (token ∈ tokens → m.draft? token = none) := by
  induction tokens generalizing d with
  | nil => exact ⟨h, fun hmem => by cases hmem⟩
  | cons next tokens ih =>
      have hrest := ih (fun later hlater => hlabels later (List.mem_cons_of_mem next hlater)) h
      rcases token_mem_unfold hrest.1 with ⟨hmem, hsame⟩ | ⟨-, new, hnew, -⟩
      · refine ⟨hmem, fun hpending => ?_⟩
        rcases List.mem_cons.mp hpending with heq | hpending
        · exact heq ▸ hsame heq
        · exact hrest.2 hpending
      · rw [hlabels next List.mem_cons_self] at hnew
        cases hnew

end Meaning

end Manuscript
