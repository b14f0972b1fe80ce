import Manuscript.Proofs.Cache.Parts
import Manuscript.Proofs.Cache.Reading

/-!
Texts from which tokens of labels have been erased.

Main statement: a reader, who does not see labels, sees the same with and without their tokens
(`readable_text_of_erased`).
-/

namespace Manuscript

namespace Meaning

variable {m : Meaning} {c : Cache}

/-- The meaning is the one that tokens have to a reader.  What an entry stands for may hold tokens in turn. -/
structure Reads (m : Meaning) (c : Cache) : Prop where
  entries : ∀ e ∈ c.entries, ∃ new, m.draft? e.token = some new ∧ Draft.text new = e.readable
  labels : ∀ l ∈ c.labels, m.draft? l.1 = some []
  ne_nil : ∀ token ∈ c.tokens, token ≠ []

/-- What a reader sees of the spans of a cache, if no span is cached twice and nothing is a label and a span at once. -/
theorem reads_reading (hc : c.Unrepeated) (hne : ∀ token ∈ c.tokens, token ≠ [])
    (hapart : ∀ token ∈ c.labels.map Prod.fst, c.find? token = none) : c.reading.Reads c where
  entries e he := ⟨_, Cache.draft?_of_find? (hc.find?_of_mem he), Draft.text_plain e.readable⟩
  labels l hl := Cache.draft?_of_label? (hapart l.1 (List.mem_map_of_mem hl)) (hc.label?_of_mem hl)
  ne_nil := hne

theorem foldl_unfold_append (m : Meaning) (tokens : List Text) (d e : Draft) :
    tokens.foldl m.unfold (d ++ e) = tokens.foldl m.unfold d ++ tokens.foldl m.unfold e := by
  induction tokens generalizing d e with
  | nil => rfl
  | cons token tokens ih => rw [List.foldl_cons, unfold_append, ih, List.foldl_cons, List.foldl_cons]

theorem foldl_unfold_nil (m : Meaning) (tokens : List Text) : tokens.foldl m.unfold [] = [] := by
  have hnil : ∀ token, m.unfold [] token = [] := by
    intro token
    unfold unfold
    split <;> rfl
  induction tokens with
  | nil => rfl
  | cons token tokens ih => rw [List.foldl_cons, hnil, ih]

/-- A token that stands for nothing is gone once its turn has come. -/
theorem foldl_unfold_token {tokens : List Text} {token : Text} (htoken : token ∈ tokens)
    (h : m.draft? token = some []) : tokens.foldl m.unfold [.token token] = [] := by
  induction tokens with
  | nil => cases htoken
  | cons first tokens ih =>
      rw [List.foldl_cons]
      by_cases hfirst : first = token
      · have hunfold : m.unfold [.token token] first = [] := by
          simp only [unfold, hfirst, h, Draft.put, List.flatMap_cons, List.flatMap_nil, if_true, List.append_nil]
        rw [hunfold, foldl_unfold_nil]
      · have hput : ∀ new, Draft.put [.token token] first new = [.token token] :=
          fun new => Draft.put_eq_self (by simpa using hfirst) new
        have hunfold : m.unfold [.token token] first = [.token token] := by
          unfold unfold
          split
          · exact hput _
          · rfl
        rw [hunfold]
        exact ih ((List.mem_cons.mp htoken).resolve_left (Ne.symm hfirst))

/-- Replacing markers in the text replaces them in the draft. -/
theorem foldl_replaceAll_text_of_marks {rs : List (Text × Text)} {d : Draft}
    (hne : ∀ r ∈ rs, r.1 ≠ []) (htext : ∀ r ∈ rs, ∃ new, m.draft? r.1 = some new ∧ Draft.text new = r.2)
    (hmarks : m.Marks (rs.map Prod.fst) d) :
    rs.foldl (fun t r => Text.replaceAll r.1 r.2 t) (Draft.text d) =
      Draft.text ((rs.map Prod.fst).foldl m.unfold d) := by
  induction rs generalizing d with
  | nil => rfl
  | cons r rs ih =>
      obtain ⟨hr, hrs⟩ := List.forall_mem_cons.mp hne
      obtain ⟨⟨new, hnew, htext'⟩, hlater⟩ := List.forall_mem_cons.mp htext
      have hunfold : Text.replaceAll r.1 r.2 (Draft.text d) = Draft.text (m.unfold d r.1) := by
        rw [← htext', Draft.replaceAll_text hr (hmarks d .refl r.1 List.mem_cons_self) new]
        simp only [unfold, hnew]
      rw [List.foldl_cons, List.map_cons, List.foldl_cons, hunfold]
      refine ih hrs hlater fun e he token htoken => ?_
      exact hmarks.unfold r.1 e he token (List.mem_cons_of_mem r.1 htoken)

end Meaning

namespace Cache

variable {c : Cache} {m : Meaning} {d e : Draft}

/-- The second draft is the first one without some of the tokens of labels in it. -/
inductive Erased (c : Cache) : Draft → Draft → Prop
  | nil : Erased c [] []
  | keep (p : Part) {d e : Draft} (h : Erased c d e) : Erased c (p :: d) (p :: e)
  | erase {l : Text × Text} (hl : l ∈ c.labels) {d e : Draft} (h : Erased c d e) : Erased c (.token l.1 :: d) e

namespace Erased

theorem refl (c : Cache) (d : Draft) : c.Erased d d := by
  induction d with
  | nil => exact .nil
  | cons p d ih => exact .keep p ih

theorem trans {f : Draft} (h : c.Erased d e) (h' : c.Erased e f) : c.Erased d f := by
  induction h generalizing f with
  | nil => exact h'
  | keep p _ ih =>
      cases h' with
      | keep _ h' => exact .keep p (ih h')
      | erase hl h' => exact .erase hl (ih h')
  | erase hl _ ih => exact .erase hl (ih h')

theorem append {d' e' : Draft} (h : c.Erased d e) (h' : c.Erased d' e') : c.Erased (d ++ d') (e ++ e') := by
  induction h with
  | nil => exact h'
  | keep p _ ih => exact .keep p ih
  | erase hl _ ih => exact .erase hl ih

/-- Erasing one of the tokens of labels wherever it is. -/
theorem put {l : Text × Text} (hl : l ∈ c.labels) (d : Draft) : c.Erased d (d.put l.1 []) := by
  induction d with
  | nil => exact .nil
  | cons p d ih =>
      by_cases hp : p = .token l.1
      · rw [hp, Draft.put_cons_self]
        exact .erase hl ih
      · rw [Draft.put_cons_of_ne hp]
        exact .keep p ih

end Erased

/-- Tokens can be told from what is around them: whichever tokens of labels are erased first, and whichever tokens are
replaced after that, a token occurs only where it was put. -/
def Clear (c : Cache) (m : Meaning) (d : Draft) : Prop := ∀ e, c.Erased d e → m.Marks c.tokens e

/-- Tokens that are clear in a draft are clear in every part of it. -/
theorem Clear.of_part {l r : Draft} (hm : m.Reads c) (h : c.Clear m (l ++ d ++ r)) : c.Clear m d :=
  fun _ he => (h _ (((Erased.refl c l).append he).append (Erased.refl c r))).of_part hm.ne_nil

/-- Where tokens are clear, taking those of labels out of the text erases them. -/
theorem exists_erased_takeLabels (hm : m.Reads c) (hclear : c.Clear m d) :
    ∃ e, c.Erased d e ∧ (c.takeLabels (Draft.text d)).1 = Draft.text e := by
  have hfold : ∀ labels : List (Text × Text), (∀ l ∈ labels, l ∈ c.labels) → ∀ d, c.Clear m d →
      ∃ e, c.Erased d e ∧ replaceLabels (fun _ => []) labels (Draft.text d) = Draft.text e := by
    intro labels
    induction labels with
    | nil => exact fun _ d _ => ⟨d, .refl c d, rfl⟩
    | cons l labels ih =>
        intro hlabels d hclear
        obtain ⟨hl, hrest⟩ := List.forall_mem_cons.mp hlabels
        have htoken : l.1 ∈ c.tokens := List.mem_append_right _ (List.mem_map_of_mem hl)
        have hput : Text.replaceAll l.1 [] (Draft.text d) = Draft.text (d.put l.1 []) :=
          Draft.replaceAll_text (hm.ne_nil l.1 htoken) (hclear d (.refl c d) d .refl l.1 htoken) []
        obtain ⟨e, he, htext⟩ := ih hrest (d.put l.1 []) fun e he => hclear e ((Erased.put hl d).trans he)
        refine ⟨e, (Erased.put hl d).trans he, ?_⟩
        rw [replaceLabels, List.foldl_cons, hput]
        exact htext
  exact hfold c.labels (fun _ hl => hl) d hclear

/-- Nothing is left of the tokens of labels once all tokens have been replaced. -/
theorem Erased.foldl_unfold (hm : m.Reads c) (h : c.Erased d e) :
    c.tokens.foldl m.unfold e = c.tokens.foldl m.unfold d := by
  have hcons : ∀ (p : Part) (f : Draft),
      c.tokens.foldl m.unfold (p :: f) = c.tokens.foldl m.unfold [p] ++ c.tokens.foldl m.unfold f :=
    fun p f => Meaning.foldl_unfold_append m c.tokens [p] f
  induction h with
  | nil => rfl
  | keep p _ ih => rw [hcons, ih, ← hcons]
  | @erase l hl d e _ ih =>
      have htoken : l.1 ∈ c.tokens := List.mem_append_right _ (List.mem_map_of_mem hl)
      rw [hcons, Meaning.foldl_unfold_token htoken (hm.labels l hl), ih, List.nil_append]

theorem readable_text_of_marks (hm : m.Reads c) (hmarks : m.Marks c.tokens d) :
    c.readable (Draft.text d) = Draft.text (c.tokens.foldl m.unfold d) := by
  rw [readable_eq_foldl, ← map_fst_readings]
  rw [← map_fst_readings] at hmarks
  refine Meaning.foldl_replaceAll_text_of_marks (fun r hr => ?_) (fun r hr => ?_) hmarks
  · refine hm.ne_nil r.1 ?_
    rw [← map_fst_readings]
    exact List.mem_map_of_mem hr
  · rcases List.mem_append.mp hr with hentry | hlabel
    · obtain ⟨e, he, rfl⟩ := List.mem_map.mp hentry
      exact hm.entries e he
    · obtain ⟨l, hl, rfl⟩ := List.mem_map.mp hlabel
      exact ⟨[], hm.labels l hl, rfl⟩

/-- A reader sees the same with and without the tokens of labels. -/
theorem readable_text_of_erased (hm : m.Reads c) (hclear : c.Clear m d) (h : c.Erased d e) :
    c.readable (Draft.text e) = c.readable (Draft.text d) := by
  rw [readable_text_of_marks hm (hclear e h), readable_text_of_marks hm (hclear d (.refl c d)), h.foldl_unfold hm]

end Cache

end Manuscript
