import Mathlib.Data.List.Basic
import Manuscript.Text.Basic

/-!
Texts in which tokens stand, together with the knowledge of where the tokens were put.  A token acts as a
marker when it occurs in the text only where it was put; then replacing its occurrences in the text is the
same as replacing the places that it was put at (`replaceAll_text`).
-/

namespace Manuscript

/-- A part of a draft: a character, or a token that was put there. -/
inductive Part where
  | character (c : Char)
  | token (t : Text)
  deriving DecidableEq

/-- The text of a part. -/
def Part.text : Part → Text
  | .character c => [c]
  | .token t => t

/-- A text together with the knowledge of where tokens were put. -/
abbrev Draft := List Part

namespace Draft

/-- The text of a draft. -/
def text (d : Draft) : Text := d.flatMap Part.text

/-- A text without tokens. -/
def plain (t : Text) : Draft := t.map .character

/-- The draft with another one in every place that the token was put at. -/
def put (d : Draft) (token : Text) (new : Draft) : Draft :=
  d.flatMap fun p => if p = .token token then new else [p]

/-- The draft with every character rewritten and every token left alone. -/
def mapCharacters (f : Char → Text) (d : Draft) : Draft :=
  d.flatMap fun
    | .character c => plain (f c)
    | .token t => [.token t]

/-- Wherever the token occurs in the text, it was put there. -/
def OccursAsPut (token : Text) (d : Draft) : Prop :=
  ∀ before after, d.text = before ++ token ++ after →
    ∃ left right : Draft, d = left ++ .token token :: right ∧ left.text = before

@[simp] theorem text_nil : text [] = [] := rfl

@[simp] theorem text_cons (p : Part) (d : Draft) : text (p :: d) = p.text ++ text d := rfl

@[simp] theorem text_append (d e : Draft) : text (d ++ e) = text d ++ text e := by
  simp [text]

@[simp] theorem plain_cons (c : Char) (t : Text) : plain (c :: t) = .character c :: plain t := rfl

@[simp] theorem text_plain (t : Text) : (plain t).text = t := by
  induction t with
  | nil => rfl
  | cons c t ih => simp [ih, Part.text]

@[simp] theorem token_notMem_plain (token t : Text) : Part.token token ∉ plain t := by
  simp [plain]

theorem text_mapCharacters {f : Char → Text} {d : Draft}
    (h : ∀ token, .token token ∈ d → token.flatMap f = token) :
    (d.mapCharacters f).text = d.text.flatMap f := by
  induction d with
  | nil => rfl
  | cons p d ih =>
      have hd := ih fun token hmem => h token (List.mem_cons_of_mem p hmem)
      cases p with
      | character c => simpa [mapCharacters, Part.text] using hd
      | token t =>
          have ht := h t List.mem_cons_self
          simpa [mapCharacters, Part.text, ht] using hd

theorem token_mem_mapCharacters {f : Char → Text} {d : Draft} {token : Text} :
    .token token ∈ d.mapCharacters f ↔ .token token ∈ d := by
  induction d with
  | nil => rfl
  | cons p d ih =>
      cases p with
      | character c =>
          have hcons : mapCharacters f (.character c :: d) = plain (f c) ++ mapCharacters f d := rfl
          simp [hcons, ih]
      | token t =>
          have hcons : mapCharacters f (.token t :: d) = .token t :: mapCharacters f d := rfl
          simp [hcons, ih]

theorem put_cons_self (token : Text) (new d : Draft) :
    put (.token token :: d) token new = new ++ put d token new := by
  simp [put]

theorem put_cons_of_ne {token : Text} {p : Part} (hp : p ≠ .token token) (new d : Draft) :
    put (p :: d) token new = p :: put d token new := by
  simp [put, hp]

theorem put_eq_self {token : Text} {d : Draft} (h : .token token ∉ d) (new : Draft) :
    put d token new = d := by
  induction d with
  | nil => rfl
  | cons p d ih =>
      simp only [List.mem_cons, not_or] at h
      rw [put_cons_of_ne (Ne.symm h.1), ih h.2]

/-- What is in a draft after a token was replaced: parts of the replacement, and parts that were there before
and are not the token. -/
theorem mem_put {token : Text} {new d : Draft} {p : Part} :
    p ∈ put d token new ↔ (.token token ∈ d ∧ p ∈ new) ∨ (p ∈ d ∧ p ≠ .token token) := by
  simp only [put, List.mem_flatMap]
  constructor
  · rintro ⟨q, hq, hp⟩
    by_cases h : q = .token token
    · subst h
      exact Or.inl ⟨hq, by simpa using hp⟩
    · obtain rfl : p = q := by simpa [h] using hp
      exact Or.inr ⟨hq, h⟩
  · rintro (⟨htoken, hp⟩ | ⟨hp, hne⟩)
    · exact ⟨_, htoken, by simpa using hp⟩
    · exact ⟨p, hp, by simp [hne]⟩

/-- Where the token was put, counted in characters of the text. -/
def places (token : Text) : (position : Nat) → Draft → List Nat
  | _, [] => []
  | position, p :: d =>
    let later := places token (position + p.text.length) d
    if p = .token token then position :: later else later

theorem mem_places {token : Text} {position place : Nat} {d : Draft} :
    place ∈ places token position d ↔
      ∃ left right : Draft, d = left ++ .token token :: right ∧ place = position + left.text.length := by
  induction d generalizing position with
  | nil => simp [places]
  | cons p d ih =>
      have hlater := @ih (position + p.text.length)
      constructor
      · intro hplace
        have hcases : (p = .token token ∧ place = position) ∨
            place ∈ places token (position + p.text.length) d := by
          by_cases hp : p = .token token <;> simp_all [places]
        rcases hcases with ⟨rfl, rfl⟩ | hplace
        · exact ⟨[], d, rfl, rfl⟩
        · obtain ⟨left, right, rfl, rfl⟩ := hlater.mp hplace
          exact ⟨p :: left, right, rfl, by simp [Nat.add_assoc]⟩
      · rintro ⟨left, right, hd, rfl⟩
        cases left with
        | nil =>
            obtain ⟨rfl, rfl⟩ := by simpa using hd
            simp [places]
        | cons q left =>
            obtain ⟨rfl, rfl⟩ := by simpa using hd
            have hmem := hlater.mpr ⟨left, right, rfl, by simp [Nat.add_assoc]⟩
            rw [places]
            split
            · exact List.mem_cons_of_mem position hmem
            · exact hmem

/-- Whether a token occurs only where it was put can be found out by looking at every position of the text. -/
theorem occursAsPut_iff {token : Text} (htoken : token ≠ []) {d : Draft} :
    d.OccursAsPut token ↔
      ∀ place < (text d).length, Text.startsWith token ((text d).drop place) → place ∈ places token 0 d := by
  constructor
  · intro h place _ hstarts
    obtain ⟨after, hafter⟩ := Option.isSome_iff_exists.mp hstarts
    have hsplit : text d = (text d).take place ++ token ++ after := by
      rw [List.append_assoc, ← Text.eq_append_of_after? hafter, List.take_append_drop]
    obtain ⟨left, right, hd, hleft⟩ := h _ after hsplit
    refine mem_places.mpr ⟨left, right, hd, ?_⟩
    rw [hleft, List.length_take]
    omega
  · intro h before after hsplit
    have hdrop : (text d).drop before.length = token ++ after := by
      rw [hsplit, List.append_assoc, List.drop_left]
    have hlength : before.length < (text d).length := by
      have := List.length_pos_iff.mpr htoken
      rw [hsplit, List.length_append, List.length_append]
      omega
    have hstarts : Text.startsWith token ((text d).drop before.length) := by
      rw [hdrop, Text.startsWith, Text.after?_append]
      rfl
    obtain ⟨left, right, hd, hleft⟩ := mem_places.mp (h before.length hlength hstarts)
    have hprefix : text d = left.text ++ (token ++ right.text) := by
      rw [hd, text_append, text_cons]
      rfl
    refine ⟨left, right, hd, ?_⟩
    rw [hsplit, List.append_assoc] at hprefix
    exact (List.append_inj_left hprefix (by omega)).symm

/-- A token that occurs only where it was put does so in the rest of the draft as well. -/
theorem OccursAsPut.of_cons {token : Text} (htoken : token ≠ []) {p : Part} {d : Draft}
    (h : OccursAsPut token (p :: d)) : OccursAsPut token d := by
  intro before after hsplit
  obtain ⟨left, right, hd, hleft⟩ := h (p.text ++ before) after (by simp [hsplit])
  cases left with
  | nil =>
      obtain ⟨rfl, rfl⟩ := by simpa using hd
      -- The token would be put at the very start, but its text begins after the whole of it.
      have hlength := congrArg List.length hleft
      have := List.length_pos_iff.mpr htoken
      simp only [text_nil, Part.text, List.length_nil, List.length_append] at hlength
      omega
  | cons q left =>
      obtain ⟨rfl, rfl⟩ := by simpa using hd
      exact ⟨left, right, rfl, by simpa using hleft⟩

/-- No occurrence of the token begins inside a part that is something else. -/
theorem OccursAsPut.not_startsWith {token : Text} {p : Part} {d : Draft}
    (h : OccursAsPut token (p :: d)) (hp : p ≠ .token token) {head tail : Text} {c : Char}
    (htext : p.text = head ++ c :: tail) :
    Text.startsWith token (c :: tail ++ d.text) = false := by
  by_contra hstarts
  obtain ⟨after, hafter⟩ := Option.isSome_iff_exists.mp (Bool.of_not_eq_false hstarts)
  have hsplit : text (p :: d) = head ++ token ++ after := by
    rw [text_cons, htext, List.append_assoc, Text.eq_append_of_after? hafter, List.append_assoc]
  obtain ⟨left, right, hd, hleft⟩ := h head after hsplit
  cases left with
  | nil =>
      obtain ⟨rfl, -⟩ := by simpa using hd
      exact hp rfl
  | cons q left =>
      obtain ⟨rfl, -⟩ := by simpa using hd
      have hlength := congrArg List.length hleft
      rw [text_cons, htext] at hlength
      simp only [List.length_append, List.length_cons] at hlength
      omega

/-- Sweeping over a stretch in which no occurrence begins leaves it as it is. -/
theorem sweep_append {token new s : Text} (t : Text)
    (h : ∀ head c tail, s = head ++ c :: tail → Text.startsWith token (c :: tail ++ t) = false) :
    Text.replaceAll.sweep token new 0 (s ++ t) = s ++ Text.replaceAll.sweep token new 0 t := by
  induction s with
  | nil => rfl
  | cons c s ih =>
      have hhead := h [] c s rfl
      have htail := ih fun head c' tail hs => h (c :: head) c' tail (by simp [hs])
      simp only [List.cons_append] at hhead ⊢
      simp [Text.replaceAll.sweep, hhead, htail]

/-- What is left of an occurrence is passed over. -/
theorem sweep_length_append (token new s t : Text) :
    Text.replaceAll.sweep token new s.length (s ++ t) = Text.replaceAll.sweep token new 0 t := by
  induction s with
  | nil => rfl
  | cons c s ih => simpa [Text.replaceAll.sweep] using ih

theorem sweep_token_append {token : Text} (htoken : token ≠ []) (new t : Text) :
    Text.replaceAll.sweep token new 0 (token ++ t) = new ++ Text.replaceAll.sweep token new 0 t := by
  have hstarts : Text.startsWith token (token ++ t) = true := by
    simp [Text.startsWith, Text.after?_append]
  cases token with
  | nil => exact absurd rfl htoken
  | cons c rest =>
      rw [List.cons_append] at hstarts ⊢
      rw [Text.replaceAll.sweep, if_pos hstarts, List.length_cons, Nat.add_sub_cancel,
        sweep_length_append]

/-- Replacing a marker in the text replaces it in the draft. -/
theorem replaceAll_text {token : Text} (htoken : token ≠ []) {d : Draft} (h : OccursAsPut token d)
    (new : Draft) : Text.replaceAll token (text new) (text d) = text (put d token new) := by
  rw [Text.replaceAll, if_neg htoken]
  induction d with
  | nil => rfl
  | cons p d ih =>
      have hrest := ih (h.of_cons htoken)
      by_cases hp : p = .token token
      · subst hp
        rw [put_cons_self, text_append, ← hrest]
        exact sweep_token_append htoken (text new) (text d)
      · rw [put_cons_of_ne hp, text_cons, text_cons, ← hrest]
        exact sweep_append (text d) fun head c tail htext => h.not_startsWith hp htext

/-- Replacing a marker that was put nowhere changes nothing, whatever it is replaced by. -/
theorem replaceAll_text_eq_self {token : Text} (htoken : token ≠ []) {d : Draft} (h : OccursAsPut token d)
    (hput : .token token ∉ d) (new : Text) : Text.replaceAll token new (text d) = text d := by
  have hreplace := replaceAll_text htoken h (plain new)
  rwa [text_plain, put_eq_self hput] at hreplace

/-- A marker that was put nowhere does not occur. -/
theorem contains_text_eq_false {token : Text} {d : Draft} (h : OccursAsPut token d)
    (hput : .token token ∉ d) : Text.contains token (text d) = false := by
  by_contra hcontains
  obtain ⟨⟨before, after⟩, hcut⟩ := Option.isSome_iff_exists.mp (Bool.of_not_eq_false hcontains)
  obtain ⟨left, right, rfl, -⟩ := h before after (Text.eq_append_of_cut? hcut)
  exact hput (by simp)

end Draft

end Manuscript
