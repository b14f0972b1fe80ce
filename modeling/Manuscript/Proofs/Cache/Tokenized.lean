import Manuscript.Proofs.Cache.Parts
import Manuscript.Proofs.Cache.Reading
import Manuscript.Proofs.Source.Names
import Manuscript.Proofs.Text.Trim

/-!
Texts in which tokens stand for characters beyond ASCII.  If the tokens occur only where they were put, they still do so
when some of them have given way to their content, since no token holds a character beyond ASCII.

Main statements: of the end of a text that begins between two parts a reader sees what the parts in it stand for
(`IsTokenized.readable_text`), and of one that begins inside a token he sees the rest of that token as well
(`IsTokenized.readable_inside`).
-/

namespace Manuscript

open Source (isAscii)

namespace Draft

variable {token : Text} {p : Part} {d : Draft}

/-- A token that occurs only where it was put begins at itself, and neither inside itself nor in any other part. -/
theorem occursAsPut_cons_iff (htoken : token ≠ []) :
    OccursAsPut token (p :: d) ↔
      (∀ head c tail, p.text = head ++ c :: tail → Text.startsWith token (c :: tail ++ text d) = true →
        head = [] ∧ p = .token token) ∧ OccursAsPut token d := by
  constructor
  · intro h
    refine ⟨fun head c tail hp hstarts => ?_, h.of_cons htoken⟩
    obtain ⟨after, hafter⟩ := Option.isSome_iff_exists.mp hstarts
    have hsplit : text (p :: d) = head ++ token ++ after := by
      rw [text_cons, hp, List.append_assoc, Text.eq_append_of_after? hafter, List.append_assoc]
    obtain ⟨left, right, hd, hleft⟩ := h head after hsplit
    cases left with
    | nil =>
        obtain ⟨rfl, -⟩ := by simpa using hd
        exact ⟨hleft.symm, rfl⟩
    | cons q left =>
        obtain ⟨rfl, -⟩ := by simpa using hd
        have hlength := congrArg List.length hleft
        rw [text_cons, hp] at hlength
        simp only [List.length_append, List.length_cons] at hlength
        omega
  · rintro ⟨hp, hd⟩ before after hsplit
    rw [text_cons, List.append_assoc] at hsplit
    rcases List.append_eq_append_iff.mp hsplit with ⟨more, rfl, htext⟩ | ⟨more, hbefore, hrest⟩
    · obtain ⟨left, right, rfl, rfl⟩ := hd more after (by rw [htext, List.append_assoc])
      exact ⟨p :: left, right, rfl, rfl⟩
    · cases more with
      | nil =>
          obtain ⟨left, right, rfl, hleft⟩ := hd [] after (by simpa using hrest.symm)
          exact ⟨p :: left, right, rfl, by simp [hleft, hbefore]⟩
      | cons c more =>
          have hstarts : Text.startsWith token (c :: more ++ text d) = true := by
            rw [← hrest, Text.startsWith, Text.after?_append]
            rfl
          obtain ⟨rfl, rfl⟩ := hp before c more hbefore hstarts
          exact ⟨[], d, rfl, rfl⟩

/-- Characters before a draft add no occurrences if none begins at them. -/
theorem OccursAsPut.plain_append (htoken : token ≠ []) (h : OccursAsPut token d) {t : Text}
    (ht : ∀ head c tail, t = head ++ c :: tail → Text.startsWith token (c :: tail ++ text d) = false) :
    OccursAsPut token (plain t ++ d) := by
  induction t with
  | nil => exact h
  | cons c t ih =>
      rw [plain_cons, List.cons_append, occursAsPut_cons_iff htoken]
      refine ⟨fun head c' tail hc hstarts => ?_, ih fun head c' tail hs => ht (c :: head) c' tail (by rw [hs]; rfl)⟩
      obtain ⟨rfl, rfl, rfl⟩ : head = [] ∧ c = c' ∧ tail = [] := by
        simpa [Part.text, List.append_eq_singleton_iff, eq_comm] using hc.symm
      rw [text_append, text_plain, ← List.append_assoc] at hstarts
      exact absurd hstarts (Bool.eq_false_iff.mp (ht [] c t rfl))

/-- No token begins in the rest of one. -/
theorem OccursAsPut.of_inside (htoken : token ≠ []) {u w : Text} (hu : u ≠ [])
    (h : OccursAsPut token (.token (u ++ w) :: d)) : OccursAsPut token (plain w ++ d) := by
  obtain ⟨hbegin, hd⟩ := (occursAsPut_cons_iff htoken).mp h
  refine hd.plain_append htoken fun head c tail hw => Bool.eq_false_iff.mpr fun hstarts => ?_
  obtain ⟨hnil, -⟩ := hbegin (u ++ head) c tail (by simp [Part.text, hw]) hstarts
  exact hu (List.append_eq_nil_iff.mp hnil).1

section Put

variable {old content : Text} (hne : content ≠ []) (hcontent : ∀ c ∈ content, c ∉ token)

include hne hcontent

/-- An occurrence of a token does not reach into a text that holds no character of it. -/
theorem startsWith_of_put (s : Text) (h : Text.startsWith token (s ++ text (put d old (plain content))) = true) :
    Text.startsWith token (s ++ text d) = true := by
  induction d generalizing s with
  | nil => exact h
  | cons p d ih =>
      by_cases hp : p = .token old
      · obtain ⟨c, rest, rfl⟩ := List.exists_cons_of_ne_nil hne
        rw [hp, put_cons_self, text_append, text_plain, List.cons_append, Text.startsWith,
          Text.after?_append_cons (hcontent c List.mem_cons_self), Option.isSome_map] at h
        obtain ⟨after, hafter⟩ := Option.isSome_iff_exists.mp h
        rw [Text.eq_append_of_after? hafter, List.append_assoc, Text.startsWith, Text.after?_append]
        rfl
      · rw [put_cons_of_ne hp, text_cons, ← List.append_assoc] at h
        rw [text_cons, ← List.append_assoc]
        exact ih (s ++ p.text) h

/-- A token goes on to occur only where it was put when another one gives way to a text that holds no character of
it. -/
theorem OccursAsPut.put (htoken : token ≠ []) (h : OccursAsPut token d) :
    OccursAsPut token (put d old (plain content)) := by
  induction d with
  | nil => exact h
  | cons p d ih =>
      obtain ⟨hbegin, hd⟩ := (occursAsPut_cons_iff htoken).mp h
      by_cases hp : p = .token old
      · rw [hp, put_cons_self]
        refine (ih hd).plain_append htoken fun head c tail hs => ?_
        have hc : c ∉ token := hcontent c (hs ▸ List.mem_append_right head List.mem_cons_self)
        obtain ⟨l, rest, rfl⟩ := List.exists_cons_of_ne_nil htoken
        have hl : l ≠ c := fun heq => hc (heq ▸ List.mem_cons_self)
        rw [List.cons_append, Text.startsWith, Text.after?, if_neg hl]
        rfl
      · rw [put_cons_of_ne hp, occursAsPut_cons_iff htoken]
        refine ⟨fun head c tail hpart hstarts => ?_, ih hd⟩
        exact hbegin head c tail hpart (startsWith_of_put hne hcontent (c :: tail) hstarts)

end Put

end Draft

/-- The entry is one of characters beyond ASCII. -/
structure Entry.IsBeyondAscii (e : Entry) : Prop where
  kind_eq : e.kind = .unicode
  content_ne_nil : e.content ≠ []
  isAscii_eq : ∀ ch ∈ e.content, isAscii ch = false

theorem Entry.IsBeyondAscii.readable_eq {e : Entry} (h : e.IsBeyondAscii) : e.readable = e.content := by
  rw [readable, h.kind_eq]

namespace Cache

/-- The tokens of a cache can act as markers: they are different, not empty, and made of ASCII characters. -/
structure HasMarkers (c : Cache) : Prop where
  nodup : c.tokens.Nodup
  ne_nil : ∀ token ∈ c.tokens, token ≠ []
  isAscii_eq : ∀ token ∈ c.tokens, ∀ ch ∈ token, isAscii ch = true

/-- In the text stand, besides any characters, tokens of entries of characters beyond ASCII, and the tokens of the cache
occur only where they were put. -/
structure IsTokenized (c : Cache) (d : Draft) : Prop where
  entry : ∀ token, .token token ∈ d → ∃ e, c.find? token = some e ∧ e.IsBeyondAscii
  occursAsPut : ∀ token ∈ c.tokens, d.OccursAsPut token

/-- What a part of a text stands for to a reader. -/
def readPart (c : Cache) : Part → Text
  | .character ch => [ch]
  | .token t => ((c.find? t).map Entry.readable).getD []

/-- What a text stands for to a reader. -/
def read (c : Cache) (d : Draft) : Text := d.flatMap c.readPart

variable {c : Cache} {d l r : Draft} {token : Text} {e : Entry}

@[simp] theorem read_append (c : Cache) (d d' : Draft) : c.read (d ++ d') = c.read d ++ c.read d' :=
  List.flatMap_append

@[simp] theorem read_cons (c : Cache) (p : Part) (d : Draft) : c.read (p :: d) = c.readPart p ++ c.read d := rfl

theorem readPart_token (hfind : c.find? token = some e) (he : e.IsBeyondAscii) :
    c.readPart (.token token) = e.content := by
  rw [readPart, hfind, Option.map_some, Option.getD_some, he.readable_eq]

theorem read_plain (c : Cache) (t : Text) : c.read (Draft.plain t) = t := by
  induction t with
  | nil => rfl
  | cons ch t ih => rw [Draft.plain_cons, read_cons, ih, readPart, List.singleton_append]

namespace HasMarkers

variable (hc : c.HasMarkers)

include hc

theorem unrepeated : c.Unrepeated :=
  ⟨(List.nodup_append.mp hc.nodup).1, (List.nodup_append.mp hc.nodup).2.1⟩

theorem find?_eq_none (h : token ∈ c.labels.map Prod.fst) : c.find? token = none := by
  refine List.find?_eq_none.mpr fun e he heq => ?_
  exact (List.nodup_append.mp hc.nodup).2.2 e.token (List.mem_map_of_mem he) token h (of_decide_eq_true heq)

theorem notMem (htoken : token ∈ c.tokens) (he : e.IsBeyondAscii) : ∀ ch ∈ e.content, ch ∉ token := by
  intro ch hch hmem
  have hascii := hc.isAscii_eq token htoken ch hmem
  rw [he.isAscii_eq ch hch] at hascii
  cases hascii

end HasMarkers

/-- The tokens that calls are given can act as markers, as long as no two things have the same token. -/
theorem hasMarkers_build {salt : Text} {calls : List Call} (hdistinct : Call.Distinct salt calls) :
    (build salt calls).HasMarkers := by
  have hunrepeated := unrepeated_build salt calls
  have htoken : ∀ token ∈ (build salt calls).tokens, ∃ parts, token = digest parts := by
    intro token htoken
    obtain ⟨call, -, rfl⟩ := exists_call_of_mem_tokens hdistinct (.refl _) (.refl _) htoken
    exact ⟨_, rfl⟩
  refine ⟨List.nodup_append.mpr ⟨hunrepeated.entries, hunrepeated.labels, ?_⟩, ?_, ?_⟩
  · rintro _ hentry token hlabel rfl
    obtain ⟨e, he, rfl⟩ := List.mem_map.mp hentry
    cases (hunrepeated.find?_of_mem he).symm.trans (find?_build_eq_none hdistinct hlabel)
  · intro token hmem
    obtain ⟨parts, rfl⟩ := htoken token hmem
    exact digest_ne_nil parts
  · intro token hmem ch hch
    obtain ⟨parts, rfl⟩ := htoken token hmem
    exact Source.isAscii_of_mem_digest hch

namespace IsTokenized

theorem of_append (hc : c.HasMarkers) (h : c.IsTokenized (l ++ r)) : c.IsTokenized r where
  entry token htoken := h.entry token (List.mem_append_right l htoken)
  occursAsPut token htoken := (h.occursAsPut token htoken).of_append (hc.ne_nil token htoken)

theorem of_start (hc : c.HasMarkers) (h : c.IsTokenized (l ++ r)) : c.IsTokenized l where
  entry token htoken := h.entry token (List.mem_append_left r htoken)
  occursAsPut token htoken := (h.occursAsPut token htoken).of_start (hc.ne_nil token htoken)

/-- The end of a text that begins inside a token begins with characters. -/
theorem of_inside (hc : c.HasMarkers) {u w : Text} (hu : u ≠ []) (h : c.IsTokenized (.token (u ++ w) :: r)) :
    c.IsTokenized (Draft.plain w ++ r) where
  entry token htoken := by
    have hmem := (List.mem_append.mp htoken).resolve_left (Draft.token_notMem_plain token w)
    exact h.entry token (List.mem_cons_of_mem _ hmem)
  occursAsPut token htoken := (h.occursAsPut token htoken).of_inside (hc.ne_nil token htoken) hu

/-- One of the tokens gives way to its content. -/
theorem unfold (hc : c.HasMarkers) (h : c.IsTokenized d) (token : Text) : c.IsTokenized (c.reading.unfold d token) := by
  by_cases hmem : .token token ∈ d
  · obtain ⟨e, hfind, he⟩ := h.entry token hmem
    have hunfold : c.reading.unfold d token = d.put token (Draft.plain e.content) := by
      simp only [Meaning.unfold, draft?_of_find? hfind, he.readable_eq]
    rw [hunfold]
    refine ⟨fun inner hinner => ?_, fun inner hinner => ?_⟩
    · rcases Draft.mem_put.mp hinner with ⟨-, hplain⟩ | ⟨hd, -⟩
      · exact absurd hplain (Draft.token_notMem_plain inner e.content)
      · exact h.entry inner hd
    · exact (h.occursAsPut inner hinner).put he.content_ne_nil (hc.notMem hinner he) (hc.ne_nil inner hinner)
  · have hunfold : c.reading.unfold d token = d := by
      unfold Meaning.unfold
      split
      · exact Draft.put_eq_self hmem _
      · rfl
    rwa [hunfold]

theorem marks (hc : c.HasMarkers) (h : c.IsTokenized d) : c.reading.Marks c.tokens d := by
  intro e he
  have htokenized : c.IsTokenized e := by
    induction he with
    | refl => exact h
    | step token _ ih => exact ih.unfold hc token
  exact htokenized.occursAsPut

theorem expands (h : c.IsTokenized d) : c.reading.Expands d (c.read d) := by
  have hentry := h.entry
  clear h
  induction d with
  | nil => exact .nil
  | cons p d ih =>
      have hrest := ih fun token htoken => hentry token (List.mem_cons_of_mem p htoken)
      cases p with
      | character ch => exact .character ch hrest
      | token t =>
          obtain ⟨e, hfind, he⟩ := hentry t List.mem_cons_self
          have hinside : c.reading.Expands (Draft.plain e.readable) e.readable := by
            have htext := Meaning.Expands.text (m := c.reading) fun token => Draft.token_notMem_plain token e.readable
            rwa [Draft.text_plain] at htext
          rw [read_cons, readPart_token hfind he, ← he.readable_eq]
          exact .token (draft?_of_find? hfind) hinside hrest

/-- A reader sees what the parts of the text stand for. -/
theorem readable_text (hc : c.HasMarkers) (h : c.IsTokenized d) : c.readable d.text = c.read d :=
  Cache.readable_text hc.unrepeated hc.ne_nil (fun _ => hc.find?_eq_none) (h.marks hc) h.expands

/-- Of a token that begins before the end of a text a reader sees the rest as it is. -/
theorem readable_inside (hc : c.HasMarkers) {u w : Text} (hu : u ≠ []) (h : c.IsTokenized (.token (u ++ w) :: r)) :
    c.readable (w ++ r.text) = w ++ c.read r := by
  have hread := (h.of_inside hc hu).readable_text hc
  rwa [Draft.text_append, Draft.text_plain, read_append, read_plain] at hread

end IsTokenized

end Cache

end Manuscript
