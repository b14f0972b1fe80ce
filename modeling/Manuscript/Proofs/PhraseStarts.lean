import Manuscript.Proofs.Cache.Tokenized
import Manuscript.Proofs.Phrases

/-!
Where linking phrases begin in texts with tokens in them.  A phrase is found in what a reader sees of a text, and then
the ends of the text itself are read until one reads as the phrase.

Main statement: an end that reads as the phrase is found if and only if the phrase begins between two parts of the text,
and it is the one that begins there (`splitsWhereRead`).
-/

namespace Manuscript

/-- What is put together of parts is divided between two of them or inside one. -/
theorem exists_of_flatMap_eq_append {α β : Type} {f : α → List β} {l : List α} {s t : List β}
    (h : l.flatMap f = s ++ t) :
    (∃ l₁ l₂, l = l₁ ++ l₂ ∧ s = l₁.flatMap f ∧ t = l₂.flatMap f) ∨
      ∃ l₁ a l₂ u v, l = l₁ ++ a :: l₂ ∧ f a = u ++ v ∧ u ≠ [] ∧ v ≠ [] ∧ s = l₁.flatMap f ++ u ∧
        t = v ++ l₂.flatMap f := by
  induction l generalizing s with
  | nil =>
      obtain ⟨rfl, rfl⟩ := List.append_eq_nil_iff.mp h.symm
      exact .inl ⟨[], [], rfl, rfl, rfl⟩
  | cons a l ih =>
      rw [List.flatMap_cons] at h
      rcases List.append_eq_append_iff.mp h with ⟨s', rfl, hl⟩ | ⟨v, ha, ht⟩
      · rcases ih hl with ⟨l₁, l₂, rfl, rfl, rfl⟩ | ⟨l₁, b, l₂, u, v, rfl, hb, hu, hv, rfl, rfl⟩
        · exact .inl ⟨a :: l₁, l₂, rfl, rfl, rfl⟩
        · exact .inr ⟨a :: l₁, b, l₂, u, v, rfl, hb, hu, hv, by simp, rfl⟩
      · by_cases hs : s = []
        · subst hs
          exact .inl ⟨[], a :: l, rfl, rfl, by rw [ht, ← List.nil_append v, ← ha]; rfl⟩
        · by_cases hv : v = []
          · subst hv
            exact .inl ⟨[a], l, rfl, by simp [ha], by simp [ht]⟩
          · exact .inr ⟨[], a, l, s, v, rfl, ha, hs, hv, rfl, ht⟩

theorem not_singleton_eq_append {α : Type} {a : α} {u v : List α} (hu : u ≠ []) (hv : v ≠ []) : [a] ≠ u ++ v := by
  intro h
  rcases List.append_eq_singleton_iff.mp h.symm with ⟨hnil, -⟩ | ⟨-, hnil⟩
  · exact hu hnil
  · exact hv hnil

/-- An end of a list that is divided at a member begins before it or after it. -/
theorem exists_of_append_cons_eq {α : Type} {a : α} {l l' r r' : List α} (h : l ++ a :: r = l' ++ r') :
    (∃ x, r' = x ++ a :: r) ∨ ∃ x, r = x ++ r' := by
  rcases List.suffix_or_suffix_of_suffix ⟨l, rfl⟩ ⟨l', h.symm⟩ with ⟨x, hx⟩ | hshort
  · exact .inl ⟨x, hx.symm⟩
  · rcases List.suffix_cons_iff.mp hshort with rfl | ⟨x, hx⟩
    · exact .inl ⟨[], rfl⟩
    · exact .inr ⟨x, hx.symm⟩

namespace Cache

variable {c : Cache} {d l l' r r' : Draft} {token head tail u v w : Text} {e : Entry}

theorem mem_tokens_of_find? (h : c.find? token = some e) : token ∈ c.tokens := by
  obtain rfl : e.token = token := by simpa using List.find?_some h
  exact List.mem_append_left _ (List.mem_map_of_mem (List.mem_of_find?_eq_some h))

/-- A reader sees something of every part. -/
theorem IsTokenized.read_ne_nil (hd : c.IsTokenized d) (hne : d ≠ []) : c.read d ≠ [] := by
  obtain ⟨p, rest, rfl⟩ := List.exists_cons_of_ne_nil hne
  refine List.append_ne_nil_of_left_ne_nil ?_ (c.read rest)
  cases p with
  | character ch => exact List.cons_ne_nil ch []
  | token t =>
      obtain ⟨e, hfind, he⟩ := hd.entry t List.mem_cons_self
      rw [readPart_token hfind he]
      exact he.content_ne_nil

/-- An end of the text begins between two parts or inside a token. -/
theorem exists_of_text_eq_append (h : d.text = head ++ tail) :
    (∃ l r, d = l ++ r ∧ head = Draft.text l ∧ tail = Draft.text r) ∨
      ∃ l r u v, d = l ++ .token (u ++ v) :: r ∧ u ≠ [] ∧ v ≠ [] ∧ tail = v ++ Draft.text r := by
  rcases exists_of_flatMap_eq_append h with hbetween | ⟨l, p, r, u, v, rfl, hp, hu, hv, -, rfl⟩
  · exact .inl hbetween
  · cases p with
    | character ch => exact absurd hp (not_singleton_eq_append hu hv)
    | token t => exact .inr ⟨l, r, u, v, by rw [← hp]; rfl, hu, hv, rfl⟩

/-- What a reader sees is divided between two parts or inside the content of a token. -/
theorem IsTokenized.exists_of_read_eq_append (hd : c.IsTokenized d) (h : c.read d = head ++ tail) :
    (∃ l r, d = l ++ r ∧ head = c.read l ∧ tail = c.read r) ∨
      ∃ l token r e u v, d = l ++ .token token :: r ∧ c.find? token = some e ∧ e.content = u ++ v ∧ u ≠ [] ∧ v ≠ [] ∧
        head = c.read l ++ u ∧ tail = v ++ c.read r := by
  rcases exists_of_flatMap_eq_append h with hbetween | ⟨l, p, r, u, v, rfl, hp, hu, hv, rfl, rfl⟩
  · exact .inl hbetween
  · cases p with
    | character ch => exact absurd hp (not_singleton_eq_append hu hv)
    | token t =>
        obtain ⟨e, hfind, he⟩ := hd.entry t (List.mem_append_right l List.mem_cons_self)
        rw [readPart_token hfind he] at hp
        exact .inr ⟨l, t, r, e, u, v, rfl, hfind, hp, hu, hv, rfl, rfl⟩

theorem IsTokenized.read_token_cons (hd : c.IsTokenized (l ++ .token token :: r)) :
    ∃ e, c.find? token = some e ∧ e.IsBeyondAscii ∧ c.read (.token token :: r) = e.content ++ c.read r := by
  obtain ⟨e, hfind, he⟩ := hd.entry token (List.mem_append_right l List.mem_cons_self)
  exact ⟨e, hfind, he, by rw [read_cons, readPart_token hfind he]⟩

section Ends

variable (hc : c.HasMarkers)

include hc

/-- The rest of a token does not read as an end of the text that begins between two parts. -/
theorem IsTokenized.append_read_ne_read (hd : c.IsTokenized (l ++ .token (u ++ v) :: r)) (hv : v ≠ [])
    (h : l ++ .token (u ++ v) :: r = l' ++ r') : v ++ c.read r ≠ c.read r' := by
  intro hread
  obtain ⟨e, hfind, he, hpart⟩ := hd.read_token_cons
  rcases exists_of_append_cons_eq h with ⟨x, rfl⟩ | ⟨x, rfl⟩
  · rw [read_append, hpart, ← List.append_assoc] at hread
    have hsplit : v = c.read x ++ e.content := List.append_cancel_right hread
    obtain ⟨ch, hch⟩ := List.exists_mem_of_ne_nil _ he.content_ne_nil
    refine hc.notMem (mem_tokens_of_find? hfind) he ch hch (List.mem_append_right u ?_)
    exact hsplit ▸ List.mem_append_right (c.read x) hch
  · rw [read_append, ← List.append_assoc] at hread
    exact hv (List.append_eq_nil_iff.mp (List.append_left_eq_self.mp hread)).1

/-- Two ends of a text that begin between parts and read the same are the same. -/
theorem IsTokenized.eq_of_read_eq (hd : c.IsTokenized d) (h : d = l ++ r) (h' : d = l' ++ r')
    (hread : c.read r = c.read r') : r = r' := by
  -- Of the longer end a reader sees something before the shorter one begins.
  have hlonger {x y z : Draft} (hz : d = x ++ (y ++ z)) (hyz : c.read (y ++ z) = c.read z) : y = [] := by
    by_contra hne
    rw [read_append, List.append_left_eq_self] at hyz
    exact ((hz ▸ hd).of_append hc).of_start hc |>.read_ne_nil hne hyz
  rcases List.append_eq_append_iff.mp (h.symm.trans h') with ⟨x, rfl, rfl⟩ | ⟨x, rfl, rfl⟩
  · rw [hlonger h hread, List.nil_append]
  · rw [hlonger h' hread.symm, List.nil_append]

/-- Only one end of the text reads as one that begins between two parts does. -/
theorem IsTokenized.eq_of_readable_eq (hd : c.IsTokenized (l ++ r))
    (h : Draft.text (l ++ r) = head ++ tail) (hread : c.readable tail = c.read r) :
    head = Draft.text l ∧ tail = Draft.text r := by
  have htail : tail = Draft.text r := by
    rcases exists_of_text_eq_append h with ⟨l', r', hd', -, rfl⟩ | ⟨l', r', u, v, hd', hu, hv, rfl⟩
    · rw [hd'] at hd
      rw [(hd.of_append hc).readable_text hc] at hread
      rw [hd.eq_of_read_eq hc rfl hd'.symm hread]
    · rw [hd'] at hd
      rw [(hd.of_append hc).readable_inside hc hu] at hread
      exact absurd hread (hd.append_read_ne_read hc hv hd'.symm)
  rw [Draft.text_append, htail] at h
  exact ⟨(List.append_cancel_right h).symm, htail⟩

/-- No end of the text reads as what a reader sees from inside the content of a token on. -/
theorem IsTokenized.readable_ne (hd : c.IsTokenized (l ++ .token token :: r))
    (hfind : c.find? token = some e) (hcontent : e.content = u ++ v) (hu : u ≠ []) (hv : v ≠ [])
    (h : Draft.text (l ++ .token token :: r) = head ++ tail) : c.readable tail ≠ v ++ c.read r := by
  intro hread
  obtain ⟨e', hfind', he, hpart⟩ := hd.read_token_cons
  obtain rfl := Option.some.inj (hfind.symm.trans hfind')
  rw [hcontent] at hpart
  rcases exists_of_text_eq_append h with ⟨l', r', hd', -, rfl⟩ | ⟨l', r', u', v', hd', hu', hv', rfl⟩
  · have hend : c.IsTokenized r' := (hd' ▸ hd).of_append hc
    rw [hend.readable_text hc] at hread
    rcases exists_of_append_cons_eq hd' with ⟨x, rfl⟩ | ⟨x, rfl⟩
    · rw [read_append, hpart, List.append_assoc, ← List.append_assoc, List.append_left_eq_self] at hread
      exact hu (List.append_eq_nil_iff.mp hread).2
    · rw [read_append, ← List.append_assoc, eq_comm, List.append_left_eq_self] at hread
      exact hv (List.append_eq_nil_iff.mp hread).1
  · -- The token goes on with an ASCII character, the content with another one.
    have hother : c.IsTokenized (l' ++ .token (u' ++ v') :: r') := hd' ▸ hd
    rw [(hother.of_append hc).readable_inside hc hu'] at hread
    obtain ⟨ch, v, rfl⟩ := List.exists_cons_of_ne_nil hv
    obtain ⟨ch', v', rfl⟩ := List.exists_cons_of_ne_nil hv'
    obtain ⟨rfl, -⟩ := List.cons.inj hread
    obtain ⟨e', hfind', -⟩ := hother.read_token_cons
    exact hc.notMem (mem_tokens_of_find? hfind') he ch' (by simp [hcontent]) (by simp)

end Ends

end Cache

/-- A phrase is the end of the text that it is split off. -/
theorem Words.append_of_splitPhrase? {w : Words} {t head phrase : Text} (h : w.splitPhrase? t = some (head, phrase)) :
    t = head ++ phrase ∧ phrase ≠ [] := by
  obtain ⟨before, separator, rfl, hseparator⟩ := eq_append_of_splitPhrase? h
  rw [splitPhrase?_append w before hseparator] at h
  obtain ⟨⟨head', tail⟩, hfound, heq⟩ := Option.map_eq_some_iff.mp h
  obtain ⟨rfl, rfl⟩ := Prod.mk.inj heq
  obtain ⟨word, -, hword⟩ := List.exists_of_findSome?_eq_some hfound
  obtain ⟨rfl, -⟩ := splitWord?_eq_some_iff.mp hword
  have hne : tail ++ [separator] ≠ [] := List.append_ne_nil_of_right_ne_nil tail (List.cons_ne_nil separator [])
  exact ⟨List.append_assoc head' tail [separator], hne⟩

namespace References

/-- If an end of the text reads as the phrase, one is found. -/
theorem isSome_splitReading? {cache : Cache} {phrase backwards tail head word : Text}
    (h : backwards.reverse ++ tail = head ++ word) (hlength : tail.length < word.length)
    (hread : cache.readable word = phrase) : (splitReading? cache phrase backwards tail).isSome = true := by
  induction backwards generalizing tail with
  | nil =>
      have hlengths := congrArg List.length h
      simp only [List.reverse_nil, List.nil_append, List.length_append] at hlengths
      omega
  | cons c backwards ih =>
      rw [splitReading?]
      split
      · rfl
      · rename_i hother
        have hnext : backwards.reverse ++ c :: tail = head ++ word := by simpa using h
        refine ih hnext (Nat.lt_of_le_of_ne hlength fun heq => hother ?_)
        rw [(List.append_inj' hnext heq).2, hread]

/-- Where a text with tokens is split if a reader sees a linking phrase at its end. -/
structure SplitsWhereRead (s : Scope) (d : Draft) (head phrase : Text) : Prop where
  /-- If the phrase begins between two parts of the text, the text is split there. -/
  between : ∀ l r, d = l ++ r → s.cache.readable (Draft.text l) = head →
    splitPhrase? s d.text = some (Draft.text l, Draft.text r) ∧ s.cache.readable (Draft.text r) = phrase
  /-- If the phrase begins inside what a token stands for, the text is not split. -/
  inside : ∀ l token r e u v, d = l ++ .token token :: r → s.cache.find? token = some e → e.content = u ++ v → u ≠ [] →
    v ≠ [] → s.cache.readable (Draft.text l) ++ u = head → splitPhrase? s d.text = none
  /-- One of the two is the case. -/
  begins : (∃ l r, d = l ++ r ∧ s.cache.readable (Draft.text l) = head) ∨
    ∃ l token r e u v, d = l ++ .token token :: r ∧ s.cache.find? token = some e ∧ e.content = u ++ v ∧ u ≠ [] ∧
      v ≠ [] ∧ s.cache.readable (Draft.text l) ++ u = head

section Splits

variable {s : Scope} {d l r : Draft} {head phrase token u v : Text} {e : Entry} (hc : s.cache.HasMarkers)

theorem splitPhrase?_eq {t : Text} (h : s.words.splitPhrase? (s.cache.readable t) = some (head, phrase)) :
    splitPhrase? s t = splitReading? s.cache phrase t.reverse [] := by
  rw [splitPhrase?, h]
  rfl

include hc

theorem read_eq_append (hd : s.cache.IsTokenized d)
    (h : s.words.splitPhrase? (s.cache.readable d.text) = some (head, phrase)) :
    s.cache.read d = head ++ phrase ∧ phrase ≠ [] := by
  rw [← hd.readable_text hc]
  exact Words.append_of_splitPhrase? h

theorem splitPhrase?_of_between (hd : s.cache.IsTokenized (l ++ r))
    (h : s.words.splitPhrase? (s.cache.readable (Draft.text (l ++ r))) = some (s.cache.read l, phrase)) :
    splitPhrase? s (Draft.text (l ++ r)) = some (Draft.text l, Draft.text r) ∧
      s.cache.readable (Draft.text r) = phrase := by
  obtain ⟨hread, hphrase⟩ := read_eq_append hc hd h
  rw [Cache.read_append] at hread
  have hend : s.cache.readable (Draft.text r) = phrase :=
    ((hd.of_append hc).readable_text hc).trans (List.append_cancel_left hread)
  have hlength : 0 < (Draft.text r).length := by
    refine List.length_pos_iff.mpr fun hnil => hphrase ?_
    have hnone : s.cache.readable [] = [] := (hd.of_start hc (l := [])).readable_text hc
    rw [← hend, hnil, hnone]
  -- This end is one of those that are tried, and no other one reads the same.
  have hparts : (Draft.text (l ++ r)).reverse.reverse ++ [] = Draft.text l ++ Draft.text r := by simp
  obtain ⟨⟨before, word⟩, hfound⟩ := Option.isSome_iff_exists.mp (isSome_splitReading? hparts hlength hend)
  obtain ⟨htext, -, hword⟩ := eq_append_of_splitReading? hfound
  rw [List.reverse_reverse, List.append_nil] at htext
  rw [splitPhrase?_eq h, hfound]
  obtain ⟨rfl, rfl⟩ := hd.eq_of_readable_eq hc htext (hword.trans (List.append_cancel_left hread).symm)
  exact ⟨rfl, hend⟩

theorem splitPhrase?_of_inside (hd : s.cache.IsTokenized (l ++ .token token :: r))
    (hfind : s.cache.find? token = some e) (hcontent : e.content = u ++ v) (hu : u ≠ []) (hv : v ≠ [])
    (h : s.words.splitPhrase? (s.cache.readable (Draft.text (l ++ .token token :: r))) =
      some (s.cache.read l ++ u, phrase)) :
    splitPhrase? s (Draft.text (l ++ .token token :: r)) = none := by
  obtain ⟨e', hfind', -, hpart⟩ := hd.read_token_cons
  obtain rfl := Option.some.inj (hfind.symm.trans hfind')
  obtain ⟨hread, -⟩ := read_eq_append hc hd h
  have hend : v ++ s.cache.read r = phrase := by
    rw [Cache.read_append, hpart, hcontent, List.append_assoc, ← List.append_assoc] at hread
    exact List.append_cancel_left hread
  rw [splitPhrase?_eq h]
  refine Option.eq_none_iff_forall_ne_some.mpr fun ⟨before, word⟩ hfound => ?_
  obtain ⟨htext, -, hword⟩ := eq_append_of_splitReading? hfound
  rw [List.reverse_reverse, List.append_nil] at htext
  exact hd.readable_ne hc hfind hcontent hu hv htext (hword.trans hend.symm)

end Splits

/-- A linking phrase that a reader sees at the end of a text is split off it where it begins in the text. -/
theorem splitsWhereRead {s : Scope} {d : Draft} {head phrase : Text} (hc : s.cache.HasMarkers)
    (hd : s.cache.IsTokenized d) (h : s.words.splitPhrase? (s.cache.readable d.text) = some (head, phrase)) :
    SplitsWhereRead s d head phrase where
  between l r hparts hhead := by
    subst hparts
    rw [(hd.of_start hc).readable_text hc] at hhead
    exact splitPhrase?_of_between hc hd (hhead ▸ h)
  inside l token r e u v hparts hfind hcontent hu hv hhead := by
    subst hparts
    rw [(hd.of_start hc).readable_text hc] at hhead
    exact splitPhrase?_of_inside hc hd hfind hcontent hu hv (hhead ▸ h)
  begins := by
    rcases hd.exists_of_read_eq_append (read_eq_append hc hd h).1 with
      ⟨l, r, rfl, rfl, -⟩ | ⟨l, token, r, e, u, v, rfl, hfind, hcontent, hu, hv, rfl, -⟩
    · exact .inl ⟨l, r, rfl, (hd.of_start hc).readable_text hc⟩
    · refine .inr ⟨l, token, r, e, u, v, rfl, hfind, hcontent, hu, hv, ?_⟩
      rw [(hd.of_start hc).readable_text hc]

end References

namespace ThreeWords

/-- The words that are cached; the last one begins with a dash. -/
def words : List Text := ["См", "Рисунок", "—Рисунок"]

/-- The calls that cache the words. -/
def calls : List Call := words.map fun word => .span .unicode (Draft.plain word)

/-- The token of a word. -/
def token (word : Text) : Text := (Call.span .unicode (Draft.plain word)).token "salt"

/-- The cache with the words. -/
def cache : Cache := Cache.build "salt" calls

/-- A language in which the second word is the one for figures. -/
def scope : References.Scope := ⟨[], Words.only "Рисунок", cache⟩

/-- The beginning of a text that goes on with the second word. -/
def start : Draft := .token (token "См") :: Draft.plain ". "

/-- The end of a text, the second word. -/
def figure : Draft := .token (token "Рисунок") :: Draft.plain " "

/-- A text of the third word, in whose token the second one has no place of its own. -/
def dashed : Draft := .token (token "—Рисунок") :: Draft.plain " "

theorem distinct : Call.Distinct "salt" calls := Call.distinct_of_nodup (by decide +kernel)

theorem cache_scope : scope.cache = cache := by
  rw [scope]

theorem hasMarkers : scope.cache.HasMarkers := by
  rw [cache_scope]
  exact Cache.hasMarkers_build distinct

theorem find?_token (word : Text) (hword : word ∈ words) :
    scope.cache.find? (token word) = some ⟨token word, word, .unicode, none⟩ ∧
      Entry.IsBeyondAscii ⟨token word, word, .unicode, none⟩ := by
  have hcontent : ∀ word ∈ words, word ≠ [] ∧ (word.all fun ch => !Source.isAscii ch) = true := by decide
  have hfind := Cache.find?_of_isPlain distinct (List.mem_map_of_mem hword) ⟨word, rfl⟩
  rw [cache_scope]
  refine ⟨hfind.trans ?_, rfl, (hcontent word hword).1, by simpa using (hcontent word hword).2⟩
  rw [Call.cached?, Draft.text_plain]
  rfl

theorem isTokenized {d : Draft} (hd : ∀ t, .token t ∈ d → ∃ word ∈ words, t = token word)
    (hplaces : ∀ t ∈ scope.cache.tokens, ∀ place < d.text.length,
      Text.startsWith t (d.text.drop place) → place ∈ Draft.places t 0 d) : scope.cache.IsTokenized d where
  entry t ht := by
    obtain ⟨word, hword, rfl⟩ := hd t ht
    exact ⟨_, find?_token word hword⟩
  occursAsPut t ht := (Draft.occursAsPut_iff (hasMarkers.ne_nil t ht)).mpr (hplaces t ht)

theorem isTokenized_figure : scope.cache.IsTokenized (start ++ figure) := by
  refine isTokenized (fun t ht => ?_) (by decide +kernel)
  have hword : t = token "См" ∨ t = token "Рисунок" := by simpa [start, figure, -Draft.plain_cons] using ht
  rcases hword with hword | hword
  · exact ⟨_, List.mem_cons_self, hword⟩
  · exact ⟨_, List.mem_cons_of_mem _ List.mem_cons_self, hword⟩

theorem isTokenized_dashed : scope.cache.IsTokenized dashed := by
  refine isTokenized (fun t ht => ?_) (by decide +kernel)
  have hword : t = token "—Рисунок" := by simpa [dashed, -Draft.plain_cons] using ht
  exact ⟨_, List.mem_cons_of_mem _ (List.mem_cons_of_mem _ List.mem_cons_self), hword⟩

theorem splitPhrase?_readable :
    scope.words.splitPhrase? (scope.cache.readable (Draft.text (start ++ figure))) =
        some ("См. ".toList, "Рисунок ".toList) ∧
      scope.words.splitPhrase? (scope.cache.readable (Draft.text dashed)) = some ("—".toList, "Рисунок ".toList) := by
  have hwords : scope.words.linkingWords = ["Рисунок".toList] := Words.linkingWords_only (by decide)
  rw [Words.splitPhrase?, Words.splitPhrase?, hwords]
  decide +kernel

/-- The second word is split off with its token; the third one is not split. -/
theorem splitPhrase?_figure_dashed :
    (scope.cache.IsTokenized (start ++ figure) ∧ scope.cache.IsTokenized dashed ∧ scope.cache.HasMarkers) ∧
      References.splitPhrase? scope (Draft.text (start ++ figure)) = some (Draft.text start, Draft.text figure) ∧
      References.splitPhrase? scope (Draft.text dashed) = none := by
  have hfigure := References.splitsWhereRead hasMarkers isTokenized_figure splitPhrase?_readable.1
  have hdashed := References.splitsWhereRead hasMarkers isTokenized_dashed splitPhrase?_readable.2
  have hstart : scope.cache.readable (Draft.text start) = "См. ".toList := by decide +kernel
  have hempty : scope.cache.readable (Draft.text []) ++ "—".toList = "—".toList := by decide +kernel
  have hthird := find?_token "—Рисунок" (List.mem_cons_of_mem _ (List.mem_cons_of_mem _ List.mem_cons_self))
  refine ⟨⟨isTokenized_figure, isTokenized_dashed, hasMarkers⟩, (hfigure.between start figure rfl hstart).1, ?_⟩
  exact hdashed.inside [] _ (Draft.plain " ") _ "—".toList "Рисунок".toList rfl hthird.1 rfl (by decide) (by decide)
    hempty

end ThreeWords

end Manuscript
