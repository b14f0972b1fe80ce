import Mathlib.Data.List.Infix
import Mathlib.Data.List.Sort
import Manuscript.Proofs.Text.Trim
import Manuscript.Words

/-!
Linking phrases at the ends of texts.  They are looked for in the lower-case form of a text and are split off the text
itself, so that characters count whose lower-case form is longer or shorter, or depends on what is around them.

Main statement: a phrase is found if and only if there is one, by whatever words, exactly in the texts in which the
lower-case forms of ends are ends of the same length of the lower-case form (`findsPhrase_iff_isSteady`).
-/

namespace Manuscript

theorem lowerChar_ne_nil (c : Char) : lowerChar c ≠ [] := by
  simp only [lowerChar]
  split
  · exact List.cons_ne_nil _ _
  · split
    · exact List.cons_ne_nil _ _
    · split <;> exact List.cons_ne_nil _ _

namespace Text

/-- How long the lower-case form of a part is does not depend on what is around it. -/
theorem length_lowerGo_append (before before' before'' s t : Text) :
    (lower.go before (s ++ t)).length = (lower.go before' s).length + (lower.go before'' t).length := by
  induction s generalizing before before' with
  | nil =>
      induction t generalizing before before'' with
      | nil => rfl
      | cons c t ih =>
          have hrest := ih (c :: before) (c :: before'')
          simp only [List.nil_append, lower.go, List.length_append, List.length_nil, Nat.zero_add] at hrest ⊢
          rw [hrest]
          split
          · split <;> split <;> rfl
          · rfl
  | cons c s ih =>
      have hrest := ih (c :: before) (c :: before')
      simp only [List.cons_append, lower.go, List.length_append] at hrest ⊢
      rw [hrest]
      split
      · split <;> split <;> simp only [List.length_singleton, Nat.add_assoc]
      · rw [Nat.add_assoc]

theorem lower_eq_nil_iff {t : Text} : lower t = [] ↔ t = [] := by
  constructor
  · intro h
    cases t with
    | nil => rfl
    | cons c t =>
        rw [lower, lower.go, List.append_eq_nil_iff] at h
        split at h
        · split at h <;> cases h.1
        · exact absurd h.1 (lowerChar_ne_nil c)
  · rintro rfl
    rfl

theorem eq_nil_of_lower_append_eq {s t : Text} (h : lower (s ++ t) = lower t) : s = [] := by
  have hlength : (lower t).length = (lower s).length + (lower t).length :=
    (congrArg List.length h).symm.trans (length_lowerGo_append [] [] [] s t)
  have hnil : lower s = [] := List.length_eq_zero_iff.mp (by omega)
  exact lower_eq_nil_iff.mp hnil

theorem endsWith_iff {tail t : Text} : endsWith tail t = true ↔ tail <:+ t := by
  unfold endsWith
  constructor
  · intro h
    obtain ⟨head, hhead⟩ := Option.isSome_iff_exists.mp h
    exact ⟨head, (eq_append_of_before? hhead).symm⟩
  · rintro ⟨head, rfl⟩
    rw [before?, List.reverse_append, after?_append]
    rfl

/-- Two ends of a text with the same lower-case form are the same. -/
theorem eq_of_suffix_of_lower {s s' t : Text} (h : s <:+ t) (h' : s' <:+ t) (hlower : lower s = lower s') : s = s' := by
  obtain ⟨u, rfl⟩ | ⟨u, rfl⟩ := List.suffix_or_suffix_of_suffix h h'
  · rw [eq_nil_of_lower_append_eq hlower.symm, List.nil_append]
  · rw [eq_nil_of_lower_append_eq hlower, List.nil_append]

/-- Two ends of a text that have the same number of bytes are the same. -/
theorem eq_of_suffix_of_byteLength {s s' t : Text} (h : s <:+ t) (h' : s' <:+ t) (hlength : byteLength s = byteLength s') :
    s = s' := by
  have hnil : ∀ {u v : Text}, byteLength (u ++ v) = byteLength v → u = [] := by
    intro u v hbytes
    cases u with
    | nil => rfl
    | cons c u =>
        have hpos := c.utf8Size_pos
        rw [byteLength_append, byteLength_cons] at hbytes
        omega
  obtain ⟨u, rfl⟩ | ⟨u, rfl⟩ := List.suffix_or_suffix_of_suffix h h'
  · rw [hnil hlength.symm, List.nil_append]
  · rw [hnil hlength, List.nil_append]

/-- Without capital sigmas, characters have their lower-case forms wherever they stand. -/
theorem lower_eq_flatMap {t : Text} (h : ∀ c ∈ t, c ≠ 'Σ') : lower t = t.flatMap lowerChar := by
  have hgo : ∀ before, lower.go before t = t.flatMap lowerChar := by
    induction t with
    | nil => exact fun _ => rfl
    | cons c t ih =>
        obtain ⟨hc, ht⟩ := List.forall_mem_cons.mp h
        intro before
        rw [lower.go, if_neg hc, ih ht, List.flatMap_cons]
  exact hgo []

theorem byteLength_flatMap_lowerChar {t : Text} (h : ∀ c ∈ t, byteLength (lowerChar c) = c.utf8Size) :
    byteLength (t.flatMap lowerChar) = byteLength t := by
  induction t with
  | nil => rfl
  | cons c t ih =>
      obtain ⟨hc, ht⟩ := List.forall_mem_cons.mp h
      rw [List.flatMap_cons, byteLength_append, byteLength_cons, hc, ih ht]

end Text

namespace Words

variable {w : Words} {t before head tail word : Text} {separator : Char}

theorem splitAtByte?_append (head tail : Text) :
    splitAtByte? (Text.byteLength head) (head ++ tail) = some (head, tail) := by
  induction head with
  | nil => cases tail <;> rfl
  | cons c head ih =>
      have hpos := c.utf8Size_pos
      rw [List.cons_append, splitAtByte?, Text.byteLength_cons, if_neg (by omega), if_neg (by omega),
        Nat.add_sub_cancel_left, ih]
      rfl

theorem eq_append_of_splitAtByte? {bytes : Nat} (h : splitAtByte? bytes t = some (head, tail)) :
    t = head ++ tail ∧ Text.byteLength head = bytes := by
  induction t generalizing bytes head with
  | nil =>
      rw [splitAtByte?] at h
      split at h
      · rename_i hzero
        obtain ⟨rfl, rfl⟩ := Prod.mk.inj (Option.some.inj h)
        exact ⟨rfl, hzero.symm⟩
      · cases h
  | cons c t ih =>
      rw [splitAtByte?] at h
      split at h
      · rename_i hzero
        obtain ⟨rfl, rfl⟩ := Prod.mk.inj (Option.some.inj h)
        exact ⟨rfl, hzero.symm⟩
      · split at h
        · cases h
        · rename_i hle
          obtain ⟨⟨head', tail'⟩, hsplit, heq⟩ := Option.map_eq_some_iff.mp h
          obtain ⟨rfl, rfl⟩ := Prod.mk.inj heq
          obtain ⟨rfl, hbytes⟩ := ih hsplit
          refine ⟨rfl, ?_⟩
          rw [Text.byteLength_cons, hbytes]
          omega

/-- A word can stand here: no letter and no digit comes right before. -/
def IsDelimited (head : Text) : Prop := head.getLast?.all (fun c => !isLetterOrNumber c) = true

/-- Where a word is split off: its lower-case form is the end of that of the text, which is as long as the text. -/
theorem splitWord?_eq_some_iff :
    splitWord? before word = some (head, tail) ↔
      before = head ++ tail ∧ IsDelimited head ∧ Text.lower word <:+ Text.lower before ∧
        Text.byteLength (Text.lower before) = Text.byteLength before ∧
        Text.byteLength tail = Text.byteLength (Text.lower word) := by
  unfold splitWord?
  constructor
  · intro h
    simp only [Bool.or_eq_true, Bool.not_eq_true', bne_iff_ne, ne_eq, Option.bind_eq_bind] at h
    split at h
    · cases h
    · rename_i hguard
      obtain ⟨hends, hlength⟩ := not_or.mp hguard
      have hsuffix := Text.endsWith_iff.mp (Bool.of_not_eq_false hends)
      obtain ⟨⟨head', tail'⟩, hsplit, hresult⟩ := Option.bind_eq_some_iff.mp h
      simp only at hresult
      split at hresult
      · rename_i hdelimited
        obtain ⟨rfl, rfl⟩ := Prod.mk.inj (Option.some.inj hresult)
        obtain ⟨rfl, hbytes⟩ := eq_append_of_splitAtByte? hsplit
        have heq := not_not.mp hlength
        obtain ⟨start, hstart⟩ := hsuffix
        have hsum := congrArg Text.byteLength hstart
        rw [Text.byteLength_append] at hbytes hsum heq
        exact ⟨rfl, hdelimited, ⟨start, hstart⟩, by rw [heq, Text.byteLength_append], by omega⟩
      · cases hresult
  · rintro ⟨rfl, hdelimited, hsuffix, hlength, hbytes⟩
    have hplace : Text.byteLength head + Text.byteLength tail - Text.byteLength (Text.lower word) =
        Text.byteLength head := by omega
    unfold IsDelimited at hdelimited
    simp [Text.endsWith_iff.mpr hsuffix, hlength, hplace, splitAtByte?_append, hdelimited]

theorem splitPhrase?_append (w : Words) (before : Text) (h : separator ∈ separators) :
    w.splitPhrase? (before ++ [separator]) =
      (w.linkingWords.findSome? (splitWord? before)).map fun split => (split.1, split.2 ++ [separator]) := by
  unfold splitPhrase?
  rw [List.getLast?_concat, List.dropLast_concat]
  cases w.linkingWords.findSome? (splitWord? before) <;> simp [h]

/-- The text is what it takes for a phrase to be split off: something, and then a separator. -/
theorem eq_append_of_splitPhrase? {phrase : Text} (h : w.splitPhrase? t = some (head, phrase)) :
    ∃ before separator, t = before ++ [separator] ∧ separator ∈ separators := by
  unfold splitPhrase? at h
  obtain ⟨separator, hlast, h⟩ := Option.bind_eq_some_iff.mp h
  refine ⟨t.dropLast, separator, (List.dropLast_append_getLast? separator hlast).symm, ?_⟩
  by_contra hother
  rw [if_pos hother] at h
  cases h

/-- The text ends in a linking phrase: a linking word, letter case ignored, and a separator. -/
structure EndsIn (w : Words) (t head tail word : Text) (separator : Char) : Prop where
  text_eq : t = head ++ tail ++ [separator]
  separator_mem : separator ∈ separators
  word_mem : word ∈ w.linkingWords
  lower_eq : Text.lower tail = Text.lower word
  isDelimited : IsDelimited head

/-- A phrase is split off if and only if there is one, and then one with the longest word is. -/
def FindsPhrase (w : Words) (t : Text) : Prop :=
  ((w.splitPhrase? t).isSome ↔ ∃ head tail word separator, w.EndsIn t head tail word separator) ∧
    ∀ head phrase, w.splitPhrase? t = some (head, phrase) →
      ∃ tail word separator, phrase = tail ++ [separator] ∧ w.EndsIn t head tail word separator ∧
        ∀ head' tail' word' separator', w.EndsIn t head' tail' word' separator' → word'.length ≤ word.length

/-- Wherever a word could begin in front of the separator, the lower-case form of what follows is the end of that of the
whole, and it is as long as what follows. -/
def IsSteady (t : Text) : Prop :=
  ∀ head tail separator, t = head ++ tail ++ [separator] → separator ∈ separators → tail ≠ [] → IsDelimited head →
    Text.lower tail <:+ Text.lower (head ++ tail) ∧ Text.byteLength (Text.lower tail) = Text.byteLength tail

theorem ne_nil_of_mem_linkingWords (h : word ∈ w.linkingWords) : word ≠ [] := by
  rw [linkingWords, List.mem_mergeSort] at h
  simpa using (List.mem_filter.mp h).2

/-- The longest words come first. -/
theorem pairwise_linkingWords (w : Words) : w.linkingWords.Pairwise fun a b => b.length ≤ a.length := by
  have hsorted : w.linkingWords.Pairwise fun a b => decide (b.length ≤ a.length) = true := by
    refine List.pairwise_mergeSort ?_ ?_ _
    · intro a b c hab hbc
      simp only [decide_eq_true_eq] at hab hbc ⊢
      omega
    · intro a b
      simp only [Bool.or_eq_true, decide_eq_true_eq]
      omega
  exact hsorted.imp fun h => of_decide_eq_true h

/-- The words of a language that has a word for figures only. -/
def only (word : Text) : Words := ⟨[], .standard, [], word, [], [], [], [], []⟩

theorem linkingWords_only (h : word ≠ []) : (only word).linkingWords = [word] := by
  simp [linkingWords, only, h]

/-- In a steady text each phrase that there is can be split off. -/
theorem EndsIn.splitWord?_eq (h : w.EndsIn t head tail word separator) (hsteady : IsSteady t) :
    splitWord? (head ++ tail) word = some (head, tail) := by
  have htail : tail ≠ [] := by
    rintro rfl
    exact ne_nil_of_mem_linkingWords h.word_mem (Text.lower_eq_nil_iff.mp h.lower_eq.symm)
  obtain ⟨hsuffix, hbytes⟩ := hsteady head tail separator h.text_eq h.separator_mem htail h.isDelimited
  -- That the whole keeps its length is what steadiness says of a word that begins at the beginning.
  obtain ⟨-, hwhole⟩ := hsteady [] (head ++ tail) separator h.text_eq h.separator_mem
    (List.append_ne_nil_of_right_ne_nil head htail) rfl
  rw [h.lower_eq] at hsuffix hbytes
  exact splitWord?_eq_some_iff.mpr ⟨rfl, h.isDelimited, hsuffix, hwhole, hbytes.symm⟩

/-- In a steady text only phrases are split off. -/
theorem endsIn_of_splitWord? (hsteady : IsSteady (before ++ [separator])) (hseparator : separator ∈ separators)
    (hword : word ∈ w.linkingWords) (h : splitWord? before word = some (head, tail)) :
    w.EndsIn (before ++ [separator]) head tail word separator := by
  obtain ⟨rfl, hdelimited, hsuffix, -, hbytes⟩ := splitWord?_eq_some_iff.mp h
  have htail : tail ≠ [] := by
    rintro rfl
    have hnil := Text.eq_of_suffix_of_byteLength (List.nil_suffix (l := Text.lower word)) List.suffix_rfl hbytes
    exact ne_nil_of_mem_linkingWords hword (Text.lower_eq_nil_iff.mp hnil.symm)
  obtain ⟨hsuffix', hbytes'⟩ := hsteady head tail separator rfl hseparator htail hdelimited
  exact ⟨rfl, hseparator, hword, Text.eq_of_suffix_of_byteLength hsuffix' hsuffix (hbytes'.trans hbytes), hdelimited⟩

theorem findsPhrase_of_isSteady (hsteady : IsSteady t) (w : Words) : w.FindsPhrase t := by
  have hsound : ∀ head phrase, w.splitPhrase? t = some (head, phrase) →
      ∃ tail word separator, phrase = tail ++ [separator] ∧ w.EndsIn t head tail word separator ∧
        ∀ head' tail' word' separator', w.EndsIn t head' tail' word' separator' → word'.length ≤ word.length := by
    intro head phrase h
    obtain ⟨before, separator, rfl, hseparator⟩ := eq_append_of_splitPhrase? h
    rw [splitPhrase?_append w before hseparator] at h
    obtain ⟨⟨head', tail⟩, hfound, heq⟩ := Option.map_eq_some_iff.mp h
    obtain ⟨rfl, rfl⟩ := Prod.mk.inj heq
    obtain ⟨longer, word, shorter, hwords, hword, hlonger⟩ := List.findSome?_eq_some_iff.mp hfound
    have hmem : word ∈ w.linkingWords := hwords ▸ List.mem_append_right _ List.mem_cons_self
    refine ⟨tail, word, separator, rfl, endsIn_of_splitWord? hsteady hseparator hmem hword, ?_⟩
    intro head' tail' word' separator' hends
    obtain ⟨rfl, -⟩ := List.append_inj' hends.text_eq rfl
    have hsplit := hends.splitWord?_eq hsteady
    have hsorted := w.pairwise_linkingWords
    have hmem' := hends.word_mem
    rw [hwords] at hsorted hmem'
    -- Any word that is longer has been tried before, and it would have been found.
    rcases List.mem_append.mp hmem' with hbefore | hafter
    · rw [hlonger word' hbefore] at hsplit
      cases hsplit
    · rcases List.mem_cons.mp hafter with rfl | hshorter
      · exact Nat.le_refl _
      · exact List.rel_of_pairwise_cons (List.pairwise_append.mp hsorted).2.1 hshorter
  refine ⟨⟨fun h => ?_, ?_⟩, hsound⟩
  · obtain ⟨⟨head, phrase⟩, h⟩ := Option.isSome_iff_exists.mp h
    obtain ⟨tail, word, separator, -, hends, -⟩ := hsound head phrase h
    exact ⟨head, tail, word, separator, hends⟩
  · rintro ⟨head, tail, word, separator, hends⟩
    have hsplit := hends.splitWord?_eq hsteady
    rw [hends.text_eq, splitPhrase?_append w _ hends.separator_mem, Option.isSome_map, List.findSome?_isSome_iff]
    exact ⟨word, hends.word_mem, hsplit ▸ rfl⟩

/-- A text is steady if an end of it can be found that is the word for figures. -/
theorem isSteady_of_findsPhrase (h : ∀ w : Words, w.FindsPhrase t) : IsSteady t := by
  intro head tail separator heq hseparator htail hdelimited
  have hwords := linkingWords_only htail
  have hends : (only tail).EndsIn t head tail tail separator :=
    ⟨heq, hseparator, hwords ▸ List.mem_singleton.mpr rfl, rfl, hdelimited⟩
  obtain ⟨hiff, hsound⟩ := h (only tail)
  obtain ⟨⟨head', phrase⟩, hfound⟩ := Option.isSome_iff_exists.mp (hiff.mpr ⟨_, _, _, _, hends⟩)
  obtain ⟨tail', word, separator', rfl, hends', -⟩ := hsound head' phrase hfound
  obtain rfl : word = tail := List.mem_singleton.mp (hwords ▸ hends'.word_mem)
  subst heq
  rw [splitPhrase?_append _ _ hseparator, hwords] at hfound
  obtain ⟨⟨head'', tail''⟩, hsplit, hparts⟩ := Option.map_eq_some_iff.mp hfound
  obtain ⟨rfl, hphrase⟩ := Prod.mk.inj hparts
  obtain ⟨rfl, -⟩ := List.append_inj' hphrase rfl
  rw [List.findSome?_singleton] at hsplit
  obtain ⟨hparts, -, hsuffix, -, hbytes⟩ := splitWord?_eq_some_iff.mp hsplit
  -- Only the end itself has its lower-case form, so that it is what has been split off.
  obtain rfl := Text.eq_of_suffix_of_lower (t := head ++ word) ⟨_, hparts.symm⟩ (List.suffix_append head word)
    hends'.lower_eq
  exact ⟨hsuffix, hbytes.symm⟩

/-- A text is steady if each character in it has a lower-case form of its own that is as long. -/
theorem isSteady_of_forall (h : ∀ c ∈ t, c ≠ 'Σ' ∧ Text.byteLength (lowerChar c) = c.utf8Size) : IsSteady t := by
  intro head tail separator heq _ _ _
  have hmem : ∀ c ∈ head ++ tail, c ∈ t := fun c hc => heq ▸ List.mem_append_left _ hc
  have htail : ∀ c ∈ tail, c ≠ 'Σ' ∧ Text.byteLength (lowerChar c) = c.utf8Size :=
    fun c hc => h c (hmem c (List.mem_append_right head hc))
  rw [Text.lower_eq_flatMap fun c hc => (h c (hmem c hc)).1, Text.lower_eq_flatMap fun c hc => (htail c hc).1,
    List.flatMap_append]
  exact ⟨List.suffix_append _ _, Text.byteLength_flatMap_lowerChar fun c hc => (htail c hc).2⟩

/-- A text is steady if and only if linking phrases are found in it as they should be, by whatever words.  So they are
if each character has a lower-case form of its own that is as long. -/
theorem findsPhrase_iff_isSteady (t : Text) :
    ((∀ w : Words, w.FindsPhrase t) ↔ IsSteady t) ∧
      ((∀ c ∈ t, c ≠ 'Σ' ∧ Text.byteLength (lowerChar c) = c.utf8Size) → IsSteady t) :=
  ⟨⟨isSteady_of_findsPhrase, findsPhrase_of_isSteady⟩, isSteady_of_forall⟩

end Words

namespace KelvinSign

/-- Two letters that are longer in lower case make up for the sign, which is shorter. -/
def text : Text := "İİ a-\u212A "

/-- Only the end of the word is split off. -/
theorem splitPhrase?_text : (Words.only "a-k").splitPhrase? text = some ("İİ a-".toList, "\u212A ".toList) := by
  have hwords : (Words.only "a-k").linkingWords = ["a-k".toList] := Words.linkingWords_only (by decide)
  rw [Words.splitPhrase?, hwords]
  decide +kernel

theorem not_findsPhrase : ¬ (Words.only "a-k").FindsPhrase text := by
  rintro ⟨-, hsound⟩
  obtain ⟨tail, word, separator, hphrase, hends, -⟩ := hsound _ _ splitPhrase?_text
  have hparts : "\u212A".toList ++ [' '] = tail ++ [separator] := hphrase
  obtain ⟨rfl, -⟩ := List.append_inj' hparts rfl
  have hword := hends.word_mem
  rw [Words.linkingWords_only (by decide), List.mem_singleton] at hword
  have hlower := hends.lower_eq
  rw [hword] at hlower
  revert hlower
  decide +kernel

end KelvinSign

end Manuscript
