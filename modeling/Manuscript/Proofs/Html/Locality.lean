import Manuscript.Proofs.Html.Reading

/-!
How far a reader of HTML looks.  A tag that ends is read the same whatever follows it, and a text is read up to the next
markup.

Main statement: a text with no tag or comment left open is read on its own, whatever markup follows it
(`tokens_append`).
-/

namespace Manuscript.Html

/-! Tags -/

theorem while_append {p : Char → Bool} {t : Text} (h : t.dropWhile p ≠ []) (u : Text) :
    (t ++ u).takeWhile p = t.takeWhile p ∧ (t ++ u).dropWhile p = t.dropWhile p ++ u := by
  induction t with
  | nil => exact absurd rfl h
  | cons c t ih =>
      cases hc : p c with
      | true =>
          rw [List.dropWhile_cons_of_pos hc] at h
          obtain ⟨htake, hdrop⟩ := ih h
          rw [List.cons_append, List.takeWhile_cons_of_pos hc, List.takeWhile_cons_of_pos hc,
            List.dropWhile_cons_of_pos hc, List.dropWhile_cons_of_pos hc, htake, hdrop]
          exact ⟨rfl, rfl⟩
      | false =>
          rw [List.cons_append, List.takeWhile_cons_of_neg (by simp [hc]), List.takeWhile_cons_of_neg (by simp [hc]),
            List.dropWhile_cons_of_neg (by simp [hc]), List.dropWhile_cons_of_neg (by simp [hc])]
          exact ⟨rfl, rfl⟩

theorem cut?_append {c : Char} {t head rest : Text} (h : Text.cut? [c] t = some (head, rest)) (u : Text) :
    Text.cut? [c] (t ++ u) = some (head, rest ++ u) := by
  have heq : t ++ u = head ++ c :: (rest ++ u) := by
    rw [Text.eq_append_of_cut? h]
    simp
  rw [heq]
  exact Text.cut?_append_cons (Text.notMem_of_cut? h) _

theorem attributeValue?_eq {t s : Text} {c : Char} (h : t.dropWhile isSpace = c :: s) :
    attributeValue? t =
      if c = '"' then Text.cut? "\"" s
      else if c = '\'' then Text.cut? "'" s
      else some ((c :: s).takeWhile fun c => !isSpace c && c ≠ '>', (c :: s).dropWhile fun c => !isSpace c && c ≠ '>') := by
  unfold attributeValue?
  rw [h]
  split
  · rename_i heq
    rw [(List.cons.inj heq).1, (List.cons.inj heq).2, if_pos rfl]
  · rename_i heq
    rw [(List.cons.inj heq).1, (List.cons.inj heq).2, if_neg (by decide), if_pos rfl]
  · rename_i hdouble hsingle
    rw [if_neg fun heq : c = '"' => hdouble s (by rw [heq]), if_neg fun heq : c = '\'' => hsingle s (by rw [heq])]

/-- A value is read from the start of a text, and the same if more follows. -/
theorem attributeValue?_append_right {t raw rest : Text} (h : attributeValue? t = some (raw, rest)) :
    rest <:+ t ∧ (rest ≠ [] → ∀ u, attributeValue? (t ++ u) = some (raw, rest ++ u)) := by
  have hspace := List.dropWhile_suffix (l := t) isSpace
  cases hs : t.dropWhile isSpace with
  | nil =>
      unfold attributeValue? at h
      rw [hs] at h
      cases h
      exact ⟨List.nil_suffix, fun hrest => absurd rfl hrest⟩
  | cons c s =>
      rw [hs] at hspace
      have happend (u : Text) : (t ++ u).dropWhile isSpace = c :: (s ++ u) := by
        rw [(while_append (by simp [hs]) u).2, hs, List.cons_append]
      have hcut {mark : Char} (hcut : Text.cut? [mark] s = some (raw, rest)) : rest <:+ t := by
        rw [Text.eq_append_of_cut? hcut] at hspace
        exact (List.suffix_append _ rest).trans ((List.suffix_cons c _).trans hspace)
      rw [attributeValue?_eq hs] at h
      split at h
      · rename_i hquote
        refine ⟨hcut h, fun _ u => ?_⟩
        rw [attributeValue?_eq (happend u), if_pos hquote]
        exact cut?_append h u
      · rename_i hquote
        split at h
        · rename_i hsingle
          refine ⟨hcut h, fun _ u => ?_⟩
          rw [attributeValue?_eq (happend u), if_neg hquote, if_pos hsingle]
          exact cut?_append h u
        · rename_i hsingle
          cases h
          refine ⟨(List.dropWhile_suffix _).trans hspace, fun hrest u => ?_⟩
          rw [attributeValue?_eq (happend u), if_neg hquote, if_neg hsingle, ← List.cons_append, (while_append hrest u).1,
            (while_append hrest u).2]

/-- What stands in the name of an attribute after its first character. -/
def isAttributePart (c : Char) : Bool := !isSpace c && c ≠ '/' && c ≠ '>' && c ≠ '='

theorem attribute?_eq (c : Char) (t : Text) :
    attribute? (c :: t) =
      if ((t.dropWhile isAttributePart).dropWhile isSpace).head? = some '=' then
        (attributeValue? ((t.dropWhile isAttributePart).dropWhile isSpace).tail).map fun (raw, rest) =>
          ((foldName (c :: t.takeWhile isAttributePart), resolve true (raw.map replaceNull)), rest)
      else some ((foldName (c :: t.takeWhile isAttributePart), []), (t.dropWhile isAttributePart).dropWhile isSpace) := by
  unfold attribute?
  dsimp only
  split
  · rename_i rest heq
    have heq : (t.dropWhile isAttributePart).dropWhile isSpace = '=' :: rest := heq
    rw [heq, List.head?_cons, if_pos rfl, List.tail_cons]
    rfl
  · rename_i hnone
    rw [if_neg]
    · rfl
    intro hhead
    cases hrest : (t.dropWhile isAttributePart).dropWhile isSpace with
    | nil =>
        rw [hrest] at hhead
        cases hhead
    | cons d rest =>
        rw [hrest] at hhead
        cases hhead
        exact hnone rest hrest

theorem attribute?_append_right {c : Char} {t rest : Text} {a : Text × Text}
    (h : attribute? (c :: t) = some (a, rest)) :
    rest <:+ t ∧ (rest ≠ [] → ∀ u, attribute? (c :: (t ++ u)) = some (a, rest ++ u)) := by
  have hsuffix : (t.dropWhile isAttributePart).dropWhile isSpace <:+ t :=
    (List.dropWhile_suffix _).trans (List.dropWhile_suffix _)
  rw [attribute?_eq] at h
  -- A name at the end of the text leaves nothing to read on.
  have happend (hne : (t.dropWhile isAttributePart).dropWhile isSpace ≠ []) (u : Text) :
      (t ++ u).takeWhile isAttributePart = t.takeWhile isAttributePart ∧
        ((t ++ u).dropWhile isAttributePart).dropWhile isSpace =
          (t.dropWhile isAttributePart).dropWhile isSpace ++ u := by
    have hpart : t.dropWhile isAttributePart ≠ [] := by
      intro hnil
      rw [hnil] at hne
      exact hne rfl
    rw [(while_append hpart u).1, (while_append hpart u).2, (while_append hne u).2]
    exact ⟨rfl, rfl⟩
  split at h
  · rename_i hequals
    obtain ⟨⟨raw, after⟩, hvalue, hpair⟩ := Option.map_eq_some_iff.mp h
    cases hpair
    have hne : (t.dropWhile isAttributePart).dropWhile isSpace ≠ [] := by
      intro hnil
      rw [hnil] at hequals
      cases hequals
    obtain ⟨hvalueSuffix, hvalueAppend⟩ := attributeValue?_append_right hvalue
    refine ⟨hvalueSuffix.trans ((List.tail_suffix _).trans hsuffix), fun hrest u => ?_⟩
    obtain ⟨htake, hdrop⟩ := happend hne u
    rw [attribute?_eq, htake, hdrop, List.head?_append_of_ne_nil _ hne, if_pos hequals, List.tail_append_of_ne_nil hne,
      hvalueAppend hrest u]
    rfl
  · rename_i hequals
    cases h
    refine ⟨hsuffix, fun hrest u => ?_⟩
    obtain ⟨htake, hdrop⟩ := happend hrest u
    rw [attribute?_eq, htake, hdrop, List.head?_append_of_ne_nil _ hrest, if_neg hequals]

theorem ne_nil_of_tagEnd? {found : List (Text × Text)} {t : Text} {end? : List (Text × Text) × Bool × Text}
    (h : tagEnd? found t = some end?) : t ≠ [] := by
  rintro rfl
  rw [tagEnd?] at h
  cases h

/-- A tag that ends is read the same whatever follows it. -/
theorem tagEnd?_append_right {found attributes : List (Text × Text)} {isClosed : Bool} {t rest : Text}
    (h : tagEnd? found t = some (attributes, isClosed, rest)) :
    (rest <:+ t ∧ rest.length < t.length) ∧
      ∀ u, tagEnd? found (t ++ u) = some (attributes, isClosed, rest ++ u) := by
  fun_induction tagEnd? found t with
  | case1 => cases h
  | case2 found t =>
      cases h
      refine ⟨⟨List.suffix_cons _ _, Nat.lt_succ_self _⟩, fun u => ?_⟩
      rw [List.cons_append, tagEnd?, if_pos rfl]
  | case3 found c t hbracket hslash =>
      cases h
      obtain ⟨rest, rfl⟩ : ∃ rest, t = '>' :: rest := by
        cases t with
        | nil => cases hslash.2
        | cons d rest =>
            cases hslash.2
            exact ⟨rest, rfl⟩
      refine ⟨⟨(List.suffix_cons _ _).trans (List.suffix_cons _ _), ?_⟩, fun u => ?_⟩
      · simp only [List.tail_cons, List.length_cons]
        omega
      · rw [List.cons_append, tagEnd?, if_neg hbracket, if_pos ⟨hslash.1, rfl⟩]
        rfl
  | case4 found c t hbracket hslash hspace ih =>
      obtain ⟨⟨hsuffix, hlength⟩, happend⟩ := ih h
      refine ⟨⟨hsuffix.trans (List.suffix_cons c t), Nat.lt_succ_of_lt hlength⟩, fun u => ?_⟩
      rw [List.cons_append, tagEnd?, if_neg hbracket, List.head?_append_of_ne_nil _ (ne_nil_of_tagEnd? h),
        if_neg hslash, if_pos hspace]
      exact happend u
  | case5 found c t hbracket hslash hspace hnone =>
      rw [hnone] at h
      cases h
  | case6 found c t hbracket hslash hspace a after hlength hattribute ih =>
      rw [hattribute] at h
      simp only [if_pos hlength] at h
      obtain ⟨⟨hsuffix, hless⟩, happend⟩ := ih h
      have hne := ne_nil_of_tagEnd? h
      obtain ⟨hafter, hread⟩ := attribute?_append_right hattribute
      have hnonempty : t ≠ [] := by
        rintro rfl
        exact hne (List.eq_nil_of_length_eq_zero (Nat.le_zero.mp hlength))
      refine ⟨⟨hsuffix.trans (hafter.trans (List.suffix_cons c t)), ?_⟩, fun u => ?_⟩
      · exact Nat.lt_succ_of_lt (Nat.lt_of_lt_of_le hless hlength)
      · rw [List.cons_append, tagEnd?, if_neg hbracket, List.head?_append_of_ne_nil _ hnonempty, if_neg hslash,
          if_neg hspace, hread hne u]
        simp only [List.length_append, Nat.add_le_add_iff_right, if_pos hlength]
        exact happend u
  | case7 found c t hbracket hslash hspace a after hlength hattribute =>
      rw [hattribute] at h
      simp only [if_neg hlength] at h
      cases h

theorem tag?_append_right {t rest : Text} {tag : Tag} (h : tag? t = some (tag, rest)) :
    (rest <:+ t ∧ rest.length < t.length) ∧ ∀ u, tag? (t ++ u) = some (tag, rest ++ u) := by
  unfold tag? at h ⊢
  dsimp only at h ⊢
  obtain ⟨⟨attributes, isClosed, after⟩, hend, hpair⟩ := Option.map_eq_some_iff.mp h
  obtain ⟨⟨hsuffix, hlength⟩, happend⟩ := tagEnd?_append_right hend
  have hname := List.dropWhile_suffix (l := t) fun c => !isSpace c && c ≠ '/' && c ≠ '>'
  cases hpair
  refine ⟨⟨hsuffix.trans hname, Nat.lt_of_lt_of_le hlength hname.length_le⟩, fun u => ?_⟩
  obtain ⟨htake, hdrop⟩ := while_append (ne_nil_of_tagEnd? hend) u
  rw [htake, hdrop, happend u]
  rfl

/-! Markup -/

theorem declaration_eq_nothing (t : Text) : (declaration false t).1 = .nothing := by
  unfold declaration
  split <;> rfl

theorem markup?_opens {c : Char} (h : c.isAlpha = true) (t : Text) :
    markup? false ('<' :: c :: t) =
      some (((tag? (c :: t)).map fun (tag, rest) => (Token.opens tag, rest)).getD (.nothing, [])) := by
  have hne {d : Char} (hd : d.isAlpha = false) : c ≠ d := by
    rintro rfl
    rw [h] at hd
    cases hd
  unfold markup?
  split
  · rename_i heq
    exact absurd (List.cons.inj (List.cons.inj heq).2).1 (hne (by decide))
  · rename_i heq
    exact absurd (List.cons.inj (List.cons.inj heq).2).1 (hne (by decide))
  · rename_i heq
    exact absurd (List.cons.inj (List.cons.inj heq).2).1 (hne (by decide))
  · rename_i heq
    obtain ⟨rfl, rfl⟩ := List.cons.inj (List.cons.inj heq).2
    rw [if_pos h]
    cases tag? (c :: t) <;> rfl
  · rename_i hnone
    exact absurd rfl (hnone c t)

theorem markup?_closes {c : Char} (h : c.isAlpha = true) (t : Text) :
    markup? false ('<' :: '/' :: c :: t) =
      some (((tag? (c :: t)).map fun (tag, rest) => (Token.closes tag.name, rest)).getD (.nothing, [])) := by
  simp only [markup?, if_pos h]
  cases tag? (c :: t) <;> rfl

theorem isMarkup_eq (c : Char) (t : Text) :
    isMarkup ('<' :: c :: t) = (c == '/' && !t.isEmpty || (c == '!' || c == '?' || c.isAlpha)) := by
  by_cases hslash : c = '/'
  · subst hslash
    cases t <;> rfl
  · rw [beq_false_of_ne hslash, Bool.false_and, Bool.false_or]
    unfold isMarkup
    split
    · rename_i heq
      exact absurd (List.cons.inj (List.cons.inj heq).2).1 hslash
    · rename_i heq
      rw [(List.cons.inj (List.cons.inj heq).2).1]
    · rename_i hnone
      exact absurd rfl (hnone c t)

/-- Markup is found where it begins. -/
theorem markup?_eq_none_iff (t : Text) : markup? false t = none ↔ isMarkup t = false := by
  rcases t with _ | ⟨c, t⟩
  · exact iff_of_true rfl rfl
  by_cases hc : c = '<'
  · subst hc
    rcases t with _ | ⟨d, t⟩
    · exact iff_of_true rfl rfl
    unfold markup? isMarkup
    split <;> split <;> simp_all
    all_goals split <;> simp
  · have hnone : markup? false (c :: t) = none := by
      unfold markup?
      split <;> first | rfl | (rename_i heq; exact absurd (List.cons.inj heq).1 hc)
    exact iff_of_true hnone (isMarkup_cons hc t)

/-- A tag that ends is read the same whatever follows it. -/
theorem markup?_append_right {t rest : Text} {token : Token} (h : markup? false t = some (token, rest))
    (hnothing : token ≠ .nothing) :
    (rest <:+ t ∧ rest.length < t.length) ∧ ∀ u, markup? false (t ++ u) = some (token, rest ++ u) := by
  unfold markup? at h
  split at h
  · rename_i t
    have htoken := congrArg Prod.fst (Option.some.inj h)
    rw [declaration_eq_nothing] at htoken
    exact absurd htoken.symm hnothing
  · cases h
    exact absurd rfl hnothing
  · rename_i c t
    split at h
    · rename_i halpha
      split at h
      · rename_i tag after htag
        cases h
        obtain ⟨⟨hsuffix, hlength⟩, happend⟩ := tag?_append_right htag
        refine ⟨⟨hsuffix.trans ((List.suffix_cons _ _).trans (List.suffix_cons _ _)), ?_⟩, fun u => ?_⟩
        · simp only [List.length_cons] at hlength ⊢
          omega
        · have happend := happend u
          rw [List.cons_append] at happend
          rw [List.cons_append, List.cons_append, List.cons_append, markup?_closes halpha, happend]
          rfl
      · cases h
        exact absurd rfl hnothing
    · cases h
      exact absurd rfl hnothing
  · rename_i c t _ _ _
    split at h
    · rename_i halpha
      split at h
      · rename_i tag after htag
        cases h
        obtain ⟨⟨hsuffix, hlength⟩, happend⟩ := tag?_append_right htag
        refine ⟨⟨hsuffix.trans (List.suffix_cons _ _), Nat.lt_succ_of_lt hlength⟩, fun u => ?_⟩
        have happend := happend u
        rw [List.cons_append] at happend
        rw [List.cons_append, List.cons_append, markup?_opens halpha, happend]
        rfl
      · cases h
        exact absurd rfl hnothing
    · cases h
  · cases h

theorem not_text_of_markup? {t rest : Text} {token : Token} (h : markup? false t = some (token, rest)) (s : Text) :
    token ≠ .text s := by
  rintro rfl
  unfold markup? at h
  split at h
  · rename_i t
    have htoken := congrArg Prod.fst (Option.some.inj h)
    rw [declaration_eq_nothing] at htoken
    cases htoken
  · cases h
  · split at h
    · split at h <;> cases h
    · cases h
  · split at h
    · split at h <;> cases h
    · cases h
  · cases h

/-! Texts -/

theorem exists_eq_cons_of_isMarkup {t : Text} (h : isMarkup t = true) : ∃ c rest, t = '<' :: c :: rest := by
  unfold isMarkup at h
  split at h
  · exact ⟨_, _, rfl⟩
  · exact ⟨_, _, rfl⟩
  · cases h

/-- Whether markup begins is seen from the text itself, unless it ends where an end tag begins. -/
theorem isMarkup_append {c : Char} {t u : Text} (hend : ¬"</" <:+ (c :: t)) (hu : isMarkup u = true) :
    isMarkup (c :: t ++ u) = isMarkup (c :: t) := by
  by_cases hc : c = '<'
  · subst hc
    rcases t with _ | ⟨d, _ | ⟨e, t⟩⟩
    · obtain ⟨d, rest, rfl⟩ := exists_eq_cons_of_isMarkup hu
      rfl
    · have hslash : d ≠ '/' := by
        rintro rfl
        exact hend (List.suffix_refl _)
      have hslash := beq_false_of_ne hslash
      rw [List.cons_append, List.cons_append, isMarkup_eq, isMarkup_eq, hslash, Bool.false_and, Bool.false_and]
    · rw [List.cons_append, List.cons_append, isMarkup_eq, isMarkup_eq]
      rfl
  · rw [List.cons_append, isMarkup_cons hc, isMarkup_cons hc]

/-- Some text is passed over where no markup begins. -/
theorem untilMarkup_spec {t raw rest : Text} (h : untilMarkup t = (raw, rest)) :
    t = raw ++ rest ∧ (isMarkup t = false → t ≠ [] → raw ≠ []) := by
  induction t generalizing raw with
  | nil =>
      cases h
      exact ⟨rfl, fun _ hne => absurd rfl hne⟩
  | cons c t ih =>
      rw [untilMarkup] at h
      split at h
      · rename_i hmarkup
        cases h
        exact ⟨rfl, fun hnone => absurd (hmarkup.symm.trans hnone) (by decide)⟩
      · cases h
        exact ⟨congrArg (c :: ·) (ih rfl).1, fun _ _ => List.cons_ne_nil _ _⟩

theorem untilMarkup_append_right {t raw rest u : Text} (h : untilMarkup t = (raw, rest)) (hend : ¬"</" <:+ t)
    (hu : isMarkup u = true) : untilMarkup (t ++ u) = (raw, rest ++ u) := by
  induction t generalizing raw with
  | nil =>
      cases h
      exact untilMarkup_append (t := []) List.not_mem_nil (.inr hu)
  | cons c t ih =>
      rw [List.cons_append, untilMarkup, ← List.cons_append, isMarkup_append hend hu]
      rw [untilMarkup] at h
      split at h
      · rename_i hmarkup
        cases h
        rw [if_pos hmarkup]
      · rename_i hmarkup
        cases h
        rw [if_neg hmarkup, ih rfl fun hsuffix => hend (hsuffix.trans (List.suffix_cons c t))]

/-! Tokens -/

theorem tokens_nil : tokens [] = [] := by
  rw [tokens]
  rfl

/-- Where markup begins, it is the first token. -/
theorem tokens_of_markup? {t rest : Text} {token : Token} (h : markup? false t = some (token, rest))
    (hlength : rest.length < t.length) : tokens t = token :: tokens rest := by
  have hne : t ≠ [] := by
    rintro rfl
    cases h
  refine tokens_of_token? ?_ hlength
  rw [token?, if_neg hne, h]

/-- Elsewhere the first token is the text up to the next markup. -/
theorem tokens_of_untilMarkup {t raw rest : Text} (hne : t ≠ []) (hmarkup : isMarkup t = false)
    (h : untilMarkup t = (raw, rest)) : tokens t = .text (resolve false raw) :: tokens rest := by
  obtain ⟨heq, hraw⟩ := untilMarkup_spec h
  have hpositive := List.length_pos_iff.mpr (hraw hmarkup hne)
  refine tokens_of_token? ?_ (by rw [heq, List.length_append]; omega)
  rw [token?, if_neg hne, (markup?_eq_none_iff t).mpr hmarkup, h]

theorem mem_tokens_of_markup? {t rest : Text} {token : Token} (h : markup? false t = some (token, rest)) :
    token ∈ tokens t := by
  have hne : t ≠ [] := by
    rintro rfl
    cases h
  rw [tokens, token?, if_neg hne, h]
  dsimp only
  split <;> exact List.mem_cons_self

/-- A text with nothing left open is read on its own, whatever markup follows it. -/
theorem tokens_append {t u : Text} (hnothing : .nothing ∉ tokens t) (hend : ¬"</" <:+ t) (hu : isMarkup u = true) :
    tokens (t ++ u) = tokens t ++ tokens u := by
  induction hlength : t.length using Nat.strongRecOn generalizing t with
  | ind length ih =>
      cases t with
      | nil => rw [tokens_nil, List.nil_append, List.nil_append]
      | cons c t =>
          cases hmarkup : markup? false (c :: t) with
          | some found =>
              obtain ⟨token, rest⟩ := found
              have htoken : token ≠ .nothing := by
                rintro rfl
                exact hnothing (mem_tokens_of_markup? hmarkup)
              obtain ⟨⟨hsuffix, hless⟩, happend⟩ := markup?_append_right hmarkup htoken
              have htokens := tokens_of_markup? hmarkup hless
              rw [htokens] at hnothing
              have hrest := ih rest.length (hlength ▸ hless) (fun hmem => hnothing (List.mem_cons_of_mem _ hmem))
                (fun h => hend (h.trans hsuffix)) rfl
              rw [tokens_of_markup? (happend u) (by simp only [List.length_append]; omega), htokens, hrest,
                List.cons_append]
          | none =>
              have hmarkup := (markup?_eq_none_iff _).mp hmarkup
              have hmarkup' := (isMarkup_append hend hu).trans hmarkup
              rcases huntil : untilMarkup (c :: t) with ⟨raw, rest⟩
              obtain ⟨heq, hraw⟩ := untilMarkup_spec huntil
              have hpositive := List.length_pos_iff.mpr (hraw hmarkup (List.cons_ne_nil c t))
              have htokens := tokens_of_untilMarkup (List.cons_ne_nil c t) hmarkup huntil
              rw [htokens] at hnothing
              have hless : rest.length < (c :: t).length := by
                rw [heq, List.length_append]
                omega
              have hrest := ih rest.length (hlength ▸ hless) (fun hmem => hnothing (List.mem_cons_of_mem _ hmem))
                (fun h => hend (h.trans (heq ▸ List.suffix_append raw rest))) rfl
              have happend := tokens_of_untilMarkup (by simp) hmarkup' (untilMarkup_append_right huntil hend hu)
              rw [happend, htokens, hrest, List.cons_append]

/-- Where markup begins, the first token is no text. -/
theorem tokens_ne_text {t : Text} (h : isMarkup t = true) (s : Text) (more : List Token) :
    tokens t ≠ .text s :: more := by
  intro htokens
  have hsome : markup? false t ≠ none := by
    rw [ne_eq, markup?_eq_none_iff, h]
    decide
  obtain ⟨⟨token, rest⟩, hfound⟩ := Option.ne_none_iff_exists'.mp hsome
  have hne : t ≠ [] := by
    rintro rfl
    cases h
  have hfirst : (tokens t).head? = some token := by
    rw [tokens, token?, if_neg hne, hfound]
    dsimp only
    split <;> rfl
  rw [htokens, List.head?_cons, Option.some.injEq] at hfirst
  exact not_text_of_markup? hfound s hfirst.symm

/-- What is no angle bracket is text, together with the text that follows it. -/
theorem tokens_cons {c : Char} (hc : c ≠ '<') (t : Text) :
    ∃ raw rest, tokens (c :: t) = .text (resolve false (c :: raw)) :: tokens rest ∧
      (tokens t = .text (resolve false raw) :: tokens rest ∨
        raw = [] ∧ rest = t ∧ ∀ s more, tokens t ≠ .text s :: more) := by
  have huntil : untilMarkup (c :: t) = (c :: (untilMarkup t).1, (untilMarkup t).2) := by
    rw [untilMarkup, isMarkup_cons hc, if_neg Bool.false_ne_true]
  refine ⟨(untilMarkup t).1, (untilMarkup t).2,
    tokens_of_untilMarkup (List.cons_ne_nil c t) (isMarkup_cons hc t) huntil, ?_⟩
  cases t with
  | nil =>
      right
      refine ⟨rfl, rfl, fun s more h => ?_⟩
      rw [tokens_nil] at h
      cases h
  | cons d t =>
      cases hmarkup : isMarkup (d :: t) with
      | false => exact .inl (tokens_of_untilMarkup (List.cons_ne_nil d t) hmarkup rfl)
      | true =>
          right
          rw [untilMarkup, if_pos hmarkup]
          exact ⟨rfl, rfl, tokens_ne_text hmarkup⟩

/-- Some tokens with a text in front of them. -/
def afterText (t : Text) : List Token → List Token
  | .text s :: rest => .text (t ++ s) :: rest
  | l => if t = [] then l else .text t :: l

theorem afterText_nil (l : List Token) : afterText [] l = l := by
  cases l with
  | nil => rfl
  | cons token l => cases token <;> rfl

theorem afterText_cons (c : Char) (t : Text) (l : List Token) :
    afterText (c :: t) l = afterText [c] (afterText t l) := by
  cases l with
  | nil => cases t <;> rfl
  | cons token l => cases token <;> cases t <;> rfl

theorem tokens_append_of_plain {s : Text} (hs : s.any isSpecial = false) (t : Text) :
    tokens (s ++ t) = afterText s (tokens t) := by
  induction s with
  | nil => exact (afterText_nil _).symm
  | cons c s ih =>
      rw [List.any_cons, Bool.or_eq_false_iff] at hs
      have hc {d : Char} (hd : isSpecial d = true) : c ≠ d := by
        rintro rfl
        rw [hd] at hs
        cases hs.1
      obtain ⟨raw, rest, htokens, hcases⟩ := tokens_cons (hc (d := '<') (by decide)) (s ++ t)
      rw [afterText_cons, ← ih hs.2, List.cons_append, htokens, resolve_cons false (hc (d := '&') (by decide))]
      rcases hcases with hsame | ⟨rfl, rfl, hnone⟩
      · rw [hsame]
        rfl
      · rw [resolve]
        generalize tokens (s ++ t) = l at hnone
        cases l with
        | nil => rfl
        | cons token l =>
            cases token with
            | text u => exact absurd rfl (hnone u l)
            | _ => rfl

theorem mem_tokens_append {s : Text} (hs : '<' ∉ s) {t : Text} {token : Token} (h : token ∈ tokens (s ++ t)) :
    (∃ u, token = .text u) ∨ token ∈ tokens t := by
  induction s with
  | nil => exact .inr h
  | cons c s ih =>
      obtain ⟨hc, hs⟩ : '<' ≠ c ∧ '<' ∉ s := by simpa using hs
      obtain ⟨raw, rest, htokens, hcases⟩ := tokens_cons hc.symm (s ++ t)
      rw [List.cons_append, htokens] at h
      obtain rfl | h := List.mem_cons.mp h
      · exact .inl ⟨_, rfl⟩
      · rcases hcases with hsame | ⟨-, rfl, -⟩
        · exact ih hs (hsame ▸ List.mem_cons_of_mem _ h)
        · exact ih hs h

end Manuscript.Html
