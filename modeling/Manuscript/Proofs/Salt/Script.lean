import Manuscript.Proofs.Cache.Calls
import Manuscript.Proofs.Text.Lines

/-!
Scripts: texts with calls in the places of their tokens.  A script becomes a text by a salt.

Main statements: what looks for no hexadecimal digit, such as trimming, cutting and splitting, does the same to the
texts of a script by any salt (`exists_span`, `cut?_text`, `exists_splitOnP`).
-/

namespace Manuscript

/-- A character, or the call whose token is written. -/
inductive Sign where
  | character (c : Char)
  | token (call : Call)

/-- What is written for a sign. -/
def Sign.text (salt : Text) : Sign → Text
  | .character c => [c]
  | .token call => call.token salt

/-- A text with calls in the places of their tokens. -/
abbrev Script := List Sign

namespace Script

/-- The text of a script by a salt. -/
def text (salt : Text) (m : Script) : Text := m.flatMap (Sign.text salt)

/-- The script of a text without tokens. -/
def plain (t : Text) : Script := t.map .character

variable {m : Script} {salt : Text} {call : Call}

@[simp] theorem text_nil (salt : Text) : text salt [] = [] := rfl

@[simp] theorem text_character (salt : Text) (c : Char) (m : Script) :
    text salt (.character c :: m) = c :: text salt m := rfl

@[simp] theorem text_token (salt : Text) (call : Call) (m : Script) :
    text salt (.token call :: m) = call.token salt ++ text salt m := rfl

@[simp] theorem text_append (salt : Text) (l m : Script) : text salt (l ++ m) = text salt l ++ text salt m :=
  List.flatMap_append

theorem text_flatten (salt : Text) (ms : List Script) : text salt ms.flatten = (ms.map (text salt)).flatten := by
  induction ms with
  | nil => rfl
  | cons m ms ih => rw [List.flatten_cons, text_append, ih, List.map_cons, List.flatten_cons]

@[simp] theorem text_plain (salt t : Text) : text salt (plain t) = t := by
  induction t with
  | nil => rfl
  | cons c t ih => exact congrArg (c :: ·) ih

theorem mem_hexDigits_of_mem_token {c : Char} (h : c ∈ call.token salt) : c ∈ hexDigits :=
  mem_hexDigits_of_mem_digest h

theorem length_token (salt : Text) (call : Call) : (call.token salt).length = 40 :=
  length_digest _

theorem exists_token_eq_cons (salt : Text) (call : Call) :
    ∃ c t, call.token salt = c :: t ∧ c ∈ hexDigits := by
  obtain ⟨c, t, heq⟩ := List.exists_cons_of_ne_nil (call.token_ne_nil salt)
  exact ⟨c, t, heq, mem_hexDigits_of_mem_token (heq ▸ List.mem_cons_self)⟩

theorem exists_token_eq_concat (salt : Text) (call : Call) :
    ∃ t c, call.token salt = t ++ [c] ∧ c ∈ hexDigits := by
  obtain heq | ⟨t, c, heq⟩ := List.eq_nil_or_concat' (call.token salt)
  · exact absurd heq (call.token_ne_nil salt)
  · have hmem : c ∈ call.token salt := by
      rw [heq]
      exact List.mem_concat_self
    exact ⟨t, c, heq, mem_hexDigits_of_mem_token hmem⟩

theorem text_eq_nil_iff : text salt m = [] ↔ m = [] := by
  cases m with
  | nil => exact iff_of_true rfl rfl
  | cons sign m =>
      refine iff_of_false ?_ (List.cons_ne_nil _ _)
      cases sign with
      | character c => exact List.cons_ne_nil _ _
      | token call => exact fun h => call.token_ne_nil salt (List.append_eq_nil_iff.mp h).1

/-- All tokens have the same length. -/
theorem length_text_eq (m : Script) (salt salt' : Text) : (text salt m).length = (text salt' m).length := by
  induction m with
  | nil => rfl
  | cons sign m ih =>
      cases sign with
      | character c => simp [ih]
      | token call => simp [ih, length_token]

theorem text_eq_of_forall_notMem (h : ∀ call, .token call ∉ m) (salt salt' : Text) : text salt m = text salt' m := by
  refine List.flatMap_congr fun sign hsign => ?_
  cases sign with
  | character c => rfl
  | token call => exact absurd hsign (h call)

/-- A text that is shorter than a token holds none. -/
theorem eq_plain_of_length_lt (h : (text salt m).length < 40) : m = plain (text salt m) := by
  induction m with
  | nil => rfl
  | cons sign m ih =>
      cases sign with
      | character c => exact congrArg (.character c :: ·) (ih (Nat.lt_of_succ_lt h))
      | token call =>
          rw [text_token, List.length_append, length_token] at h
          omega

section Predicates

variable {p : Char → Bool} {value : Bool}

/-- What holds of all hexadecimal digits, or of none, ends at the same sign by every salt. -/
theorem exists_span (hp : ∀ c ∈ hexDigits, p c = value) (m : Script) :
    ∃ l r, m = l ++ r ∧ ∀ salt, (text salt m).takeWhile p = text salt l ∧ (text salt m).dropWhile p = text salt r := by
  induction m with
  | nil => exact ⟨[], [], rfl, fun salt => ⟨rfl, rfl⟩⟩
  | cons sign m ih =>
      obtain ⟨l, r, rfl, hspan⟩ := ih
      cases sign with
      | character c =>
          by_cases hc : p c = true
          · refine ⟨.character c :: l, r, rfl, fun salt => ?_⟩
            rw [text_character, List.takeWhile_cons_of_pos hc, List.dropWhile_cons_of_pos hc, (hspan salt).1,
              (hspan salt).2]
            exact ⟨rfl, rfl⟩
          · refine ⟨[], .character c :: (l ++ r), rfl, fun salt => ?_⟩
            rw [text_character, List.takeWhile_cons_of_neg hc, List.dropWhile_cons_of_neg hc]
            exact ⟨rfl, rfl⟩
      | token call =>
          cases value with
          | true =>
              refine ⟨.token call :: l, r, rfl, fun salt => ?_⟩
              have htoken : ∀ c ∈ call.token salt, p c = true := fun c hc => hp c (mem_hexDigits_of_mem_token hc)
              rw [text_token, List.takeWhile_append_of_pos htoken, List.dropWhile_append_of_pos htoken, (hspan salt).1,
                (hspan salt).2]
              exact ⟨rfl, rfl⟩
          | false =>
              refine ⟨[], .token call :: (l ++ r), rfl, fun salt => ?_⟩
              obtain ⟨c, t, heq, hc⟩ := exists_token_eq_cons salt call
              have hc := Bool.eq_false_iff.mp (hp c hc)
              rw [text_token, heq, List.cons_append, List.takeWhile_cons_of_neg hc, List.dropWhile_cons_of_neg hc]
              exact ⟨rfl, rfl⟩

theorem all_text_eq (hp : ∀ c ∈ hexDigits, p c = value) (m : Script) (salt salt' : Text) :
    (text salt m).all p = (text salt' m).all p := by
  induction m with
  | nil => rfl
  | cons sign m ih =>
      cases sign with
      | character c => rw [text_character, text_character, List.all_cons, List.all_cons, ih]
      | token call =>
          have htoken : ∀ salt, (call.token salt).all p = value := by
            intro salt
            obtain ⟨c, t, heq, hc⟩ := exists_token_eq_cons salt call
            cases value with
            | true => exact List.all_eq_true.mpr fun c hc => hp c (mem_hexDigits_of_mem_token hc)
            | false => rw [heq, List.all_cons, hp c hc, Bool.false_and]
          rw [text_token, text_token, List.all_append, List.all_append, ih, htoken, htoken]

theorem getLast?_any_eq (hp : ∀ c ∈ hexDigits, p c = value) (m : Script) (salt salt' : Text) :
    (text salt m).getLast?.any p = (text salt' m).getLast?.any p := by
  induction m using List.reverseRecOn with
  | nil => rfl
  | append_singleton m sign =>
      cases sign with
      | character c => simp
      | token call =>
          obtain ⟨t, c, heq, hc⟩ := exists_token_eq_concat salt call
          obtain ⟨t', c', heq', hc'⟩ := exists_token_eq_concat salt' call
          simp [heq, heq', hp c hc, hp c' hc']

/-- What holds of no hexadecimal digit is taken off the end of the text by every salt alike. -/
theorem exists_trimEndWhere (hp : ∀ c ∈ hexDigits, p c = false) (m : Script) :
    ∃ l r, m = l ++ r ∧ ∀ salt, Text.trimEndWhere p (text salt m) = text salt l := by
  have hconcat (t : Text) (c : Char) :
      Text.trimEndWhere p (t ++ [c]) = if p c then Text.trimEndWhere p t else t ++ [c] :=
    List.rdropWhile_concat p t c
  induction m using List.reverseRecOn with
  | nil => exact ⟨[], [], rfl, fun salt => rfl⟩
  | append_singleton m sign ih =>
      obtain ⟨l, r, rfl, htrim⟩ := ih
      cases sign with
      | character c =>
          by_cases hc : p c = true
          · refine ⟨l, r ++ [.character c], by simp, fun salt => ?_⟩
            rw [text_append, text_character, text_nil, hconcat, if_pos hc]
            exact htrim salt
          · refine ⟨l ++ r ++ [.character c], [], by simp, fun salt => ?_⟩
            rw [text_append _ _ [_], text_character, text_nil, hconcat, if_neg hc]
      | token call =>
          refine ⟨l ++ r ++ [.token call], [], by simp, fun salt => ?_⟩
          obtain ⟨t, c, heq, hc⟩ := exists_token_eq_concat salt call
          rw [text_append _ _ [_], text_token, text_nil, List.append_nil, heq, ← List.append_assoc, hconcat,
            if_neg (by simp [hp c hc])]

/-- What holds of no hexadecimal digit splits the text by every salt alike. -/
theorem exists_splitOnP (hp : ∀ c ∈ hexDigits, p c = false) (m : Script) :
    ∃ pieces : List Script, (∀ piece ∈ pieces, piece <:+: m) ∧
      ∀ salt, (text salt m).splitOnP p = pieces.map (text salt) := by
  -- The first piece is a prefix, so that a sign in front of the script goes on with it.
  suffices hpieces : ∃ (first : Script) (rest : List Script), first <+: m ∧ (∀ piece ∈ rest, piece <:+: m) ∧
      ∀ salt, (text salt m).splitOnP p = text salt first :: rest.map (text salt) by
    obtain ⟨first, rest, hfirst, hrest, hsplit⟩ := hpieces
    exact ⟨first :: rest, List.forall_mem_cons.mpr ⟨hfirst.isInfix, hrest⟩, hsplit⟩
  have hlead {u t : Text} (hu : ∀ c ∈ u, p c = false) : (u ++ t).splitOnP p = (t.splitOnP p).modifyHead (u ++ ·) := by
    induction u with
    | nil => exact (congrFun List.modifyHead_id _).symm
    | cons c u ih =>
        obtain ⟨hc, hu⟩ := List.forall_mem_cons.mp hu
        rw [List.cons_append, List.splitOnP_cons_eq_if_modifyHead, if_neg (by simp [hc]), ih hu,
          List.modifyHead_modifyHead]
        rfl
  induction m with
  | nil =>
      refine ⟨[], [], List.prefix_rfl, List.forall_mem_nil _, fun salt => ?_⟩
      rw [text_nil, List.splitOnP_nil, List.map_nil]
  | cons sign m ih =>
      obtain ⟨first, rest, hfirst, hrest, hsplit⟩ := ih
      have hlater : ∀ piece ∈ rest, piece <:+: sign :: m := fun piece hpiece =>
        (hrest piece hpiece).trans (List.suffix_cons sign m).isInfix
      have hfirst' : sign :: first <+: sign :: m := (List.prefix_cons_inj sign).mpr hfirst
      cases sign with
      | character c =>
          by_cases hc : p c = true
          · refine ⟨[], first :: rest, List.nil_prefix, ?_, fun salt => ?_⟩
            · exact List.forall_mem_cons.mpr ⟨hfirst.isInfix.trans (List.suffix_cons _ m).isInfix, hlater⟩
            · rw [text_character, List.splitOnP_cons_eq_if_modifyHead, if_pos hc, hsplit]
              rfl
          · refine ⟨.character c :: first, rest, hfirst', hlater, fun salt => ?_⟩
            rw [text_character, List.splitOnP_cons_eq_if_modifyHead, if_neg hc, hsplit]
            rfl
      | token call =>
          refine ⟨.token call :: first, rest, hfirst', hlater, fun salt => ?_⟩
          rw [text_token, hlead fun c hc => hp c (mem_hexDigits_of_mem_token hc), hsplit]
          rfl

end Predicates

section Wordings

/-- A wording that is no longer than a token and does not end in a hexadecimal digit begins the texts by all salts or
none. -/
theorem after?_text {lead : Text} (hlength : lead.length ≤ 40) (hlast : ∀ c ∈ lead.getLast?, c ∉ hexDigits)
    (m : Script) : (∀ salt, Text.after? lead (text salt m) = none) ∨
      ∃ l r, m = l ++ r ∧ ∀ salt, Text.after? lead (text salt m) = some (text salt r) := by
  induction lead generalizing m with
  | nil => exact .inr ⟨[], m, rfl, fun salt => rfl⟩
  | cons c lead ih =>
      cases m with
      | nil => exact .inl fun salt => rfl
      | cons sign m =>
          cases sign with
          | character d =>
              by_cases heq : c = d
              · have hlast' : ∀ c ∈ lead.getLast?, c ∉ hexDigits := by
                  intro e he
                  refine hlast e ?_
                  rw [List.getLast?_cons, Option.mem_def.mp he]
                  rfl
                obtain hnone | ⟨l, r, rfl, hsome⟩ := ih (Nat.le_of_succ_le hlength) hlast' m
                · exact .inl fun salt => by rw [text_character, Text.after?, if_pos heq, hnone]
                · refine .inr ⟨.character d :: l, r, rfl, fun salt => ?_⟩
                  rw [text_character, Text.after?, if_pos heq, hsome]
              · exact .inl fun salt => by rw [text_character, Text.after?, if_neg heq]
          | token call =>
              -- The end of the wording would lie inside the token.
              refine .inl fun salt => Option.eq_none_iff_forall_ne_some.mpr fun rest hafter => ?_
              have hsplit := Text.eq_append_of_after? hafter
              have hstart : c :: lead <+: call.token salt := by
                refine List.prefix_of_prefix_length_le ⟨rest, hsplit.symm⟩ (List.prefix_append _ _) ?_
                rwa [length_token]
              have hmem : (c :: lead).getLast (List.cons_ne_nil c lead) ∈ c :: lead := List.getLast_mem _
              exact hlast _ (List.getLast?_eq_some_getLast _) (mem_hexDigits_of_mem_token (hstart.subset hmem))

theorem startsWith_text_eq {lead : Text} (hlength : lead.length ≤ 40) (hlast : ∀ c ∈ lead.getLast?, c ∉ hexDigits)
    (m : Script) (salt salt' : Text) :
    Text.startsWith lead (text salt m) = Text.startsWith lead (text salt' m) := by
  unfold Text.startsWith
  obtain hnone | ⟨l, r, rfl, hsome⟩ := after?_text hlength hlast m
  · rw [hnone, hnone]
  · rw [hsome, hsome]
    rfl

/-- A mark without hexadecimal digits stands at the same place by every salt. -/
theorem cut?_text {mark : Text} (hne : mark ≠ []) (hlength : mark.length ≤ 40) (hmark : ∀ c ∈ mark, c ∉ hexDigits)
    (m : Script) : (∀ salt, Text.cut? mark (text salt m) = none) ∨
      ∃ l between r, m = l ++ between ++ r ∧
        ∀ salt, Text.cut? mark (text salt m) = some (text salt l, text salt r) := by
  have hlast : ∀ c ∈ mark.getLast?, c ∉ hexDigits := fun c hc => hmark c (List.mem_of_getLast? hc)
  have hlead {u t : Text} (hu : ∀ c ∈ u, c ∈ hexDigits) :
      Text.cut? mark (u ++ t) = (Text.cut? mark t).map fun cut => (u ++ cut.1, cut.2) := by
    obtain ⟨first, mark, rfl⟩ := List.exists_cons_of_ne_nil hne
    induction u with
    | nil => simp
    | cons c u ih =>
        obtain ⟨hc, hu⟩ := List.forall_mem_cons.mp hu
        have hfirst : first ≠ c := fun heq => hmark first List.mem_cons_self (heq ▸ hc)
        rw [List.cons_append, Text.cut?, Text.after?, if_neg hfirst, ih hu, Option.map_map]
        rfl
  induction m with
  | nil =>
      refine .inl fun salt => ?_
      rw [text_nil, Text.cut?, if_neg hne]
  | cons sign m ih =>
      cases sign with
      | character c =>
          obtain hafter | ⟨l, r, hsplit, hafter⟩ := after?_text hlength hlast (.character c :: m)
          · obtain hnone | ⟨l, between, r, rfl, hcut⟩ := ih
            · refine .inl fun salt => ?_
              have hafter := hafter salt
              rw [text_character] at hafter ⊢
              rw [Text.cut?, hafter, hnone]
              rfl
            · refine .inr ⟨.character c :: l, between, r, rfl, fun salt => ?_⟩
              have hafter := hafter salt
              rw [text_character] at hafter ⊢
              rw [Text.cut?, hafter, hcut]
              rfl
          · refine .inr ⟨[], l, r, hsplit, fun salt => ?_⟩
            have hafter := hafter salt
            rw [text_character] at hafter ⊢
            rw [Text.cut?, hafter]
            rfl
      | token call =>
          obtain hnone | ⟨l, between, r, rfl, hcut⟩ := ih
          · refine .inl fun salt => ?_
            rw [text_token, hlead fun c => mem_hexDigits_of_mem_token, hnone]
            rfl
          · refine .inr ⟨.token call :: l, between, r, rfl, fun salt => ?_⟩
            rw [text_token, hlead fun c => mem_hexDigits_of_mem_token, hcut]
            rfl

/-- A character that is no hexadecimal digit ends the texts by all salts or none. -/
theorem before?_text {c : Char} (hc : c ∉ hexDigits) (m : Script) :
    (∀ salt, Text.before? [c] (text salt m) = none) ∨
      ∃ l, m = l ++ [.character c] ∧ ∀ salt, Text.before? [c] (text salt m) = some (text salt l) := by
  have hconcat (t : Text) (d : Char) : Text.before? [c] (t ++ [d]) = if c = d then some t else none := by
    by_cases heq : c = d <;> simp [Text.before?, Text.after?, heq]
  induction m using List.reverseRecOn with
  | nil => exact .inl fun salt => rfl
  | append_singleton m sign =>
      cases sign with
      | character d =>
          by_cases heq : c = d
          · subst heq
            refine .inr ⟨m, rfl, fun salt => ?_⟩
            rw [text_append, text_character, text_nil, hconcat, if_pos rfl]
          · refine .inl fun salt => ?_
            rw [text_append, text_character, text_nil, hconcat, if_neg heq]
      | token call =>
          refine .inl fun salt => ?_
          obtain ⟨t, d, heq, hd⟩ := exists_token_eq_concat salt call
          have hne : c ≠ d := fun h => hc (h ▸ hd)
          rw [text_append, text_token, text_nil, List.append_nil, heq, ← List.append_assoc, hconcat, if_neg hne]

end Wordings

end Script

end Manuscript
