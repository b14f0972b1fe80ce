import Mathlib.Algebra.Ring.Nat
import Mathlib.Data.List.Forall2
import Manuscript.Proofs.Salt.Alike
import Manuscript.Xml.Reference

/-!
Character references in texts that are written alike.

Main statements: as long as no token reads as a number, texts and attribute values are alike with their references
resolved, too (`Alike.text?`, `Alike.value?`).
-/

namespace Manuscript

namespace Xml

/-- A number to any base has at least the value of the place of a digit that is not zero. -/
theorem pow_le_foldl {base : Nat} (before after : List Nat) {digit : Nat} (hdigit : 0 < digit) :
    base ^ after.length ≤ (before ++ digit :: after).foldl (fun n d => n * base + d) 0 := by
  have hshift (n : Nat) (values : List Nat) : n * base ^ values.length ≤ values.foldl (fun n d => n * base + d) n := by
    induction values generalizing n with
    | nil => simp
    | cons d values ih =>
        calc
          n * base ^ (d :: values).length = n * base * base ^ values.length := by
            rw [List.length_cons, Nat.pow_succ, Nat.mul_comm (base ^ _), Nat.mul_assoc]
          _ ≤ (n * base + d) * base ^ values.length := Nat.mul_le_mul_right _ (Nat.le_add_right _ d)
          _ ≤ _ := ih _
  rw [List.foldl_append, List.foldl_cons]
  refine Nat.le_trans ?_ (hshift _ after)
  exact Nat.le_mul_of_pos_left _ (by omega)

theorem forall₂_of_mapM {α β : Type} {f : α → Option β} {l : List α} {values : List β} (h : l.mapM f = some values) :
    List.Forall₂ (fun b a => f a = some b) values l := by
  induction l generalizing values with
  | nil =>
      obtain rfl := by simpa using h
      exact .nil
  | cons a l ih =>
      rw [List.mapM_cons] at h
      obtain ⟨b, hb, h⟩ := Option.bind_eq_some_iff.mp h
      obtain ⟨rest, hrest, h⟩ := Option.bind_eq_some_iff.mp h
      obtain rfl := Option.some.inj h
      exact .cons hb (ih hrest)

theorem digitValue?_of_isAlpha :
    ∀ c ∈ hexDigits, c.isAlpha = true → digitValue? 10 c = none ∧ digitValue? 16 c ≠ some 0 :=
  forall_mem_hexDigits (by decide +kernel)

/-- Digits with a letter so far from their end are no number of a character. -/
theorem codePoint?_eq_none {base : Nat} (hbase : base = 10 ∨ base = 16) {before after : Text} {c : Char}
    (hc : c ∈ hexDigits) (halpha : c.isAlpha = true) (hlength : 8 ≤ after.length) :
    codePoint? base (before ++ c :: after) = none := by
  obtain ⟨hdecimal, hzero⟩ := digitValue?_of_isAlpha c hc halpha
  unfold codePoint?
  cases hvalues : (before ++ c :: after).mapM (digitValue? base) with
  | none => rfl
  | some values =>
      have hrest := List.forall₂_drop_append values before (c :: after) (forall₂_of_mapM hvalues)
      obtain ⟨digit, rest, hdigit, hrest, hdrop⟩ := List.forall₂_cons_right_iff.mp hrest
      obtain rfl | rfl := hbase
      · rw [hdecimal] at hdigit
        cases hdigit
      · have hpositive : 0 < digit := Nat.pos_of_ne_zero fun heq => hzero (heq ▸ hdigit)
        have hbound : Text.bound32 ≤ values.foldl (fun n d => n * 16 + d) 0 := by
          rw [← List.take_append_drop before.length values, hdrop]
          refine Nat.le_trans ?_ (pow_le_foldl _ rest hpositive)
          rw [hrest.length_eq]
          exact Nat.pow_le_pow_right (Nat.zero_lt_succ 15) hlength
        exact if_pos (.inr hbound)

/-- Nothing with a letter so far from its end refers to a character. -/
theorem referred?_eq_none {before after : Text} {c : Char} (hc : c ∈ hexDigits) (halpha : c.isAlpha = true)
    (hlength : 8 ≤ after.length) : referred? (before ++ c :: after) = none := by
  have hshort {word : Text} (hword : word.length ≤ 8) : before ++ c :: after ≠ word := by
    rintro rfl
    rw [List.length_append, List.length_cons] at hword
    omega
  unfold referred?
  split
  · rename_i digits heq
    match before with
    | [] =>
        obtain rfl := (List.cons.inj heq).1
        cases halpha
    | [_] =>
        obtain ⟨-, heq⟩ := List.cons.inj heq
        obtain rfl := (List.cons.inj heq).1
        exact absurd hc (by decide)
    | _ :: _ :: before =>
        obtain ⟨-, heq⟩ := List.cons.inj heq
        obtain ⟨-, rfl⟩ := List.cons.inj heq
        have hnone : codePoint? 16 (before ++ c :: after) = none := codePoint?_eq_none (.inr rfl) hc halpha hlength
        exact congrArg (fun n => (n.map characterOf).filter isCharacter) hnone
  · rename_i digits _ heq
    match before with
    | [] =>
        obtain rfl := (List.cons.inj heq).1
        cases halpha
    | _ :: before =>
        obtain ⟨-, rfl⟩ := List.cons.inj heq
        have hnone : codePoint? 10 (before ++ c :: after) = none := codePoint?_eq_none (.inl rfl) hc halpha hlength
        exact congrArg (fun n => (n.map characterOf).filter isCharacter) hnone
  · simp only [if_neg (hshort (by decide : ("quot".toList).length ≤ 8)),
      if_neg (hshort (by decide : ("apos".toList).length ≤ 8)), if_neg (hshort (by decide : ("amp".toList).length ≤ 8)),
      if_neg (hshort (by decide : ("lt".toList).length ≤ 8)), if_neg (hshort (by decide : ("gt".toList).length ≤ 8))]

theorem pieces?_ampersand (rest : Text) :
    pieces? ('&' :: rest) = (Text.cut? ";" rest).bind fun cut =>
      (referred? cut.1).bind fun c => (pieces? cut.2).map (.referred c :: ·) := by
  rw [pieces?, if_pos rfl]
  split
  · rename_i hcut
    rw [hcut]
    rfl
  · rename_i body rest' hcut
    simp only [hcut, Option.bind_some]
    cases referred? body <;> rfl

theorem pieces?_append {t : Text} (h : ∀ c ∈ t, c ≠ '&') (rest : Text) :
    pieces? (t ++ rest) = (pieces? rest).map (t.map .plain ++ ·) := by
  induction t with
  | nil => exact Option.map_id_apply.symm
  | cons c t ih =>
      obtain ⟨hc, ht⟩ := List.forall_mem_cons.mp h
      rw [List.cons_append, pieces?, if_neg hc, ih ht, Option.map_map]
      rfl

end Xml

namespace Salts

open Xml (Piece)

variable {s : Salts} {t t' : Text}

/-- No token reads as a number: there is a letter among its first thirty-two characters. -/
def HasLetters (s : Salts) : Prop :=
  ∀ m, s.permits m → ∀ call, .token call ∈ m → ∀ salt ∈ [s.first, s.second],
    ((call.token salt).take 32).any Char.isAlpha = true

namespace HasLetters

theorem exists_letter (h : s.HasLetters) {m : Script} (hm : s.permits m) {call : Call} (hcall : .token call ∈ m)
    {salt : Text} (hsalt : salt ∈ [s.first, s.second]) :
    ∃ before c after, call.token salt = before ++ c :: after ∧ c ∈ hexDigits ∧ c.isAlpha = true ∧ 8 ≤ after.length := by
  obtain ⟨c, hc, halpha⟩ := List.any_eq_true.mp (h m hm call hcall salt hsalt)
  obtain ⟨before, after, hsplit⟩ := List.append_of_mem hc
  refine ⟨before, c, after ++ (call.token salt).drop 32, ?_, ?_, halpha, ?_⟩
  · rw [← List.cons_append, ← List.append_assoc, ← hsplit, List.take_append_drop]
  · exact Script.mem_hexDigits_of_mem_token (List.mem_of_mem_take hc)
  · rw [List.length_append, List.length_drop, Script.length_token]
    omega

end HasLetters

namespace Alike

/-- What stands between an ampersand and a semicolon refers to the same character, and to none if it holds a token. -/
theorem referred?_eq (hletters : s.HasLetters) (h : s.Alike t t') : Xml.referred? t = Xml.referred? t' := by
  obtain ⟨m, hm, rfl, rfl⟩ := h
  by_cases htoken : ∃ call, .token call ∈ m
  · obtain ⟨call, hcall⟩ := htoken
    have hnone : ∀ salt ∈ [s.first, s.second], Xml.referred? (Script.text salt m) = none := by
      intro salt hsalt
      obtain ⟨before, c, after, hletter, hc, halpha, hlength⟩ := hletters.exists_letter hm hcall hsalt
      obtain ⟨l, r, rfl⟩ := List.append_of_mem hcall
      have hsplit : Script.text salt (l ++ .token call :: r) =
          (Script.text salt l ++ before) ++ c :: (after ++ Script.text salt r) := by
        simp [hletter]
      rw [hsplit]
      exact Xml.referred?_eq_none hc halpha (by rw [List.length_append]; omega)
    rw [hnone _ (by simp), hnone _ (by simp)]
  · rw [Script.text_eq_of_forall_notMem fun call hcall => htoken ⟨call, hcall⟩]

end Alike

/-- The pieces of texts that are written alike. -/
inductive PiecesAlike (s : Salts) : List Piece → List Piece → Prop
  | nil : PiecesAlike s [] []
  | same (p : Piece) {ps ps' : List Piece} (rest : PiecesAlike s ps ps') : PiecesAlike s (p :: ps) (p :: ps')
  | token {call : Call} (hcall : s.permits [.token call]) {ps ps' : List Piece} (rest : PiecesAlike s ps ps') :
      PiecesAlike s ((call.token s.first).map .plain ++ ps) ((call.token s.second).map .plain ++ ps')

namespace Alike

theorem pieces? (hletters : s.HasLetters) (h : s.Alike t t') :
    Option.Rel s.PiecesAlike (Xml.pieces? t) (Xml.pieces? t') := by
  induction hn : t.length using Nat.strong_induction_on generalizing t t' with
  | h n ih =>
      subst hn
      obtain ⟨m, hm, rfl, rfl⟩ := h
      match m with
      | [] =>
          simp only [Script.text_nil, Xml.pieces?]
          exact .some .nil
      | .character c :: m =>
          have hrest : s.Alike (Script.text s.first m) (Script.text s.second m) :=
            of_part hm (List.suffix_cons _ m).isInfix rfl rfl
          rw [Script.text_character, Script.text_character] at *
          by_cases hc : c = '&'
          · subst hc
            rw [Xml.pieces?_ampersand, Xml.pieces?_ampersand]
            refine rel_bind (hrest.cut? ";" (by decide) (by decide) (by decide)) fun cut cut' heq _ hcut => ?_
            have hshorter : cut.2.length < ('&' :: Script.text s.first m).length :=
              (Text.length_lt_of_cut? (by decide) heq).trans (Nat.lt_succ_self _)
            rw [hcut.1.referred?_eq hletters]
            cases Xml.referred? cut'.1 with
            | none => exact .none
            | some c => exact rel_map (ih _ hshorter hcut.2 rfl) fun _ _ => .same (.referred c)
          · have hpieces := ih _ (Nat.lt_succ_self _) hrest rfl
            rw [Xml.pieces?, Xml.pieces?, if_neg hc, if_neg hc]
            exact rel_map hpieces fun _ _ => .same (.plain c)
      | .token call :: m =>
          have hcall : s.permits [.token call] := s.permits_of_part hm (List.prefix_append [.token call] m).isInfix
          have hrest : s.Alike (Script.text s.first m) (Script.text s.second m) :=
            of_part hm (List.suffix_cons _ m).isInfix rfl rfl
          have hampersand (salt : Text) : ∀ c ∈ call.token salt, c ≠ '&' := by
            rintro c hc rfl
            exact absurd (Script.mem_hexDigits_of_mem_token hc) (by decide)
          have hshorter : (Script.text s.first m).length < (Script.text s.first (.token call :: m)).length := by
            rw [Script.text_token, List.length_append, Script.length_token]
            omega
          have hpieces := ih _ hshorter hrest rfl
          rw [Script.text_token, Script.text_token, Xml.pieces?_append (hampersand _),
            Xml.pieces?_append (hampersand _)]
          exact rel_map hpieces fun _ _ => .token hcall

end Alike

section Joining

open Xml

variable {ps ps' : List Piece}

/-- A carriage return at the end of a text that is held backwards becomes a line feed when a character follows. -/
def settle : Text → Text
  | '\r' :: before => '\n' :: before
  | backwards => backwards

theorem pushLine_of_mem_hexDigits {c : Char} (hc : c ∈ hexDigits) (backwards : Text) (isLast : Bool) :
    pushLine backwards c isLast = c :: settle backwards := by
  have hreturn : c ≠ '\r' := fun heq => absurd (heq ▸ hc) (by decide)
  have hfeed : c ≠ '\n' := fun heq => absurd (heq ▸ hc) (by decide)
  have hkept : (if isLast && c == '\r' then '\n' else c) = c := if_neg (by simp [hreturn])
  unfold pushLine settle
  simp only [hkept, if_neg hfeed]
  cases backwards with
  | nil => rfl
  | cons d before =>
      by_cases hd : d = '\r'
      · subst hd
        rfl
      · simp [hd]

/-- Hexadecimal digits are added to a text as they are. -/
theorem joinLines_append {t : Text} (ht : ∀ c ∈ t, c ∈ hexDigits) (hne : t ≠ []) (isAfterReference : Bool)
    (backwards : Text) :
    joinLines isAfterReference backwards (t.map .plain ++ ps) =
      joinLines false (t.reverse ++ if isAfterReference then backwards else settle backwards) ps := by
  induction t generalizing isAfterReference backwards with
  | nil => exact absurd rfl hne
  | cons c t ih =>
      obtain ⟨hc, ht⟩ := List.forall_mem_cons.mp ht
      have hfirst : joinLines isAfterReference backwards ((c :: t).map .plain ++ ps) =
          joinLines false (c :: if isAfterReference then backwards else settle backwards) (t.map .plain ++ ps) := by
        rw [List.map_cons, List.cons_append, joinLines]
        cases isAfterReference with
        | true => rfl
        | false => rw [if_neg Bool.false_ne_true, pushLine_of_mem_hexDigits hc]; rfl
      rw [hfirst]
      cases t with
      | nil => rfl
      | cons d t =>
          have hsettled : settle (c :: if isAfterReference then backwards else settle backwards) =
              c :: if isAfterReference then backwards else settle backwards := by
            have hreturn : c ≠ '\r' := fun heq => absurd (heq ▸ hc) (by decide)
            unfold settle
            split <;> simp_all
          rw [ih ht (List.cons_ne_nil d t), if_neg Bool.false_ne_true, hsettled]
          simp

theorem joinSpaces_plain {c : Char} (h : c ≠ '\r' ∨ ∀ rest, ps ≠ .plain '\n' :: rest) :
    Xml.joinSpaces (.plain c :: ps) = (if isSpace c then ' ' else c) :: Xml.joinSpaces ps := by
  rw [Xml.joinSpaces]
  rintro rest rfl rfl
  exact h.elim (absurd rfl) fun hne => hne rest rfl

theorem joinSpaces_append {t : Text} (ht : ∀ c ∈ t, c ∈ hexDigits) :
    Xml.joinSpaces (t.map .plain ++ ps) = t ++ Xml.joinSpaces ps := by
  have hspace : ∀ c ∈ hexDigits, isSpace c = false ∧ c ≠ '\r' := forall_mem_hexDigits (by decide)
  induction t with
  | nil => rfl
  | cons c t ih =>
      obtain ⟨hc, ht⟩ := List.forall_mem_cons.mp ht
      obtain ⟨hblank, hreturn⟩ := hspace c hc
      rw [List.map_cons, List.cons_append, joinSpaces_plain (.inl hreturn), ih ht, hblank]
      rfl

theorem map_append_ne {t : Text} (ht : ∀ c ∈ t, c ∈ hexDigits) (hne : t ≠ []) (rest : List Piece) :
    t.map .plain ++ ps ≠ .plain '\n' :: rest := by
  cases t with
  | nil => exact absurd rfl hne
  | cons c t =>
      intro heq
      obtain rfl := Piece.plain.inj (List.cons.inj heq).1
      exact absurd (ht _ List.mem_cons_self) (by decide)

/-- Texts that are alike and held backwards. -/
def AlikeBackwards (s : Salts) (backwards backwards' : Text) : Prop := s.Alike backwards.reverse backwards'.reverse

variable [s.IsOpen] {backwards backwards' : Text}

namespace AlikeBackwards

theorem cons (c : Char) (h : s.AlikeBackwards backwards backwards') :
    s.AlikeBackwards (c :: backwards) (c :: backwards') := by
  rw [AlikeBackwards, List.reverse_cons, List.reverse_cons]
  exact h.append (.refl [c])

omit [s.IsOpen] in
/-- A carriage return ends both texts or neither. -/
theorem return_cases (h : s.AlikeBackwards backwards backwards') :
    (∃ before before', backwards = '\r' :: before ∧ backwards' = '\r' :: before' ∧ s.AlikeBackwards before before') ∨
      backwards.head? ≠ some '\r' ∧ backwards'.head? ≠ some '\r' := by
  have hbefore (t : Text) : Text.before? ['\r'] t.reverse = (Text.after? ['\r'] t).map List.reverse := by
    rw [Text.before?, List.reverse_reverse]
    rfl
  have hnone {t : Text} (ht : Text.after? ['\r'] t = none) : t.head? ≠ some '\r' := by
    cases t with
    | nil =>
        intro heq
        cases heq
    | cons c t =>
        rintro heq
        obtain rfl := Option.some.inj heq
        cases ht
  have hrel : Option.Rel s.Alike _ _ := Alike.before? (c := '\r') (by decide) h
  rw [hbefore, hbefore] at hrel
  cases hafter : Text.after? ['\r'] backwards with
  | none =>
      cases hafter' : Text.after? ['\r'] backwards' with
      | none => exact .inr ⟨hnone hafter, hnone hafter'⟩
      | some before' =>
          rw [hafter, hafter'] at hrel
          cases hrel
  | some before =>
      cases hafter' : Text.after? ['\r'] backwards' with
      | none =>
          rw [hafter, hafter'] at hrel
          cases hrel
      | some before' =>
          rw [hafter, hafter'] at hrel
          cases hrel with
          | some hsame =>
              exact .inl ⟨before, before', Text.eq_append_of_after? hafter, Text.eq_append_of_after? hafter', hsame⟩

theorem settle (h : s.AlikeBackwards backwards backwards') :
    s.AlikeBackwards (Salts.settle backwards) (Salts.settle backwards') := by
  obtain ⟨before, before', rfl, rfl, hbefore⟩ | ⟨hne, hne'⟩ := h.return_cases
  · exact hbefore.cons '\n'
  · have hsettled {t : Text} (ht : t.head? ≠ some '\r') : Salts.settle t = t := by
      unfold Salts.settle
      split <;> simp_all
    rwa [hsettled hne, hsettled hne']

theorem pushLine (c : Char) (isLast : Bool) (h : s.AlikeBackwards backwards backwards') :
    s.AlikeBackwards (Xml.pushLine backwards c isLast) (Xml.pushLine backwards' c isLast) := by
  obtain ⟨before, before', rfl, rfl, hbefore⟩ | ⟨hne, hne'⟩ := h.return_cases
  · by_cases hc : c = '\n'
    · simp only [Xml.pushLine, if_pos hc]
      exact hbefore.cons '\n'
    · simp only [Xml.pushLine, if_neg hc]
      exact (hbefore.cons '\n').cons _
  · have hpushed {t : Text} (ht : t.head? ≠ some '\r') :
        Xml.pushLine t c isLast = (if isLast && c == '\r' then '\n' else c) :: t := by
      cases t with
      | nil => rfl
      | cons d t =>
          have hd : d ≠ '\r' := fun heq => ht (heq ▸ rfl)
          simp [Xml.pushLine, hd]
    rw [hpushed hne, hpushed hne']
    exact h.cons _

end AlikeBackwards

namespace PiecesAlike

omit [s.IsOpen] in
theorem isEmpty_eq (h : s.PiecesAlike ps ps') : ps.isEmpty = ps'.isEmpty := by
  cases h with
  | nil => rfl
  | same p rest => rfl
  | @token call hcall ps ps' rest =>
      obtain ⟨c, t, heq, -⟩ := Script.exists_token_eq_cons s.first call
      obtain ⟨d, t', heq', -⟩ := Script.exists_token_eq_cons s.second call
      simp [heq, heq']

theorem joinLines (h : s.PiecesAlike ps ps') {isAfterReference : Bool}
    (hbackwards : s.AlikeBackwards backwards backwards') :
    s.Alike (Xml.joinLines isAfterReference backwards ps) (Xml.joinLines isAfterReference backwards' ps') := by
  induction h generalizing isAfterReference backwards backwards' with
  | nil => exact hbackwards
  | same p rest ih =>
      cases p with
      | referred c => exact ih (hbackwards.cons c)
      | plain c =>
          simp only [Xml.joinLines, rest.isEmpty_eq]
          refine ih ?_
          split
          · exact hbackwards.cons c
          · exact hbackwards.pushLine c _
  | @token call hcall ps ps' rest ih =>
      rw [joinLines_append (fun c => Script.mem_hexDigits_of_mem_token) (call.token_ne_nil _),
        joinLines_append (fun c => Script.mem_hexDigits_of_mem_token) (call.token_ne_nil _)]
      refine ih ?_
      have htoken : s.Alike (call.token s.first) (call.token s.second) :=
        ⟨_, hcall, by simp, by simp⟩
      rw [AlikeBackwards, List.reverse_append, List.reverse_append, List.reverse_reverse, List.reverse_reverse]
      refine Alike.append ?_ htoken
      split
      · exact hbackwards
      · exact hbackwards.settle

theorem joinSpaces (h : s.PiecesAlike ps ps') : s.Alike (Xml.joinSpaces ps) (Xml.joinSpaces ps') := by
  induction h with
  | nil => exact .refl []
  | same p rest ih =>
      cases p with
      | referred c => exact ih.cons c
      | plain c =>
          by_cases hc : c = '\r'
          · subst hc
            -- A line feed after the carriage return gives the space, and is written in both or neither.
            cases rest with
            | nil => exact ih.cons ' '
            | @same p ps ps' rest =>
                by_cases hp : p = .plain '\n'
                · subst hp
                  exact ih
                · have hne : ∀ rest, p :: ps ≠ .plain '\n' :: rest := fun _ heq => hp (List.cons.inj heq).1
                  have hne' : ∀ rest, p :: ps' ≠ .plain '\n' :: rest := fun _ heq => hp (List.cons.inj heq).1
                  rw [joinSpaces_plain (.inr hne), joinSpaces_plain (.inr hne')]
                  exact ih.cons ' '
            | token hcall rest =>
                have hne {salt : Text} {call : Call} {ps : List Piece} (rest : List Piece) :
                    (call.token salt).map .plain ++ ps ≠ .plain '\n' :: rest :=
                  map_append_ne (fun c => Script.mem_hexDigits_of_mem_token) (call.token_ne_nil salt) rest
                rw [joinSpaces_plain (.inr hne), joinSpaces_plain (.inr hne)]
                exact ih.cons ' '
          · rw [joinSpaces_plain (.inl hc), joinSpaces_plain (.inl hc)]
            exact ih.cons _
  | @token call hcall ps ps' rest ih =>
      have htoken : s.Alike (call.token s.first) (call.token s.second) :=
        ⟨_, hcall, by simp, by simp⟩
      rw [joinSpaces_append fun c => Script.mem_hexDigits_of_mem_token,
        joinSpaces_append fun c => Script.mem_hexDigits_of_mem_token]
      exact htoken.append ih

end PiecesAlike

end Joining

namespace Alike

variable [s.IsOpen]

/-- Texts are alike with their references resolved and their line ends made alike. -/
theorem text? (hletters : s.HasLetters) (h : s.Alike t t') : Option.Rel s.Alike (Xml.text? t) (Xml.text? t') :=
  rel_map (h.pieces? hletters) fun _ _ hpieces => hpieces.joinLines (refl [])

/-- Attribute values are alike with their references resolved. -/
theorem value? (hletters : s.HasLetters) (h : s.Alike t t') : Option.Rel s.Alike (Xml.value? t) (Xml.value? t') :=
  rel_map (h.pieces? hletters) fun _ _ => PiecesAlike.joinSpaces

theorem literalText (h : s.Alike t t') : s.Alike (Xml.literalText t) (Xml.literalText t') := by
  obtain ⟨m, hm, rfl, rfl⟩ := h
  refine PiecesAlike.joinLines ?_ (refl [])
  induction m with
  | nil => exact .nil
  | cons sign m ih =>
      have hrest := ih (s.permits_of_part hm (List.suffix_cons sign m).isInfix)
      cases sign with
      | character c => exact .same (.plain c) hrest
      | token call =>
          rw [Script.text_token, Script.text_token, List.map_append, List.map_append]
          exact .token (s.permits_of_part hm (List.prefix_append [.token call] m).isInfix) hrest

end Alike

end Salts

end Manuscript
