import Manuscript.Proofs.Related
import Manuscript.Proofs.Salt.Script
import Manuscript.Html.Escape

/-!
Texts that are written alike by two salts.

Main statements: what looks for no hexadecimal digit makes of such texts such texts again (`Alike.span`, `Alike.cut?`,
`Alike.splitOnP` and so on), and where anything may be written, such texts can be put together (`Alike.append`).
-/

namespace Manuscript

theorem any_eq_of_forall₂ {α β : Type} {r : α → β → Prop} {p : α → Bool} {q : β → Bool}
    (hpq : ∀ a b, r a b → p a = q b) {l : List α} {l' : List β} (h : List.Forall₂ r l l') : l.any p = l'.any q := by
  induction h with
  | nil => rfl
  | cons hone _ ih => rw [List.any_cons, List.any_cons, ih, hpq _ _ hone]

/-- Two salts, and the scripts that may be written by them, the parts of such scripts among them. -/
structure Salts where
  first : Text
  second : Text
  permits : Script → Prop
  permits_of_part {l m : Script} (h : permits m) (hpart : l <:+: m) : permits l

namespace Salts

/-- The texts of one script by the two salts. -/
def Alike (s : Salts) (t t' : Text) : Prop :=
  ∃ m, s.permits m ∧ Script.text s.first m = t ∧ Script.text s.second m = t'

/-- Two salts by which all scripts about some calls may be written. -/
def of (first second : Text) (calls : List Call) : Salts where
  first := first
  second := second
  permits m := ∀ call, .token call ∈ m → call ∈ calls
  permits_of_part h hpart call hcall := h call (hpart.subset hcall)

/-- Scripts may be put together, and any text without tokens may be written. -/
class IsOpen (s : Salts) : Prop where
  permits_plain (t : Text) : s.permits (Script.plain t)
  permits_append {l m : Script} (hl : s.permits l) (hm : s.permits m) : s.permits (l ++ m)

instance (first second : Text) (calls : List Call) : (of first second calls).IsOpen where
  permits_plain t call hcall := by
    obtain ⟨c, -, heq⟩ := List.mem_map.mp hcall
    cases heq
  permits_append hl hm call hcall := (List.mem_append.mp hcall).elim (hl call) (hm call)

variable {s : Salts} {t t' u u' : Text}

namespace Alike

theorem of_part {l m : Script} (hm : s.permits m) (hpart : l <:+: m) (ht : Script.text s.first l = t)
    (ht' : Script.text s.second l = t') : s.Alike t t' :=
  ⟨l, s.permits_of_part hm hpart, ht, ht'⟩

theorem nil (h : s.Alike t t') : s.Alike [] [] := by
  obtain ⟨m, hm, rfl, rfl⟩ := h
  exact of_part hm List.nil_infix rfl rfl

theorem length_eq (h : s.Alike t t') : t.length = t'.length := by
  obtain ⟨m, -, rfl, rfl⟩ := h
  exact m.length_text_eq _ _

theorem eq_nil_iff (h : s.Alike t t') : t = [] ↔ t' = [] := by
  rw [← List.length_eq_zero_iff, ← List.length_eq_zero_iff, h.length_eq]

/-- A character that is no hexadecimal digit stands at the start of both texts or of neither. -/
theorem cons_cases (h : s.Alike t t') : (t = [] ∧ t' = []) ∨
    (∃ c r r', t = c :: r ∧ t' = c :: r' ∧ s.Alike r r') ∨
      ∃ c d r r', t = c :: r ∧ t' = d :: r' ∧ c ∈ hexDigits ∧ d ∈ hexDigits := by
  obtain ⟨m, hm, rfl, rfl⟩ := h
  match m with
  | [] => exact .inl ⟨rfl, rfl⟩
  | .character c :: m => exact .inr (.inl ⟨c, _, _, rfl, rfl, of_part hm (List.suffix_cons _ m).isInfix rfl rfl⟩)
  | .token call :: m =>
      obtain ⟨c, r, heq, hc⟩ := Script.exists_token_eq_cons s.first call
      obtain ⟨d, r', heq', hd⟩ := Script.exists_token_eq_cons s.second call
      refine .inr (.inr ⟨c, d, r ++ Script.text s.first m, r' ++ Script.text s.second m, ?_, ?_, hc, hd⟩)
      · rw [Script.text_token, heq, List.cons_append]
      · rw [Script.text_token, heq', List.cons_append]

theorem head?_eq_iff {c : Char} (hc : c ∉ hexDigits) (h : s.Alike t t') : t.head? = some c ↔ t'.head? = some c := by
  obtain ⟨rfl, rfl⟩ | ⟨d, r, r', rfl, rfl, -⟩ | ⟨d, e, r, r', rfl, rfl, hd, he⟩ := h.cons_cases
  · exact Iff.rfl
  · exact Iff.rfl
  · refine iff_of_false (fun heq => ?_) (fun heq => ?_)
    · exact hc (Option.some.inj heq ▸ hd)
    · exact hc (Option.some.inj heq ▸ he)

/-- A text that is shorter than a token holds none. -/
theorem eq_of_length_lt (h : s.Alike t t') (hlength : t.length < 40) : t = t' := by
  obtain ⟨m, -, rfl, rfl⟩ := h
  have hplain := Script.eq_plain_of_length_lt hlength
  rw [hplain, Script.text_plain, Script.text_plain]

theorem eq_iff (h : s.Alike t t') (hlength : u.length < 40) : t = u ↔ t' = u := by
  constructor
  · rintro rfl
    exact (h.eq_of_length_lt hlength).symm
  · rintro rfl
    exact h.eq_of_length_lt (h.length_eq ▸ hlength)

section Predicates

variable {p : Char → Bool} {value : Bool}

theorem span (hp : ∀ c ∈ hexDigits, p c = value) (h : s.Alike t t') :
    s.Alike (t.takeWhile p) (t'.takeWhile p) ∧ s.Alike (t.dropWhile p) (t'.dropWhile p) := by
  obtain ⟨m, hm, rfl, rfl⟩ := h
  obtain ⟨l, r, rfl, hspan⟩ := Script.exists_span hp m
  exact ⟨of_part hm (List.prefix_append l r).isInfix (hspan _).1.symm (hspan _).1.symm,
    of_part hm (List.suffix_append l r).isInfix (hspan _).2.symm (hspan _).2.symm⟩

theorem all_eq (hp : ∀ c ∈ hexDigits, p c = value) (h : s.Alike t t') : t.all p = t'.all p := by
  obtain ⟨m, -, rfl, rfl⟩ := h
  exact Script.all_text_eq hp m _ _

theorem getLast?_any_eq (hp : ∀ c ∈ hexDigits, p c = value) (h : s.Alike t t') :
    t.getLast?.any p = t'.getLast?.any p := by
  obtain ⟨m, -, rfl, rfl⟩ := h
  exact Script.getLast?_any_eq hp m _ _

theorem trimEndWhere (hp : ∀ c ∈ hexDigits, p c = false) (h : s.Alike t t') :
    s.Alike (Text.trimEndWhere p t) (Text.trimEndWhere p t') := by
  obtain ⟨m, hm, rfl, rfl⟩ := h
  obtain ⟨l, r, rfl, htrim⟩ := Script.exists_trimEndWhere hp m
  exact of_part hm (List.prefix_append l r).isInfix (htrim _).symm (htrim _).symm

theorem splitOnP (hp : ∀ c ∈ hexDigits, p c = false) (h : s.Alike t t') :
    List.Forall₂ s.Alike (t.splitOnP p) (t'.splitOnP p) := by
  obtain ⟨m, hm, rfl, rfl⟩ := h
  obtain ⟨pieces, hpieces, hsplit⟩ := Script.exists_splitOnP hp m
  rw [hsplit, hsplit, List.forall₂_map_left_iff, List.forall₂_map_right_iff, List.forall₂_same]
  exact fun piece hpiece => of_part hm (hpieces piece hpiece) rfl rfl

end Predicates

section Wordings

variable {c : Char}

theorem after? (lead : Text) (hlength : lead.length ≤ 40) (hlast : lead.getLast?.all (· ∉ hexDigits) = true)
    (h : s.Alike t t') : Option.Rel s.Alike (Text.after? lead t) (Text.after? lead t') := by
  obtain ⟨m, hm, rfl, rfl⟩ := h
  obtain hnone | ⟨l, r, rfl, hsome⟩ := Script.after?_text hlength (by simpa [Option.all_eq_true] using hlast) m
  · rw [hnone, hnone]
    exact .none
  · rw [hsome, hsome]
    exact .some (of_part hm (List.suffix_append l r).isInfix rfl rfl)

theorem startsWith_eq (lead : Text) (hlength : lead.length ≤ 40) (hlast : lead.getLast?.all (· ∉ hexDigits) = true)
    (h : s.Alike t t') : Text.startsWith lead t = Text.startsWith lead t' := by
  obtain ⟨m, -, rfl, rfl⟩ := h
  exact Script.startsWith_text_eq hlength (by simpa [Option.all_eq_true] using hlast) m _ _

theorem cut? (mark : Text) (hne : mark ≠ []) (hlength : mark.length ≤ 40) (hmark : mark.all (· ∉ hexDigits) = true)
    (h : s.Alike t t') :
    Option.Rel (fun a b => s.Alike a.1 b.1 ∧ s.Alike a.2 b.2) (Text.cut? mark t) (Text.cut? mark t') := by
  obtain ⟨m, hm, rfl, rfl⟩ := h
  obtain hnone | ⟨l, between, r, rfl, hcut⟩ := Script.cut?_text hne hlength (by simpa using hmark) m
  · rw [hnone, hnone]
    exact .none
  · rw [hcut, hcut, List.append_assoc] at *
    exact .some ⟨of_part hm (List.prefix_append l _).isInfix rfl rfl,
      of_part hm (List.suffix_append_of_suffix (List.suffix_append between r)).isInfix rfl rfl⟩

theorem before? (hc : c ∉ hexDigits) (h : s.Alike t t') :
    Option.Rel s.Alike (Text.before? [c] t) (Text.before? [c] t') := by
  obtain ⟨m, hm, rfl, rfl⟩ := h
  obtain hnone | ⟨l, rfl, hsome⟩ := Script.before?_text hc m
  · rw [hnone, hnone]
    exact .none
  · rw [hsome, hsome]
    exact .some (of_part hm (List.prefix_append l _).isInfix rfl rfl)

end Wordings

section Blanks

theorem trim (h : s.Alike t t') : s.Alike (Text.trim t) (Text.trim t') :=
  (h.span isBlank_eq_false_of_mem_hexDigits).2.trimEndWhere isBlank_eq_false_of_mem_hexDigits

theorem trimChar {c : Char} (hc : c ∉ hexDigits) (h : s.Alike t t') :
    s.Alike (Text.trimChar c t) (Text.trimChar c t') := by
  have hne : ∀ d ∈ hexDigits, (d == c) = false := fun d hd => beq_false_of_ne fun heq => hc (heq ▸ hd)
  exact (h.span hne).2.trimEndWhere hne

theorem isBlankOnly_eq (h : s.Alike t t') : Text.isBlankOnly t = Text.isBlankOnly t' := h.all_eq isBlank_eq_false_of_mem_hexDigits

theorem filter_ne_nil {ts ts' : List Text} (h : List.Forall₂ s.Alike ts ts') :
    List.Forall₂ s.Alike (ts.filter (· ≠ [])) (ts'.filter (· ≠ [])) := by
  refine List.rel_filter (fun u u' hu => ?_) h
  simpa using not_congr hu.eq_nil_iff

theorem words (h : s.Alike t t') : List.Forall₂ s.Alike (Text.words t) (Text.words t') :=
  filter_ne_nil (h.splitOnP isBlank_eq_false_of_mem_hexDigits)

theorem lines (h : s.Alike t t') : List.Forall₂ s.Alike (Text.lines t) (Text.lines t') := by
  have hbreak : ∀ c ∈ hexDigits, (c == '\n') = false := forall_mem_hexDigits (by decide +kernel)
  have hpieces : List.Forall₂ s.Alike (t.splitOn '\n') (t'.splitOn '\n') := h.splitOnP hbreak
  have hreturn (u u' : Text) (hu : s.Alike u u') : s.Alike (Text.dropReturn u) (Text.dropReturn u') := by
    have hbefore := hu.before? (c := '\r') (by decide)
    exact rel_getD hbefore hu
  have hlast : Option.Rel s.Alike (t.splitOn '\n').getLast? (t'.splitOn '\n').getLast? := by
    have hreverse := List.rel_reverse hpieces
    rw [List.getLast?_eq_head?_reverse, List.getLast?_eq_head?_reverse]
    generalize (t.splitOn '\n').reverse = ts, (t'.splitOn '\n').reverse = ts' at hreverse ⊢
    cases hreverse with
    | nil => exact .none
    | cons hone _ => exact .some hone
  unfold Text.lines
  dsimp only
  rw [List.dropLast_eq_take, List.dropLast_eq_take, ← hpieces.length_eq]
  refine List.rel_append (List.rel_map hreturn (List.forall₂_take _ hpieces)) ?_
  generalize (t.splitOn '\n').getLast? = x, (t'.splitOn '\n').getLast? = x' at hlast ⊢
  cases hlast with
  | none => exact .nil
  | some hone =>
      rw [Option.filter_some, Option.filter_some]
      simp only [ne_eq, decide_not, Bool.not_eq_true', decide_eq_false_iff_not, hone.eq_nil_iff]
      split
      · exact .cons hone .nil
      · exact .nil

end Blanks

section Open

variable [s.IsOpen]

theorem refl (t : Text) : s.Alike t t :=
  ⟨Script.plain t, IsOpen.permits_plain t, Script.text_plain _ t, Script.text_plain _ t⟩

theorem append (ht : s.Alike t t') (hu : s.Alike u u') : s.Alike (t ++ u) (t' ++ u') := by
  obtain ⟨l, hl, rfl, rfl⟩ := ht
  obtain ⟨m, hm, rfl, rfl⟩ := hu
  exact ⟨l ++ m, IsOpen.permits_append hl hm, Script.text_append _ l m, Script.text_append _ l m⟩

theorem cons (c : Char) (h : s.Alike t t') : s.Alike (c :: t) (c :: t') := (refl [c]).append h

theorem flatten {ts ts' : List Text} (h : List.Forall₂ s.Alike ts ts') : s.Alike ts.flatten ts'.flatten := by
  induction h with
  | nil => exact refl []
  | cons hfirst _ ih => exact hfirst.append ih

theorem join (separator : Text) {ts ts' : List Text} (h : List.Forall₂ s.Alike ts ts') :
    s.Alike (Text.join separator ts) (Text.join separator ts') := by
  induction h with
  | nil => exact refl []
  | cons hfirst hrest ih =>
      cases hrest with
      | nil =>
          rw [Text.join, Text.join, List.intercalate_singleton, List.intercalate_singleton]
          exact hfirst
      | cons hnext hmore =>
          rw [Text.join, Text.join, List.intercalate_cons_cons, List.intercalate_cons_cons]
          exact (hfirst.append (refl separator)).append ih

/-- The texts are rewritten alike where hexadecimal digits stay as they are. -/
theorem flatMap {f : Char → Text} (hf : ∀ c ∈ hexDigits, f c = [c]) (h : s.Alike t t') :
    s.Alike (t.flatMap f) (t'.flatMap f) := by
  obtain ⟨m, hm, rfl, rfl⟩ := h
  induction m with
  | nil => exact refl []
  | cons sign m ih =>
      have hrest := ih (s.permits_of_part hm (List.suffix_cons sign m).isInfix)
      cases sign with
      | character c =>
          rw [Script.text_character, Script.text_character, List.flatMap_cons, List.flatMap_cons]
          exact (refl (f c)).append hrest
      | token call =>
          have hself (salt : Text) : (call.token salt).flatMap f = call.token salt := flatMap_digest hf _
          have htoken : s.Alike (call.token s.first) (call.token s.second) := by
            refine of_part hm (List.prefix_append [.token call] m).isInfix ?_ ?_ <;> simp
          rw [Script.text_token, Script.text_token, List.flatMap_append, List.flatMap_append, hself, hself]
          exact htoken.append hrest

theorem escapeText (h : s.Alike t t') : s.Alike (Html.escapeText t) (Html.escapeText t') :=
  h.flatMap textCharacter_of_mem_hexDigits

theorem escapeAttribute (h : s.Alike t t') : s.Alike (Html.escapeAttribute t) (Html.escapeAttribute t') :=
  h.flatMap attributeCharacter_of_mem_hexDigits

end Open

end Alike

end Salts

end Manuscript
