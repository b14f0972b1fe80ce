import Manuscript.Proofs.Salt.Reference
import Manuscript.Proofs.Xml.Steps

/-!
XML texts that are written alike.  Whether such texts are well formed may still depend on the salt, since a token may
stand where a name begins.

Main statement: if both are well formed, the trees are alike (`Alike.parse?`).
-/

namespace Manuscript

/-- If both are given, they are related. -/
def Both {α β : Type} (r : α → β → Prop) (x : Option α) (y : Option β) : Prop :=
  ∀ a b, x = some a → y = some b → r a b

namespace Both

variable {α β γ δ : Type} {r : α → β → Prop} {q : γ → δ → Prop} {x : Option α} {y : Option β}

theorem of_rel (h : Option.Rel r x y) : Both r x y := by
  rintro a b rfl rfl
  cases h with
  | some hab => exact hab

theorem of {a : α} {b : β} (h : r a b) : Both r (some a) (some b) := by
  intro a' b' ha hb
  obtain rfl := Option.some.inj ha
  obtain rfl := Option.some.inj hb
  exact h

theorem none_left : Both r none y := by
  intro _ _ h
  cases h

theorem none_right : Both r x none := by
  intro _ _ _ h
  cases h

theorem bind (h : Both r x y) {f : α → Option γ} {g : β → Option δ}
    (hfg : ∀ a b, x = some a → y = some b → r a b → Both q (f a) (g b)) : Both q (x >>= f) (y >>= g) := by
  intro c d hc hd
  obtain ⟨a, ha, hc⟩ := Option.bind_eq_some_iff.mp hc
  obtain ⟨b, hb, hd⟩ := Option.bind_eq_some_iff.mp hd
  exact hfg a b ha hb (h a b ha hb) c d hc hd

theorem map (h : Both r x y) {f : α → γ} {g : β → δ} (hfg : ∀ a b, r a b → q (f a) (g b)) :
    Both q (x.map f) (y.map g) := by
  intro c d hc hd
  obtain ⟨a, ha, rfl⟩ := Option.map_eq_some_iff.mp hc
  obtain ⟨b, hb, rfl⟩ := Option.map_eq_some_iff.mp hd
  exact hfg a b (h a b ha hb)

/-- Where nothing is given unless a condition holds, the condition may differ. -/
theorem ite_none (h : Both r x y) {p p' : Prop} [Decidable p] [Decidable p'] :
    Both r (if p then x else none) (if p' then y else none) := by
  split
  · split
    · exact h
    · exact none_right
  · exact none_left

theorem none_ite (h : Both r x y) {p p' : Prop} [Decidable p] [Decidable p'] :
    Both r (if p then none else x) (if p' then none else y) := by
  split
  · exact none_left
  · split
    · exact none_right
    · exact h

theorem foldlM {ε ζ : Type} {k : ε → ζ → Prop} {f : α → ε → Option α} {g : β → ζ → Option β}
    (hfg : ∀ a b, r a b → ∀ e z, k e z → Both r (f a e) (g b z)) {es : List ε} {zs : List ζ}
    (hes : List.Forall₂ k es zs) {a : α} {b : β} (hab : r a b) : Both r (es.foldlM f a) (zs.foldlM g b) := by
  induction hes generalizing a b with
  | nil => exact of hab
  | cons hfirst _ ih =>
      rw [List.foldlM_cons, List.foldlM_cons]
      exact (hfg a b hab _ _ hfirst).bind fun _ _ _ _ => ih

theorem mapM {ε ζ : Type} {k : ε → ζ → Prop} {f : ε → Option α} {g : ζ → Option β}
    (hfg : ∀ e z, k e z → Both r (f e) (g z)) {es : List ε} {zs : List ζ} (hes : List.Forall₂ k es zs) :
    Both (List.Forall₂ r) (es.mapM f) (zs.mapM g) := by
  induction hes with
  | nil => exact of .nil
  | cons hfirst _ ih =>
      rw [List.mapM_cons, List.mapM_cons]
      refine (hfg _ _ hfirst).bind fun _ _ _ _ hab => ih.bind fun _ _ _ _ hrest => ?_
      exact of (.cons hab hrest)

end Both

/-- Trees with related names, values and texts in the same places; the texts inside of elements are related as a whole,
too. -/
inductive Xml.Like (R : Text → Text → Prop) : Xml → Xml → Prop
  | text {t t' : Text} (h : R t t') : Like R (.text t) (.text t')
  | element {name name' : Text} {attributes attributes' : List (Text × Text)} {children children' : List Xml}
      (hname : R name name') (hattributes : List.Forall₂ (fun a b => R a.1 b.1 ∧ R a.2 b.2) attributes attributes')
      (htext : R (Xml.allTexts children) (Xml.allTexts children'))
      (hchildren : List.Forall₂ (Like R) children children') :
      Like R (.element name attributes children) (.element name' attributes' children')

namespace Salts

open Xml (QName Attribute Token Open Scope)

variable {s : Salts} {t t' : Text}

/-- Names in two parts that are written alike. -/
def NameAlike (s : Salts) (n n' : QName) : Prop := s.Alike n.qualifier n'.qualifier ∧ s.Alike n.name n'.name

/-- Attributes that are written alike. -/
def AttributeAlike (s : Salts) (a a' : Attribute) : Prop := s.NameAlike a.name a'.name ∧ s.Alike a.value a'.value

/-- Tokens of XML that are written alike. -/
inductive TokenAlike (s : Salts) : Token → Token → Prop
  | opens {name name' : QName} {attributes attributes' : List Attribute} (hname : s.NameAlike name name')
      (hattributes : List.Forall₂ s.AttributeAlike attributes attributes') (isEmpty : Bool) :
      TokenAlike s (.opens name attributes isEmpty) (.opens name' attributes' isEmpty)
  | closes {name name' : QName} : TokenAlike s (.closes name) (.closes name')
  | text {t t' : Text} (h : s.Alike t t') : TokenAlike s (.text t) (.text t')
  | aside : TokenAlike s .aside .aside

namespace Alike

theorem isSpace_eq_false : ∀ c ∈ hexDigits, Xml.isSpace c = false := forall_mem_hexDigits (by decide +kernel)

theorem isNameCharacter_eq_true : ∀ c ∈ hexDigits, Xml.isNameCharacter c = true :=
  forall_mem_hexDigits (by decide +kernel)

theorem skipSpaces (h : s.Alike t t') : s.Alike (Xml.skipSpaces t) (Xml.skipSpaces t') := (h.span isSpace_eq_false).2

theorem name? (h : s.Alike t t') :
    Both (fun a b => s.Alike a.1 b.1 ∧ s.Alike a.2 b.2) (Xml.name? t) (Xml.name? t') := by
  refine Both.ite_none (Both.of ?_)
  exact h.span isNameCharacter_eq_true

theorem qname? (h : s.Alike t t') :
    Both (fun a b => s.NameAlike a.1 b.1 ∧ s.Alike a.2 b.2) (Xml.qname? t) (Xml.qname? t') := by
  obtain ⟨hlexeme, hrest⟩ := h.span isNameCharacter_eq_true
  have hcut := hlexeme.cut? ":" (by decide) (by decide) (by decide)
  unfold Xml.qname?
  dsimp only
  generalize Text.cut? ":" (t.takeWhile Xml.isNameCharacter) = x,
    Text.cut? ":" (t'.takeWhile Xml.isNameCharacter) = x' at hcut ⊢
  cases hcut with
  | none => exact Both.ite_none (Both.of ⟨⟨h.nil, hlexeme⟩, hrest⟩)
  | some hparts => exact Both.ite_none (Both.of ⟨hparts, hrest⟩)

theorem comment? (h : s.Alike t t') : Both s.Alike (Xml.comment? t) (Xml.comment? t') := by
  refine (Both.of_rel (h.cut? "-->" (by decide) (by decide) (by decide))).bind fun a b _ _ hab => ?_
  exact Both.ite_none (Both.of hab.2)

theorem instruction? (h : s.Alike t t') : Both s.Alike (Xml.instruction? t) (Xml.instruction? t') := by
  refine (Both.of_rel (h.after? "<?" (by decide) (by decide))).bind fun a b _ _ hab => ?_
  refine hab.name?.bind fun a b _ _ hab => ?_
  refine (Both.of_rel (hab.2.skipSpaces.cut? "?>" (by decide) (by decide) (by decide))).bind fun a b _ _ hab => ?_
  exact Both.none_ite (Both.of hab.2)

theorem quoted? (h : s.Alike t t') :
    Both (fun a b => s.Alike a.1 b.1 ∧ s.Alike a.2 b.2) (Xml.quoted? t) (Xml.quoted? t') := by
  refine (Both.of_rel (h.skipSpaces.after? "=" (by decide) (by decide))).bind fun a b _ _ hab => ?_
  have hspaces := hab.skipSpaces
  generalize Xml.skipSpaces a = u, Xml.skipSpaces b = u' at hspaces ⊢
  obtain ⟨rfl, rfl⟩ | ⟨quote, r, r', rfl, rfl, hrest⟩ | ⟨c, d, r, r', rfl, rfl, hc, hd⟩ := hspaces.cons_cases
  · exact Both.none_left
  · dsimp only
    by_cases hquote : quote = '"' ∨ quote = '\''
    · rw [if_pos hquote, if_pos hquote]
      have hhex : [quote].all (· ∉ hexDigits) = true := by
        rcases hquote with rfl | rfl <;> decide
      refine (Both.of_rel (hrest.cut? [quote] (List.cons_ne_nil quote []) (by simp) hhex)).bind fun a b _ _ hab => ?_
      refine Both.ite_none (Both.of ?_)
      exact hab
    · rw [if_neg hquote]
      exact Both.none_left
  · have hquote : ¬(c = '"' ∨ c = '\'') := by
      rintro (rfl | rfl) <;> exact absurd hc (by decide)
    dsimp only
    rw [if_neg hquote]
    exact Both.none_left

theorem rawAttribute? (h : s.Alike t t') :
    Both (fun a b => s.NameAlike a.1 b.1 ∧ s.Alike a.2.1 b.2.1 ∧ s.Alike a.2.2 b.2.2) (Xml.rawAttribute? t)
      (Xml.rawAttribute? t') := by
  refine h.qname?.bind fun a b _ _ hab => ?_
  exact hab.2.quoted?.bind fun a' b' _ _ hab' => Both.of ⟨hab.1, hab'⟩

variable [s.IsOpen]

theorem attribute? (hletters : s.HasLetters) (h : s.Alike t t') :
    Both (fun a b => s.AttributeAlike a.1 b.1 ∧ s.Alike a.2 b.2) (Xml.attribute? t) (Xml.attribute? t') := by
  refine h.rawAttribute?.bind fun a b _ _ hab => ?_
  exact (Both.of_rel (hab.2.1.value? hletters)).bind fun _ _ _ _ hvalue => Both.of ⟨⟨hab.1, hvalue⟩, hab.2.2⟩

theorem tagEnd? (hletters : s.HasLetters) {attributes attributes' : List Attribute}
    (hattributes : List.Forall₂ s.AttributeAlike attributes attributes') (h : s.Alike t t') :
    Both (fun a b => List.Forall₂ s.AttributeAlike a.1 b.1 ∧ a.2.1 = b.2.1 ∧ s.Alike a.2.2 b.2.2)
      (Xml.tagEnd? attributes t) (Xml.tagEnd? attributes' t') := by
  induction hn : t.length using Nat.strong_induction_on generalizing t t' attributes attributes' with
  | h n ih =>
      have hempty := h.skipSpaces.after? "/>" (by decide) (by decide)
      have hend := h.skipSpaces.after? ">" (by decide) (by decide)
      rw [Xml.tagEnd?_eq, Xml.tagEnd?_eq]
      generalize Text.after? "/>" (Xml.skipSpaces t) = x, Text.after? "/>" (Xml.skipSpaces t') = x' at hempty ⊢
      generalize Text.after? ">" (Xml.skipSpaces t) = y, Text.after? ">" (Xml.skipSpaces t') = y' at hend ⊢
      cases hempty with
      | some hrest => exact Both.of ⟨hattributes, rfl, hrest⟩
      | none =>
          cases hend with
          | some hrest => exact Both.of ⟨hattributes, rfl, hrest⟩
          | none =>
              refine Both.ite_none ((h.skipSpaces.attribute? hletters).bind fun a b _ _ hab => ?_)
              dsimp only
              by_cases hshorter : a.2.length < t.length
              · refine Both.ite_none (ih _ (hn ▸ hshorter) ?_ hab.2 rfl)
                exact List.rel_append hattributes (.cons hab.1 .nil)
              · rw [if_neg hshorter]
                exact Both.none_left

theorem opening? (hletters : s.HasLetters) (h : s.Alike t t') :
    Both (fun a b => s.TokenAlike a.1 b.1 ∧ s.Alike a.2 b.2) (Xml.opening? t) (Xml.opening? t') := by
  refine h.qname?.bind fun a b _ _ hname => ?_
  refine (hname.2.tagEnd? hletters .nil).bind fun a' b' _ _ hend => ?_
  obtain ⟨attributes, isEmpty, rest⟩ := a'
  obtain ⟨attributes', isEmpty', rest'⟩ := b'
  obtain ⟨hattributes, rfl, hrest⟩ := hend
  exact Both.of ⟨.opens hname.1 hattributes _, hrest⟩

omit [s.IsOpen] in
theorem closing? (h : s.Alike t t') :
    Both (fun a b => s.TokenAlike a.1 b.1 ∧ s.Alike a.2 b.2) (Xml.closing? t) (Xml.closing? t') := by
  refine h.qname?.bind fun a b _ _ hname => ?_
  refine (Both.of_rel (hname.2.skipSpaces.after? ">" (by decide) (by decide))).bind fun a' b' _ _ hrest => ?_
  exact Both.of ⟨.closes, hrest⟩

theorem section? (h : s.Alike t t') :
    Both (fun a b => s.TokenAlike a.1 b.1 ∧ s.Alike a.2 b.2) (Xml.section? t) (Xml.section? t') := by
  refine (Both.of_rel (h.cut? "]]>" (by decide) (by decide) (by decide))).bind fun a b _ _ hab => ?_
  exact Both.ite_none (Both.of ⟨.text hab.1.literalText, hab.2⟩)

theorem charData? (hletters : s.HasLetters) (h : s.Alike t t') :
    Both (fun a b => s.TokenAlike a.1 b.1 ∧ s.Alike a.2 b.2) (Xml.charData? t) (Xml.charData? t') := by
  have hbracket : ∀ c ∈ hexDigits, decide (c ≠ '<') = true := forall_mem_hexDigits (by decide)
  obtain ⟨hraw, hrest⟩ := h.span hbracket
  refine (Both.of_rel (hraw.text? hletters)).bind fun a b _ _ htext => ?_
  exact Both.ite_none (Both.of ⟨.text htext, hrest⟩)

theorem token? (hletters : s.HasLetters) (h : s.Alike t t') :
    Both (fun a b => s.TokenAlike a.1 b.1 ∧ s.Alike a.2 b.2) (Xml.token? t) (Xml.token? t') := by
  have hasides {x x' : Option Text} (hx : Both s.Alike x x') :
      Both (fun a b => s.TokenAlike a.1 b.1 ∧ s.Alike a.2 b.2) (x.map fun rest => (.aside, rest))
        (x'.map fun rest => (.aside, rest)) := hx.map fun a b hab => ⟨.aside, hab⟩
  have hbracket : ∀ c ∈ hexDigits, c ≠ '<' := forall_mem_hexDigits (by decide)
  have hname : ∀ c ∈ hexDigits, c ≠ '!' ∧ c ≠ '?' ∧ c ≠ '/' := forall_mem_hexDigits (by decide)
  obtain ⟨rfl, rfl⟩ | ⟨c, r, r', rfl, rfl, hrest⟩ | ⟨c, d, r, r', rfl, rfl, hc, hd⟩ := h.cons_cases
  · exact Both.none_left
  · by_cases hc : c = '<'
    · subst hc
      obtain ⟨rfl, rfl⟩ | ⟨c, u, u', rfl, rfl, hmore⟩ | ⟨c, d, u, u', rfl, rfl, hc, hd⟩ := hrest.cons_cases
      · exact hrest.opening? hletters
      · by_cases hexclamation : c = '!'
        · subst hexclamation
          have hcomment := hmore.after? "--" (by decide) (by decide)
          have hsection := hmore.after? "[CDATA[" (by decide) (by decide)
          simp only [Xml.token?]
          generalize Text.after? "--" u = x, Text.after? "--" u' = x' at hcomment ⊢
          generalize Text.after? "[CDATA[" u = y, Text.after? "[CDATA[" u' = y' at hsection ⊢
          cases hcomment with
          | some hbody => exact hasides hbody.comment?
          | none =>
              cases hsection with
              | some hbody => exact hbody.section?
              | none => exact Both.none_left
        · by_cases hquestion : c = '?'
          · subst hquestion
            exact hasides h.instruction?
          · by_cases hslash : c = '/'
            · subst hslash
              exact hmore.closing?
            · rw [Xml.token?_opening ⟨hexclamation, hquestion, hslash⟩,
                Xml.token?_opening ⟨hexclamation, hquestion, hslash⟩]
              exact hrest.opening? hletters
      · rw [Xml.token?_opening (hname c hc), Xml.token?_opening (hname d hd)]
        exact hrest.opening? hletters
    · rw [Xml.token?_of_ne hc, Xml.token?_of_ne hc]
      exact h.charData? hletters
  · rw [Xml.token?_of_ne (hbracket c hc), Xml.token?_of_ne (hbracket d hd)]
    exact h.charData? hletters

section Prolog

omit [s.IsOpen]

theorem declared? (name : Text) (hlength : name.length ≤ 40) (hlast : name.getLast?.all (· ∉ hexDigits) = true)
    (h : s.Alike t t') : Both s.Alike (Xml.declared? name t) (Xml.declared? name t') := by
  unfold Xml.declared?
  rw [h.startsWith_eq name hlength hlast]
  split
  · exact h.rawAttribute?.map fun a b hab => hab.2.2
  · exact Both.of h

/-- The word ends in a hexadecimal digit, so that a token may go on with what precedes it.  By the salt by which it does
not, no declaration ends there. -/
theorem standalone (h : s.Alike t t') :
    Both s.Alike (Xml.declared? "standalone" t >>= fun rest => Text.after? "?>" (Xml.skipSpaces rest))
      (Xml.declared? "standalone" t' >>= fun rest => Text.after? "?>" (Xml.skipSpaces rest)) := by
  have hend {u u' : Text} (hu : s.Alike u u') :
      Both s.Alike (Text.after? "?>" (Xml.skipSpaces u)) (Text.after? "?>" (Xml.skipSpaces u')) :=
    Both.of_rel (hu.skipSpaces.after? "?>" (by decide) (by decide))
  have hnone {u : Text} (hu : u.head? = some 's') : Text.after? "?>" (Xml.skipSpaces u) = none := by
    cases u with
    | nil => cases hu
    | cons c u =>
        obtain rfl := Option.some.inj hu
        rfl
  have hhead {u : Text} (hu : Text.startsWith "standalone" u = true) : u.head? = some 's' := by
    obtain ⟨rest, hafter⟩ := Option.isSome_iff_exists.mp hu
    rw [Text.eq_append_of_after? hafter]
    rfl
  unfold Xml.declared?
  by_cases hstarts : Text.startsWith "standalone" t = true
  · rw [if_pos hstarts]
    by_cases hstarts' : Text.startsWith "standalone" t' = true
    · rw [if_pos hstarts']
      exact (h.rawAttribute?.map fun a b hab => hab.2.2).bind fun a b _ _ => hend
    · rw [if_neg hstarts']
      have hmissing : Text.after? "?>" (Xml.skipSpaces t') = none :=
        hnone ((h.head?_eq_iff (by decide)).mp (hhead hstarts))
      change Both s.Alike _ (Text.after? "?>" (Xml.skipSpaces t'))
      rw [hmissing]
      exact Both.none_right
  · rw [if_neg hstarts]
    by_cases hstarts' : Text.startsWith "standalone" t' = true
    · have hmissing : Text.after? "?>" (Xml.skipSpaces t) = none :=
        hnone ((h.head?_eq_iff (by decide)).mpr (hhead hstarts'))
      change Both s.Alike (Text.after? "?>" (Xml.skipSpaces t)) _
      rw [hmissing]
      exact Both.none_left
    · rw [if_neg hstarts']
      exact hend h

theorem declaration? (h : s.Alike t t') : Both s.Alike (Xml.declaration? t) (Xml.declaration? t') := by
  refine Both.none_ite ?_
  refine (h.skipSpaces.declared? "version" (by decide) (by decide)).bind fun a b _ _ hversion => ?_
  refine Both.none_ite ?_
  refine (hversion.skipSpaces.declared? "encoding" (by decide) (by decide)).bind fun a b _ _ hencoding => ?_
  refine Both.none_ite ?_
  exact hencoding.skipSpaces.standalone

theorem aside? (h : s.Alike t t') : Both s.Alike (Xml.aside? t) (Xml.aside? t') := by
  have hrest := h.skipSpaces
  have hcomment := hrest.after? "<!--" (by decide) (by decide)
  unfold Xml.aside?
  rw [hrest.startsWith_eq "<?" (by decide) (by decide)]
  generalize Text.after? "<!--" (Xml.skipSpaces t) = x, Text.after? "<!--" (Xml.skipSpaces t') = x' at hcomment ⊢
  cases hcomment with
  | some hbody => exact hbody.comment?
  | none =>
      dsimp only
      split
      · exact hrest.instruction?
      · exact Both.of hrest

theorem asides? (h : s.Alike t t') : Both s.Alike (Xml.asides? t) (Xml.asides? t') := by
  induction hn : t.length using Nat.strong_induction_on generalizing t t' with
  | h n ih =>
      rw [Xml.asides?_eq, Xml.asides?_eq]
      refine h.aside?.bind fun next next' _ _ hnext => ?_
      rw [hnext.length_eq, h.skipSpaces.length_eq, h.length_eq]
      split
      · rename_i hshorter
        refine ih _ ?_ hnext rfl
        rw [hnext.length_eq, ← hn, h.length_eq]
        exact Nat.lt_of_lt_of_le hshorter.1 hshorter.2
      · exact Both.of h.skipSpaces

theorem prolog? (h : s.Alike t t') : Both s.Alike (Xml.prolog? t) (Xml.prolog? t') := by
  have hmark : s.Alike (Xml.afterMark t) (Xml.afterMark t') := by
    have hafter := h.after? ['\uFEFF'] (by decide) (by decide)
    unfold Xml.afterMark
    generalize Text.after? ['\uFEFF'] t = x, Text.after? ['\uFEFF'] t' = x' at hafter ⊢
    cases hafter with
    | none => exact h
    | some hrest => exact hrest
  have hdeclared := hmark.after? "<?xml " (by decide) (by decide)
  unfold Xml.prolog?
  dsimp only
  generalize Text.after? "<?xml " (Xml.afterMark t) = x, Text.after? "<?xml " (Xml.afterMark t') = x' at hdeclared ⊢
  cases hdeclared with
  | some hrest => exact hrest.declaration?.bind fun a b _ _ => asides?
  | none => exact (Both.of hmark).bind fun a b _ _ => asides?

end Prolog

end Alike

/-- Elements that are still open and are written alike.  What prefixes stand for decides only whether they are well
formed. -/
structure OpenAlike (s : Salts) (o o' : Open) : Prop where
  name : s.NameAlike o.name o'.name
  attributes : List.Forall₂ (fun a b => s.Alike a.1 b.1 ∧ s.Alike a.2 b.2) o.attributes o'.attributes
  children : List.Forall₂ (Xml.Like s.Alike) o.children o'.children
  isInText : o.isInText = o'.isInText

theorem declare?_alike {acc acc' : Scope × List Attribute} (hacc : List.Forall₂ s.AttributeAlike acc.2 acc'.2)
    {a a' : Attribute} (ha : s.AttributeAlike a a') :
    Both (fun acc acc' => List.Forall₂ s.AttributeAlike acc.2 acc'.2) (Xml.declare? acc a) (Xml.declare? acc' a') := by
  have hqualifier := ha.1.1.eq_iff (by decide : ("xmlns".toList).length < 40)
  have hname := ha.1.2.eq_iff (by decide : ("xmlns".toList).length < 40)
  have hspace := ha.2.eq_iff (by decide : Xml.xmlSpace.length < 40)
  unfold Xml.declare?
  simp only [hqualifier, hname, hspace]
  split
  · refine Both.none_ite ?_
    split
    · exact Both.of hacc
    · exact Both.of hacc
  · split
    · refine Both.none_ite (Both.of ?_)
      exact hacc
    · exact Both.of (.cons ha hacc)

theorem attributeSpace?_alike {a a' : Attribute} (ha : s.AttributeAlike a a') (scope scope' : Scope) :
    Both (fun space space' => space.isNone = space'.isNone) (Xml.attributeSpace? scope a)
      (Xml.attributeSpace? scope' a') := by
  have hempty := ha.1.1.eq_iff (by decide : ([] : Text).length < 40)
  have hxml := ha.1.1.eq_iff (by decide : ("xml".toList).length < 40)
  unfold Xml.attributeSpace?
  simp only [hempty, hxml]
  split
  · exact Both.of rfl
  · split
    · exact Both.of rfl
    · intro space space' hspace hspace'
      obtain ⟨_, -, rfl⟩ := Option.map_eq_some_iff.mp hspace
      obtain ⟨_, -, rfl⟩ := Option.map_eq_some_iff.mp hspace'
      rfl

namespace OpenAlike

theorem new? {name name' : QName} (hname : s.NameAlike name name') {attributes attributes' : List Attribute}
    (hattributes : List.Forall₂ s.AttributeAlike attributes attributes') (outer outer' : Scope) :
    Both s.OpenAlike (Open.new? outer name attributes) (Open.new? outer' name' attributes') := by
  unfold Open.new?
  have hothers : Both (fun acc acc' : Scope × List Attribute => List.Forall₂ s.AttributeAlike acc.2 acc'.2)
      (attributes.foldlM Xml.declare? ([], [])) (attributes'.foldlM Xml.declare? ([], [])) :=
    Both.foldlM (f := Xml.declare?) (g := Xml.declare?) (fun _ _ hacc _ _ ha => declare?_alike hacc ha) hattributes .nil
  refine hothers.bind fun acc acc' _ _ hacc => ?_
  have hspaces : Both
      (List.Forall₂ fun p p' : Option Text × Attribute => p.1.isNone = p'.1.isNone ∧ s.AttributeAlike p.2 p'.2)
      (acc.2.reverse.mapM fun a => (Xml.attributeSpace? (acc.1 ++ outer) a).map fun space => (space, a))
      (acc'.2.reverse.mapM fun a => (Xml.attributeSpace? (acc'.1 ++ outer') a).map fun space => (space, a)) := by
    refine Both.mapM (fun a a' ha => ?_) (List.rel_reverse hacc)
    refine (attributeSpace?_alike ha _ _).map fun space space' hspace => ?_
    exact ⟨hspace, ha⟩
  refine hspaces.bind fun spaces spaces' _ _ hspaces => ?_
  refine Both.none_ite (Both.of ⟨hname, ?_, .nil, rfl⟩)
  refine List.rel_filterMap (fun p p' hp => ?_) hspaces
  dsimp only
  rw [hp.1]
  split
  · exact .some ⟨hp.2.1.2, hp.2.2⟩
  · exact .none

variable {o o' : Open}

theorem addText [s.IsOpen] (h : s.OpenAlike o o') (ht : s.Alike t t') : s.OpenAlike (o.addText t) (o'.addText t') := by
  obtain ⟨name, attributes, scope, children, isInText⟩ := o
  obtain ⟨name', attributes', scope', children', isInText'⟩ := o'
  obtain ⟨hname, hattributes, hchildren, hinText⟩ := h
  dsimp only at hinText hchildren
  subst hinText
  cases isInText with
  | false => exact ⟨hname, hattributes, .cons (.text ht) hchildren, rfl⟩
  | true =>
      cases hchildren with
      | nil => exact ⟨hname, hattributes, .cons (.text ht) .nil, rfl⟩
      | cons hfirst hrest =>
          cases hfirst with
          | text hbefore => exact ⟨hname, hattributes, .cons (.text (hbefore.append ht)) hrest, rfl⟩
          | element hname' hattributes' htext hchildren' =>
              exact ⟨hname, hattributes, .cons (.text ht)
                (.cons (.element hname' hattributes' htext hchildren') hrest), rfl⟩

theorem pause (h : s.OpenAlike o o') : s.OpenAlike o.pause o'.pause :=
  ⟨h.name, h.attributes, h.children, rfl⟩

theorem addElement (h : s.OpenAlike o o') {x x' : Xml} (hx : Xml.Like s.Alike x x') :
    s.OpenAlike (o.addElement x) (o'.addElement x') :=
  ⟨h.name, h.attributes, .cons hx h.children, rfl⟩

theorem close [s.IsOpen] (h : s.OpenAlike o o') : Xml.Like s.Alike o.close o'.close := by
  have hchildren := List.rel_reverse h.children
  refine .element h.name.2 h.attributes ?_ hchildren
  generalize o.children.reverse = l, o'.children.reverse = l' at hchildren ⊢
  induction hchildren with
  | nil => exact .refl []
  | cons hfirst _ ih =>
      cases hfirst with
      | text ht => exact ht.append ih
      | element _ _ htext _ => exact htext.append ih

end OpenAlike

namespace Alike

variable [s.IsOpen]

theorem content? (hletters : s.HasLetters) {top top' : Open} (htop : s.OpenAlike top top') {outer outer' : List Open}
    (houter : List.Forall₂ s.OpenAlike outer outer') (h : s.Alike t t') :
    Both (fun a b => Xml.Like s.Alike a.1 b.1 ∧ s.Alike a.2 b.2) (Xml.content? top outer t)
      (Xml.content? top' outer' t') := by
  induction hn : t.length using Nat.strong_induction_on generalizing t t' top top' outer outer' with
  | h n ih =>
      rw [Xml.content?_eq, Xml.content?_eq]
      refine (h.token? hletters).bind fun next next' _ _ hnext => ?_
      by_cases hshorter : next.2.length < t.length
      · refine Both.ite_none ?_
        have hlater := hn ▸ hshorter
        obtain ⟨token, rest⟩ := next
        obtain ⟨token', rest'⟩ := next'
        obtain ⟨htoken, hrest⟩ := hnext
        cases htoken with
        | text hpart => exact ih _ hlater (htop.addText hpart) houter hrest rfl
        | aside => exact ih _ hlater htop.pause houter hrest rfl
        | opens hname hattributes isEmpty =>
            refine (OpenAlike.new? hname hattributes _ _).bind fun child child' _ _ hchild => ?_
            cases isEmpty with
            | true => exact ih _ hlater (htop.addElement hchild.close) houter hrest rfl
            | false => exact ih _ hlater hchild (.cons htop houter) hrest rfl
        | closes =>
            refine Both.none_ite ?_
            cases houter with
            | nil => exact Both.of ⟨htop.close, hrest⟩
            | cons hparent houter => exact ih _ hlater (hparent.addElement htop.close) houter hrest rfl
      · rw [if_neg hshorter]
        exact Both.none_left

theorem element? (hletters : s.HasLetters) (h : s.Alike t t') :
    Both (fun a b => Xml.Like s.Alike a.1 b.1 ∧ s.Alike a.2 b.2) (Xml.element? t) (Xml.element? t') := by
  refine (Both.of_rel (h.after? "<" (by decide) (by decide))).bind fun _ _ _ _ hrest => ?_
  refine (hrest.opening? hletters).bind fun next next' _ _ hnext => ?_
  obtain ⟨token, rest⟩ := next
  obtain ⟨token', rest'⟩ := next'
  obtain ⟨htoken, hrest⟩ := hnext
  cases htoken with
  | opens hname hattributes isEmpty =>
      refine (OpenAlike.new? hname hattributes [] []).bind fun root root' _ _ hroot => ?_
      cases isEmpty with
      | true => exact Both.of ⟨hroot.close, hrest⟩
      | false => exact hrest.content? hletters hroot .nil
  | _ => exact Both.none_left

/-- If texts that are written alike are both well formed, their trees are alike. -/
theorem parse? (hletters : s.HasLetters) (h : s.Alike t t') :
    Both (Xml.Like s.Alike) (Xml.parse? t) (Xml.parse? t') := by
  refine h.prolog?.bind fun _ _ _ _ hrest => ?_
  refine (hrest.element? hletters).bind fun a b _ _ hroot => ?_
  refine hroot.2.asides?.bind fun _ _ _ _ _ => ?_
  exact Both.ite_none (Both.of hroot.1)

end Alike

end Salts

end Manuscript
