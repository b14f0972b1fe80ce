import Manuscript.Proofs.Source.Calls
import Manuscript.Text.Letter

/-!
Names as prose holds them: every run of characters beyond ASCII has a token.

Main statement: a name is written as it is if and only if it is ASCII (`tokenized_eq_self_iff`).
-/

namespace Manuscript.Source

/-- A character that names are made of: a letter or digit of any script, a colon, a hyphen or an underscore. -/
def isNameCharacter (c : Char) : Bool := isLetterOrNumber c || c == ':' || c == '-' || c == '_'

/-- A text as it is written in prose, with tokens for its spans. -/
def tokenized (salt t : Text) : Text := (itemTokens ⟨.empty salt, .inMemory⟩ (items t)).1

/-- A text in which no command, no mathematics and no protected character begins. -/
def IsBare (t : Text) : Prop := ∀ c ∈ t, c ≠ '\\' ∧ c ≠ '$'

/-- The items of bare texts: characters of ASCII, and runs of characters that are not. -/
inductive Item.IsBare : Item → Prop
  | character {c : Char} (h : isAscii c = true) : IsBare (.character c)
  | beyondAscii {first : Char} (h : isAscii first = false) (others : Text) : IsBare (.beyondAscii first others)

theorem isBare_of_isNameCharacter {t : Text} (h : ∀ c ∈ t, isNameCharacter c = true) : IsBare t := by
  have hbackslash : isNameCharacter '\\' = false := by decide +kernel
  have hdollar : isNameCharacter '$' = false := by decide +kernel
  intro c hc
  constructor
  · rintro rfl
    rw [h _ hc] at hbackslash
    cases hbackslash
  · rintro rfl
    rw [h _ hc] at hdollar
    cases hdollar

theorem IsBare.cons {c : Char} {t : Text} (hc : c ≠ '\\' ∧ c ≠ '$') (ht : IsBare t) : IsBare (c :: t) :=
  List.forall_mem_cons.mpr ⟨hc, ht⟩

theorem after?_cons_eq_none {l c : Char} {lead t : Text} (h : c ≠ l) : Text.after? (l :: lead) (c :: t) = none := by
  rw [Text.after?, if_neg (Ne.symm h)]

/-- In a bare text the first item is a character, or a run beyond ASCII. -/
theorem item?_of_isBare {t : Text} (h : IsBare t) : item? t = character? t := by
  cases t with
  | nil => rfl
  | cons c t =>
      obtain ⟨hbackslash, hdollar⟩ := h c List.mem_cons_self
      have hcommand (lead : Text) : Text.after? ('\\' :: lead) (c :: t) = none := after?_cons_eq_none hbackslash
      have hescaped : escaped? (c :: t) = none := by
        unfold escaped?
        split
        · rename_i heq
          exact absurd (List.cons.inj heq).1 hbackslash
        · rfl
      have hverb : verb? (c :: t) = none := by
        rw [verb?]
        exact congrArg (Option.bind · _) (hcommand _)
      have hlink : link? (c :: t) = none := by
        have hwith : ∀ command, linkWith? command (c :: t) = none := by
          intro command
          cases command <;> exact congrArg (Option.bind · _) (hcommand _)
        rw [link?, hwith, hwith]
        rfl
      have hmath : math? (c :: t) = none := by
        have hfence : Fence.of? (c :: t) = none := by
          refine List.find?_eq_none.mpr fun fence _ hstarts => ?_
          have hnone : Text.after? fence.opening (c :: t) = none := by
            cases fence
            · exact hcommand _
            · exact hcommand _
            · exact after?_cons_eq_none hdollar
            · exact after?_cons_eq_none hdollar
          rw [Text.startsWith, hnone] at hstarts
          cases hstarts
        rw [math?, hfence]
        rfl
      simp only [item?, hescaped, hverb, hmath, hlink]
      rfl

/-- A bare text has bare items. -/
theorem isBare_of_mem_items {t : Text} (h : IsBare t) {i : Item} (hi : i ∈ items t) : i.IsBare := by
  fun_induction items t with
  | case1 => cases hi
  | case2 t first rest hfirst _ ih =>
      have hsplit := eq_append_of_item? hfirst
      rcases List.mem_cons.mp hi with rfl | hmem
      · rw [item?_of_isBare h] at hfirst
        cases t with
        | nil => cases hfirst
        | cons c t =>
            rw [character?] at hfirst
            split at hfirst
            · rename_i hascii
              cases hfirst
              exact .character hascii
            · rename_i hascii
              cases hfirst
              exact .beyondAscii ((Bool.not_eq_true _).mp hascii) _
      · refine ih (fun c hc => h c ?_) hmem
        rw [hsplit]
        exact List.mem_append_right _ hc

theorem tokenized_eq (salt t : Text) : tokenized salt t = Draft.text ((items t).flatMap (Item.draft salt)) := by
  rw [tokenized, itemTokens_eq]
  rfl

theorem isAscii_of_mem_digest {parts : List Text} {c : Char} (h : c ∈ digest parts) : isAscii c = true := by
  have hall : hexDigits.all isAscii = true := by decide
  exact List.all_eq_true.mp hall c (mem_hexDigits_of_mem_digest h)

/-- What is written for a bare text is ASCII. -/
theorem isAscii_of_mem_tokenized {salt t : Text} (h : IsBare t) {c : Char} (hc : c ∈ tokenized salt t) :
    isAscii c = true := by
  rw [tokenized_eq] at hc
  obtain ⟨p, hp, hmem⟩ := List.mem_flatMap.mp hc
  obtain ⟨i, hi, hpart⟩ := List.mem_flatMap.mp hp
  cases isBare_of_mem_items h hi with
  | character hascii =>
      obtain rfl := List.mem_singleton.mp hpart
      obtain rfl := List.mem_singleton.mp hmem
      exact hascii
  | beyondAscii hfirst others =>
      obtain rfl := List.mem_singleton.mp hpart
      exact isAscii_of_mem_digest hmem

theorem mem_of_mem_items {t : Text} {i : Item} (hi : i ∈ items t) {c : Char} (hc : c ∈ i.source) : c ∈ t := by
  rw [← flatMap_source_items t]
  exact List.mem_flatMap.mpr ⟨i, hi, hc⟩

theorem tokenized_of_isAscii {salt t : Text} (h : IsBare t) (hascii : ∀ c ∈ t, isAscii c = true) :
    tokenized salt t = t := by
  have hdraft : ∀ i ∈ items t, i.draft salt = Draft.plain i.source := by
    intro i hi
    cases isBare_of_mem_items h hi with
    | character => rfl
    | beyondAscii hfirst others =>
        rw [hascii _ (mem_of_mem_items hi List.mem_cons_self)] at hfirst
        cases hfirst
  calc
    tokenized salt t = Draft.text ((items t).flatMap fun i => Draft.plain i.source) := by
      rw [tokenized_eq, List.flatMap_congr hdraft]
    _ = Draft.text (Draft.plain ((items t).flatMap Item.source)) := by
      rw [Draft.plain, List.map_flatMap]
      rfl
    _ = t := by rw [flatMap_source_items, Draft.text_plain]

/-- A name is written as it is just when it is ASCII. -/
theorem tokenized_eq_self_iff {salt t : Text} (h : IsBare t) :
    tokenized salt t = t ↔ ∀ c ∈ t, isAscii c = true := by
  constructor
  · intro heq c hc
    rw [← heq] at hc
    exact isAscii_of_mem_tokenized h hc
  · exact tokenized_of_isAscii h

end Manuscript.Source
