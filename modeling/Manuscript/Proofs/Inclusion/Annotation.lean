import Manuscript.Inclusion.Expand
import Manuscript.Proofs.Text.Lines
import Manuscript.Proofs.Text.Trim
import Manuscript.Source.Line

/-!
The annotation that an inclusion directive puts in front of the included lines, and how it is read back.

Main statements: the language and the options of a directive are parts of its line (`of_directive?`), and the annotation
is read as what was written into it if the language is made of language characters (`hint?_hintLine`).
-/

namespace Manuscript.Inclusion

open Source (hint? isLanguageCharacter)

/-- The language of the lines that a directive includes. -/
def Directive.tag (d : Directive) : Text := d.language.getD (languageOfPath d.path)

theorem sublist_of_value? {closing : Char} {barred : List Char} {t value rest : Text}
    (h : value? closing barred t = some (value, rest)) : rest.Sublist t := by
  simp only [value?, Option.bind_eq_bind, Option.bind_eq_some_iff] at h
  obtain ⟨_, -, rest', hafter, heq⟩ := h
  obtain ⟨-, rfl⟩ := by simpa using heq
  exact (Text.sublist_of_after? hafter).trans (List.dropWhile_sublist _)

theorem sublist_of_gitClause? {t rest : Text} {revision : Revision} (h : gitClause? t = some (revision, rest)) :
    rest.Sublist t := by
  simp only [gitClause?, Option.bind_eq_bind, Option.bind_eq_some_iff] at h
  obtain ⟨rest₁, h₁, rest₂, h₂, rest₃, h₃, ⟨tag, rest₄⟩, h₄, rest₅, h₅, ⟨repo, rest₆⟩, h₆, heq⟩ := h
  obtain ⟨-, rfl⟩ := by simpa using heq
  calc
    rest₆.Sublist rest₅ := sublist_of_value? h₆
    rest₅.Sublist rest₄ := (Text.sublist_of_after? h₅).trans (Text.trimStart_sublist _)
    rest₄.Sublist rest₃ := sublist_of_value? h₄
    rest₃.Sublist rest₂ := (Text.sublist_of_after? h₃).trans (Text.trimStart_sublist _)
    rest₂.Sublist rest₁ := (Text.sublist_of_after? h₂).trans (Text.trimStart_sublist _)
    rest₁.Sublist t := Text.sublist_of_after? h₁

theorem beforeClause_sublist (t : Text) : (beforeClause t).Sublist t := by
  refine List.Sublist.trans ?_ (Text.trimEnd_prefix_self t).sublist
  rw [beforeClause]
  cases hbefore : Text.before? "," (Text.trimEnd t) with
  | none => exact List.Sublist.refl _
  | some head => exact Text.sublist_of_before? hbefore

theorem takeRevision_sublist (backwards t : Text) :
    (takeRevision backwards t).2.Sublist (backwards.reverse ++ t) := by
  induction t generalizing backwards with
  | nil => simp [takeRevision]
  | cons c t ih =>
      simp only [takeRevision]
      split
      · rename_i revision rest hclause
        exact (beforeClause_sublist _).append (sublist_of_gitClause? hclause)
      · have hlater := ih (c :: backwards)
        rwa [List.reverse_cons, List.append_assoc, List.singleton_append] at hlater

theorem takeOptions_sublist (t : Text) :
    (takeOptions t).2.Sublist t ∧ ∀ o, (takeOptions t).1 = some o → o.Sublist t := by
  unfold takeOptions
  split
  · exact ⟨List.Sublist.refl t, nofun⟩
  · rename_i before rest hcut
    obtain ⟨hbefore, hrest⟩ := Text.sublist_of_cut? hcut
    refine ⟨hbefore, fun o ho => ?_⟩
    simp only [Option.filter_eq_some_iff] at ho
    obtain rfl := Option.some.inj ho.1
    exact (Text.trim_sublist rest).trans hrest

theorem sublist_of_splitTarget? {depth : Nat} {t target rest : Text}
    (h : splitTarget? depth t = some (target, rest)) : rest.Sublist t := by
  induction t generalizing depth target with
  | nil =>
      obtain ⟨-, rfl⟩ := by simpa [splitTarget?] using h
      exact List.Sublist.refl []
  | cons c t ih =>
      simp only [splitTarget?] at h
      split at h
      · obtain ⟨-, rfl⟩ := by simpa using h
        exact List.sublist_cons_self c t
      · split at h
        · cases h
        · obtain ⟨⟨target', rest'⟩, hsplit, heq⟩ := Option.map_eq_some_iff.mp h
          obtain ⟨-, rfl⟩ := by simpa using heq
          exact (ih hsplit).trans (List.sublist_cons_self c t)

/-- A language stands in one of the attributes, if it was not there before them. -/
theorem mem_of_languageOf? {language : Option Text} {items : List Text} {l : Text}
    (h : languageOf? language items = some (some l)) :
    language = some l ∨ l ≠ [] ∧ ∃ item ∈ items, l.Sublist item := by
  induction items generalizing language with
  | nil => exact Or.inl (by simpa [languageOf?] using h)
  | cons item items ih =>
      have hlater : ∀ {language}, languageOf? language items = some (some l) →
          language = some l ∨ l ≠ [] ∧ ∃ other ∈ item :: items, l.Sublist other := by
        intro language hl
        rcases ih hl with heq | ⟨hne, other, hother, hsub⟩
        · exact Or.inl heq
        · exact Or.inr ⟨hne, other, List.mem_cons_of_mem item hother, hsub⟩
      simp only [languageOf?] at h
      split at h
      · exact hlater h
      · split at h
        · cases h
        · rename_i value hafter
          split at h
          · cases h
          · rename_i hblank
            rcases hlater h with heq | hmem
            · obtain rfl := Option.some.inj heq
              refine Or.inr ⟨Text.trim_ne_nil (by simpa using hblank), item, List.mem_cons_self, ?_⟩
              exact ((Text.trim_sublist value).trans (Text.sublist_of_after? hafter)).trans (Text.trim_sublist item)
            · exact Or.inr hmem

/-- The language and the options of a directive are parts of what stands between its brackets, and no language is
empty. -/
theorem of_body? {inner : Text} {d : Directive} (h : body? inner = some d) :
    (∀ l, d.language = some l → l ≠ [] ∧ l.Sublist inner) ∧ ∀ o, d.options = some o → o.Sublist inner := by
  have hrevision : (takeRevision [] inner).2.Sublist inner := takeRevision_sublist [] inner
  obtain ⟨hbefore, hoptions⟩ := takeOptions_sublist (takeRevision [] inner).2
  simp only [body?, Option.bind_eq_bind, Option.bind_eq_some_iff] at h
  obtain ⟨⟨target, attributes⟩, hsplit, language, hlanguage, ⟨path, subset⟩, -, hd⟩ := h
  split at hd
  · cases hd
  · obtain rfl := Option.some.inj hd
    constructor
    · rintro l rfl
      rcases mem_of_languageOf? hlanguage with heq | ⟨hne, item, hitem, hsub⟩
      · cases heq
      · refine ⟨hne, ?_⟩
        calc
          l.Sublist item := hsub
          item.Sublist attributes := Text.sublist_of_mem_splitOn hitem
          attributes.Sublist (takeOptions (takeRevision [] inner).2).2 := sublist_of_splitTarget? hsplit
          (takeOptions (takeRevision [] inner).2).2.Sublist inner := hbefore.trans hrevision
    · intro o ho
      exact (hoptions o ho).trans hrevision

/-- Neither the language nor the options of a directive hold a line feed. -/
theorem of_directive? {line : Text} {d : Directive} (h : directive? line = some (.ok d)) :
    (∀ l, d.language = some l → l ≠ [] ∧ '\n' ∉ l) ∧ ∀ o, d.options = some o → '\n' ∉ o := by
  obtain ⟨inner, hinner, hparsed⟩ := Option.map_eq_some_iff.mp h
  have hbreak : '\n' ∉ inner := by
    simp only [inner?, Option.bind_eq_bind, Option.bind_eq_some_iff] at hinner
    obtain ⟨_, -, _, -, inner', -, heq⟩ := hinner
    split at heq
    · cases heq
    · rename_i hbreak
      obtain rfl := Option.some.inj heq
      exact hbreak
  cases hbody : body? inner with
  | none => simp [hbody] at hparsed
  | some d' =>
      simp only [hbody, Except.ok.injEq] at hparsed
      subst hparsed
      obtain ⟨hlanguage, hoptions⟩ := of_body? hbody
      constructor
      · intro l hl
        obtain ⟨hne, hsub⟩ := hlanguage l hl
        exact ⟨hne, fun hmem => hbreak (hsub.subset hmem)⟩
      · exact fun o ho hmem => hbreak ((hoptions o ho).subset hmem)

/-- What the line of a directive starts with. -/
theorem exists_of_directive? {line : Text} {parsed : Except Failure Directive} (h : directive? line = some parsed) :
    ∃ rest after, Text.trimStart line = ("%=" : Text) ++ rest ∧ Text.trimStart rest = ("<<(" : Text) ++ after := by
  obtain ⟨inner, hinner, -⟩ := Option.map_eq_some_iff.mp h
  simp only [inner?, Option.bind_eq_bind, Option.bind_eq_some_iff] at hinner
  obtain ⟨rest, hrest, after, hafter, -⟩ := hinner
  obtain ⟨more, hmore⟩ := Text.trimEnd_prefix_self (Text.trimStart line)
  have htrim : Text.trim line = ("%=" : Text) ++ rest := Text.eq_append_of_after? hrest
  have hopening : Text.trimStart rest = ("<<(" : Text) ++ after := Text.eq_append_of_after? hafter
  refine ⟨rest ++ more, after ++ more, ?_, ?_⟩
  · rw [← hmore, ← List.append_assoc, ← htrim]
    rfl
  · have hne : (Text.trimStart rest).isEmpty = false := by
      rw [hopening]
      rfl
    rw [Text.trimStart, List.dropWhile_append, ← Text.trimStart, hne, hopening, List.append_assoc]
    rfl

/-- A line that holds a directive is no marker and no hint. -/
theorem startsWith_of_directive? {line : Text} {parsed : Except Failure Directive} (h : directive? line = some parsed) :
    Text.startsWith "%=" (Text.trimStart line) = true ∧ hint? line = none := by
  obtain ⟨rest, after, hline, hrest⟩ := exists_of_directive? h
  have hlang : Text.after? "lang:" (("<<(" : Text) ++ after) = none := rfl
  constructor
  · rw [hline, Text.startsWith, Text.after?_append]
    rfl
  · rw [hint?, hline]
    simp only [Text.after?_append, Option.bind_eq_bind, Option.bind_some, hrest, hlang, Option.bind_none]

/-- The languages of files have names that annotations can carry. -/
theorem languageOfPath_ne_nil (path : Text) : languageOfPath path ≠ [] ∧ (languageOfPath path).all isLanguageCharacter := by
  have hrows : ∀ row ∈ languageTable, row.1 ≠ [] ∧ row.1.all isLanguageCharacter := by decide +kernel
  have htext : ("text" : Text) ≠ [] ∧ ("text" : Text).all isLanguageCharacter := by decide +kernel
  unfold languageOfPath
  split
  · exact htext
  · split
    · rename_i hfind
      exact hrows _ (List.mem_of_find?_eq_some hfind)
    · exact htext

/-- The letters and digits of ASCII lie between `0` and `z`. -/
theorem toNat_of_isAlphanum {c : Char} (h : c.isAlphanum = true) : 48 ≤ c.toNat ∧ c.toNat ≤ 122 := by
  have hbetween {first last : UInt32} (h : first ≤ c.val ∧ c.val ≤ last) :
      first.toNat ≤ c.toNat ∧ c.toNat ≤ last.toNat :=
    h.imp UInt32.le_iff_toNat_le.mp UInt32.le_iff_toNat_le.mp
  obtain hletter | hdigit := Bool.or_eq_true_iff.mp h
  · obtain hupper | hlower := Bool.or_eq_true_iff.mp hletter
    · obtain ⟨hlow, hhigh⟩ : 65 ≤ c.toNat ∧ c.toNat ≤ 90 := hbetween (of_decide_eq_true hupper)
      omega
    · obtain ⟨hfirst, hlast⟩ := Bool.and_eq_true_iff.mp hlower
      obtain ⟨hlow, hhigh⟩ : 97 ≤ c.toNat ∧ c.toNat ≤ 122 :=
        hbetween ⟨of_decide_eq_true hfirst, of_decide_eq_true hlast⟩
      omega
  · obtain ⟨hfirst, hlast⟩ := Bool.and_eq_true_iff.mp hdigit
    obtain ⟨hlow, hhigh⟩ : 48 ≤ c.toNat ∧ c.toNat ≤ 57 :=
      hbetween ⟨of_decide_eq_true hfirst, of_decide_eq_true hlast⟩
    omega

theorem isBlank_of_isLanguageCharacter {c : Char} (h : isLanguageCharacter c = true) : isBlank c = false := by
  have hrange : 33 ≤ c.toNat ∧ c.toNat ≤ 122 := by
    simp only [isLanguageCharacter, Bool.or_eq_true, beq_iff_eq] at h
    obtain ((((h | rfl) | rfl) | rfl) | rfl) | rfl := h
    · obtain ⟨hlow, hhigh⟩ := toNat_of_isAlphanum h
      omega
    all_goals decide
  simp only [isBlank, Bool.or_eq_false_iff, Bool.and_eq_false_iff, decide_eq_false_iff_not, beq_eq_false_iff_ne]
  omega

theorem all_of_hint? {line language options : Text} (h : hint? line = some (language, options)) :
    language.all isLanguageCharacter = true := by
  have htake : ∀ t : Text, (t.takeWhile isLanguageCharacter).all isLanguageCharacter = true :=
    fun t => List.all_takeWhile
  simp only [hint?, Option.bind_eq_bind, Option.bind_eq_some_iff] at h
  obtain ⟨rest, -, rest', -, h⟩ := h
  split at h
  · cases h
  · split at h
    · obtain ⟨rfl, -⟩ := by simpa using h
      exact htake _
    · simp only [Option.bind_eq_some_iff] at h
      obtain ⟨_, -, _, -, heq⟩ := h
      obtain ⟨rfl, -⟩ := by simpa using heq
      exact htake _

theorem hintLine_eq (d : Directive) :
    hintLine d = ("%= lang:" : Text) ++ (d.tag ++ (d.options.map fun o : Text => (", options: " ++ o : Text)).getD []) :=
  List.append_assoc _ _ _

theorem lineFeed_notMem_hintLine {line : Text} {d : Directive} (h : directive? line = some (.ok d)) :
    '\n' ∉ hintLine d := by
  obtain ⟨hlanguage, hoptions⟩ := of_directive? h
  have hlead : '\n' ∉ ("%= lang:" : Text) := by decide
  have hmiddle : '\n' ∉ (", options: " : Text) := by decide
  have htag : '\n' ∉ d.tag := by
    unfold Directive.tag
    cases hd : d.language with
    | some l => exact (hlanguage l hd).2
    | none =>
        intro hmem
        have hletter := List.all_eq_true.mp (languageOfPath_ne_nil d.path).2 _ hmem
        exact absurd hletter (by decide)
  rw [hintLine_eq, List.mem_append, List.mem_append]
  rintro (hmem | hmem | hmem)
  · exact hlead hmem
  · exact htag hmem
  · cases hd : d.options with
    | none =>
        rw [hd] at hmem
        cases hmem
    | some o =>
        rw [hd, Option.map_some, Option.getD_some, List.mem_append] at hmem
        rcases hmem with hmem | hmem
        · exact hmiddle hmem
        · exact hoptions o hd hmem

/-- After the lead of an annotation, its language is read as far as there are language characters. -/
theorem hint?_append {language rest : Text} (hne : language ≠ []) (hall : language.all isLanguageCharacter = true)
    (hrest : ∀ c ∈ rest.head?, isLanguageCharacter c = false) :
    hint? (("%= lang:" : Text) ++ (language ++ rest)) =
      if Text.trimStart rest = [] then some (language, [])
      else (Text.after? "," (Text.trimStart rest)).bind fun rest =>
        (Text.after? "options:" (Text.trimStart rest)).bind fun options => some (language, Text.trim options) := by
  have hlead (t : Text) : ("%= lang:" : Text) ++ t = ("%=" : Text) ++ ' ' :: (("lang:" : Text) ++ t) := rfl
  have hfirst (t : Text) : Text.trimStart (("%=" : Text) ++ t) = ("%=" : Text) ++ t := Text.trimStart_cons rfl _
  have hsecond (t : Text) : Text.trimStart (' ' :: (("lang:" : Text) ++ t)) = ("lang:" : Text) ++ t := rfl
  have hthird : Text.trimStart (language ++ rest) = language ++ rest := by
    cases language with
    | nil => exact absurd rfl hne
    | cons c language =>
        rw [List.all_cons, Bool.and_eq_true] at hall
        exact Text.trimStart_cons (isBlank_of_isLanguageCharacter hall.1) (language ++ rest)
  have hsplit : (language ++ rest).takeWhile isLanguageCharacter = language ∧
      (language ++ rest).dropWhile isLanguageCharacter = rest := by
    have hmem : ∀ c ∈ language, isLanguageCharacter c = true := List.all_eq_true.mp hall
    rw [List.takeWhile_append_of_pos hmem, List.dropWhile_append_of_pos hmem]
    cases rest with
    | nil => exact ⟨List.append_nil language, rfl⟩
    | cons c rest =>
        have hc : ¬isLanguageCharacter c = true := by simp [hrest c rfl]
        rw [List.takeWhile_cons_of_neg hc, List.dropWhile_cons_of_neg hc, List.append_nil]
        exact ⟨rfl, rfl⟩
  rw [hlead, hint?, hfirst, Text.after?_append]
  simp only [Option.bind_eq_bind, Option.bind_some, hsecond, Text.after?_append, hthird, hsplit, if_neg hne]
  rfl

/-- An annotation gives back what was written into it if the language can be read. -/
theorem hint?_hintLine {d : Directive} (hne : d.tag ≠ []) (hall : d.tag.all isLanguageCharacter = true) :
    hint? (hintLine d) = some (d.tag, Text.trim (d.options.getD [])) := by
  rw [hintLine_eq]
  cases d.options with
  | none =>
      rw [Option.map_none, Option.getD_none, hint?_append hne hall (by simp)]
      rfl
  | some o =>
      have hrest : (", options: " : Text) ++ o = ',' :: ' ' :: (("options:" : Text) ++ ' ' :: o) := rfl
      have hcomma (t : Text) : Text.trimStart (',' :: t) = ',' :: t := Text.trimStart_cons (by decide) t
      have hafter (t : Text) : Text.after? "," (',' :: t) = some t := rfl
      have hblank : Text.trimStart (' ' :: (("options:" : Text) ++ ' ' :: o)) = ("options:" : Text) ++ ' ' :: o := rfl
      have hhead : ∀ c ∈ (',' :: ' ' :: (("options:" : Text) ++ ' ' :: o)).head?, isLanguageCharacter c = false := by
        rintro c hc
        obtain rfl := Option.some.inj hc
        decide
      rw [Option.map_some, Option.getD_some, Option.getD_some, hrest, hint?_append hne hall hhead, hcomma,
        if_neg (List.cons_ne_nil _ _), hafter, Option.bind_some, hblank, Text.after?_append, Option.bind_some,
        Text.trim_cons_blank rfl]

end Manuscript.Inclusion
