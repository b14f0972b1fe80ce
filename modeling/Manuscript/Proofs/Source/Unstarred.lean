import Manuscript.Proofs.Related
import Manuscript.Proofs.Source.Calls
import Manuscript.Proofs.Source.Read
import Manuscript.Proofs.Text.Trim

/-!
Lines of prose without the stars of their `\verb*` spans.

Main statement: the line that a line of prose comes back as is no marker, no hint, no raw HTML and no comment unless the
line is one (`Unstars.isOrdinary`, `Unstars.isComment_eq`).
-/

namespace Manuscript.Source

/-- A text, and what is left of it without the stars of some `\verb*` commands. -/
inductive Unstars : Text → Text → Prop
  | nil : Unstars [] []
  | keep (c : Char) {t t' : Text} (rest : Unstars t t') : Unstars (c :: t) (c :: t')
  | drop {t t' : Text} (rest : Unstars t t') : Unstars (verbCommand ++ '*' :: t) (verbCommand ++ t')

namespace Unstars

variable {t t' : Text}

theorem refl (t : Text) : Unstars t t := by
  induction t with
  | nil => exact .nil
  | cons c t ih => exact .keep c ih

theorem append {s s' : Text} (hs : Unstars s s') (ht : Unstars t t') : Unstars (s ++ t) (s' ++ t') := by
  induction hs with
  | nil => exact ht
  | keep c _ ih => exact .keep c ih
  | drop _ ih =>
      rw [List.append_assoc, List.append_assoc]
      exact .drop ih

theorem item (i : Item) : Unstars i.source i.restored := by
  cases i with
  | verb isStarred delimiter body =>
      cases isStarred with
      | false => exact refl _
      | true =>
          have hsource : Item.source (.verb true delimiter body) = verbCommand ++ '*' :: (delimiter :: body ++ [delimiter]) := by
            simp [Item.source]
          have hrestored : Item.restored (.verb true delimiter body) = verbCommand ++ (delimiter :: body ++ [delimiter]) := by
            simp [Item.restored, Item.source]
          rw [hsource, hrestored]
          exact .drop (refl _)
  | _ => exact refl _

/-- A line of prose comes back without stars. -/
theorem flatMap_restored (line : Text) : Unstars line ((items line).flatMap Item.restored) := by
  have hitems : ∀ is : List Item, Unstars (is.flatMap Item.source) (is.flatMap Item.restored) := by
    intro is
    induction is with
    | nil => exact .nil
    | cons i is ih => exact (item i).append ih
  have h := hitems (items line)
  rwa [flatMap_source_items] at h

theorem eq_nil_iff (h : Unstars t t') : t = [] ↔ t' = [] := by
  cases h with
  | nil => exact Iff.rfl
  | keep c rest => exact iff_of_false (List.cons_ne_nil _ _) (List.cons_ne_nil _ _)
  | drop rest => exact iff_of_false (List.cons_ne_nil _ _) (List.cons_ne_nil _ _)

/-- Where there is no backslash, there is no star to lose. -/
theorem eq_iff (h : Unstars t t') {s : Text} (hs : '\\' ∉ s) : t = s ↔ t' = s := by
  induction h generalizing s with
  | nil => exact Iff.rfl
  | keep c _ ih =>
      cases s with
      | nil => exact iff_of_false (List.cons_ne_nil _ _) (List.cons_ne_nil _ _)
      | cons d s =>
          rw [List.cons.injEq, List.cons.injEq, ih fun hmem => hs (List.mem_cons_of_mem d hmem)]
  | drop =>
      refine iff_of_false ?_ ?_ <;> rintro rfl <;> exact hs List.mem_cons_self

/-- What is read at the start of a text, such as a blank, ends before any command. -/
theorem span (h : Unstars t t') {p : Char → Bool} (hp : p '\\' = false) :
    t.takeWhile p = t'.takeWhile p ∧ Unstars (t.dropWhile p) (t'.dropWhile p) := by
  have hcommand : ∀ u : Text, (verbCommand ++ u).takeWhile p = [] ∧ (verbCommand ++ u).dropWhile p = verbCommand ++ u :=
    fun u => ⟨List.takeWhile_cons_of_neg (Bool.eq_false_iff.mp hp), List.dropWhile_cons_of_neg (Bool.eq_false_iff.mp hp)⟩
  induction h with
  | nil => exact ⟨rfl, .nil⟩
  | @keep c t t' rest ih =>
      by_cases hc : p c = true
      · simp only [List.takeWhile_cons_of_pos hc, List.dropWhile_cons_of_pos hc, List.cons.injEq, true_and]
        exact ih
      · simp only [List.takeWhile_cons_of_neg hc, List.dropWhile_cons_of_neg hc, true_and]
        exact rest.keep c
  | drop rest =>
      simp only [hcommand, true_and]
      exact rest.drop

theorem trimStart (h : Unstars t t') : Unstars (Text.trimStart t) (Text.trimStart t') :=
  (h.span (p := isBlank) (by decide)).2

/-- Both texts begin with a wording without backslashes, or neither does. -/
theorem after? (h : Unstars t t') {lead : Text} (hlead : '\\' ∉ lead) :
    Option.Rel Unstars (Text.after? lead t) (Text.after? lead t') := by
  induction lead generalizing t t' with
  | nil =>
      simp only [Text.after?]
      exact .some h
  | cons l lead ih =>
      obtain ⟨hl, hlead⟩ : '\\' ≠ l ∧ '\\' ∉ lead := by simpa using hlead
      have hcommand : ∀ u : Text, Text.after? (l :: lead) (verbCommand ++ u) = none := fun u => if_neg (Ne.symm hl)
      cases h with
      | nil => exact .none
      | keep c rest =>
          by_cases hc : l = c
          · simp only [Text.after?, if_pos hc]
            exact ih rest hlead
          · simp only [Text.after?, if_neg hc]
            exact .none
      | drop rest =>
          rw [hcommand, hcommand]
          exact .none

theorem startsWith (h : Unstars t t') {lead : Text} (hlead : '\\' ∉ lead) :
    Text.startsWith lead t = Text.startsWith lead t' :=
  isSome_eq_of_rel (h.after? hlead)

/-- A command with another name than that of `\verb` begins both texts, or neither. -/
theorem afterCommand? (h : Unstars t t') {c : Char} {name : Text} (hc : 'v' ≠ c) (hname : '\\' ∉ c :: name) :
    Option.Rel Unstars (Text.after? ('\\' :: c :: name) t) (Text.after? ('\\' :: c :: name) t') := by
  have hcommand : ∀ u : Text, Text.after? ('\\' :: c :: name) (verbCommand ++ u) = none := fun u => if_neg (Ne.symm hc)
  cases h with
  | nil => exact .none
  | keep d rest =>
      by_cases hd : '\\' = d
      · rw [Text.after?, Text.after?, if_pos hd, if_pos hd]
        exact rest.after? hname
      · rw [Text.after?, Text.after?, if_neg hd, if_neg hd]
        exact .none
  | drop rest =>
      rw [hcommand, hcommand]
      exact .none

/-- A closing brace stands at the same place in both texts. -/
theorem cut? (h : Unstars t t') :
    Option.Rel (fun a b => Unstars a.1 b.1) (Text.cut? ['\x7d'] t) (Text.cut? ['\x7d'] t') := by
  induction h with
  | nil => exact .none
  | @keep c t t' rest ih =>
      by_cases hc : '\x7d' = c
      · subst hc
        exact .some .nil
      · have hlead : '\x7d' ∉ [c] := by simpa using hc
        have hcut := Text.cut?_append_of_notMem hlead
        simp only [List.singleton_append] at hcut
        rw [hcut, hcut]
        exact rel_map ih fun _ _ hhead => hhead.keep c
  | @drop t t' rest ih =>
      have hstarred : '\x7d' ∉ verbCommand ++ ['*'] := by decide
      have hbare : '\x7d' ∉ verbCommand := by decide
      have hcut := Text.cut?_append_of_notMem hstarred
      simp only [List.append_assoc, List.singleton_append] at hcut
      rw [hcut, Text.cut?_append_of_notMem hbare]
      exact rel_map ih fun _ _ hhead => hhead.drop

theorem marker? (h : Unstars t t') {c : Char} {name : Text} (hc : 'v' ≠ c) (hname : '\\' ∉ c :: name) :
    Option.Rel Unstars (Source.marker? ('\\' :: c :: name) t) (Source.marker? ('\\' :: c :: name) t') :=
  rel_bind (h.trimStart.afterCommand? hc hname) fun _ _ _ _ hrest =>
    rel_bind hrest.cut? fun _ _ _ _ hhead => .some hhead

/-- Both lines are the same marker of an environment whose name holds no command, or neither is one. -/
theorem marker?_eq_some_iff (h : Unstars t t') {name : Text} (hname : '\\' ∉ name) :
    (begin? t = some name ↔ begin? t' = some name) ∧ (end? t = some name ↔ end? t' = some name) :=
  ⟨eq_some_iff_of_rel (h.marker? (by decide) (by decide)) fun hread => hread.eq_iff hname,
    eq_some_iff_of_rel (h.marker? (by decide) (by decide)) fun hread => hread.eq_iff hname⟩

theorem valid (h : Unstars t t') (hvalid : (Segment.plain t).Valid) : (Segment.plain t').Valid := by
  have hnames : ∀ name ∈ literalEnvironments ++ mathEnvironments, '\\' ∉ name := by decide +kernel
  intro name hcaptured
  obtain ⟨hbegin, hend⟩ := h.marker?_eq_some_iff (hnames name (List.mem_append.mpr (isCaptured_iff.mp hcaptured)))
  obtain ⟨hne, hne'⟩ := hvalid name hcaptured
  exact ⟨mt hbegin.mpr hne, mt hend.mpr hne'⟩

theorem isComment_eq (h : Unstars t t') : isComment t = isComment t' := by
  have hpercent : Text.startsWith "%" (Text.trimStart t) = Text.startsWith "%" (Text.trimStart t') :=
    h.trimStart.startsWith (by decide)
  have hannotation : Text.startsWith "%=" (Text.trimStart t) = Text.startsWith "%=" (Text.trimStart t') :=
    h.trimStart.startsWith (by decide)
  simp only [isComment, hpercent, hannotation]

theorem hint?_eq_none (h : Unstars t t') (hnone : hint? t = none) : hint? t' = none := by
  have hrel : Option.Rel (fun _ _ => True) (hint? t) (hint? t') := by
    refine rel_bind (h.trimStart.after? (by decide)) fun _ _ _ _ h => ?_
    refine rel_bind (h.trimStart.after? (by decide)) fun _ _ _ _ h => ?_
    obtain ⟨hlanguage, hafter⟩ := h.trimStart.span (p := isLanguageCharacter) (by decide)
    simp only [hlanguage, hafter.trimStart.eq_nil_iff]
    split
    · exact .none
    · split
      · exact .some trivial
      · refine rel_bind (hafter.trimStart.after? (by decide)) fun _ _ _ _ h => ?_
        exact rel_bind (h.trimStart.after? (by decide)) fun _ _ _ _ _ => .some trivial
  rw [hnone] at hrel
  cases hread : hint? t' with
  | none => rfl
  | some read => rw [hread] at hrel; cases hrel

/-- A text that is nothing but blanks holds no command. -/
theorem eq_of_isBlankOnly (h : Unstars t t') (hblank : Text.isBlankOnly t = true) : t' = t :=
  (h.eq_iff fun hmem => absurd (List.all_eq_true.mp hblank _ hmem) (by decide)).mp rfl

/-- After the blanks around a text are gone, it still begins with a wording that ends with no blank. -/
theorem startsWith_trim (h : Unstars t t') (lead : Text) (c : Char) (hlead : '\\' ∉ lead ++ [c])
    (hc : isBlank c = false) (hstarts : Text.startsWith (lead ++ [c]) (Text.trim t) = true) :
    Text.startsWith (lead ++ [c]) (Text.trim t') = true := by
  obtain ⟨rest, hrest⟩ := Option.isSome_iff_exists.mp hstarts
  obtain ⟨more, hmore⟩ := Text.trimEnd_prefix_self (Text.trimStart t)
  have hstart : Text.startsWith (lead ++ [c]) (Text.trimStart t) = true := by
    rw [← hmore, ← Text.trim, Text.eq_append_of_after? hrest, List.append_assoc, Text.startsWith, Text.after?_append]
    rfl
  rw [h.trimStart.startsWith hlead] at hstart
  obtain ⟨rest', hrest'⟩ := Option.isSome_iff_exists.mp hstart
  obtain ⟨tail, htail⟩ := Text.exists_trimEnd_append hc lead rest'
  have htrim : Text.trim t' = (lead ++ [c]) ++ tail := by
    rw [Text.trim, Text.eq_append_of_after? hrest']
    simpa using htail
  rw [htrim, Text.startsWith, Text.after?_append]
  rfl

theorem rawHtml?_eq_none (h : Unstars t t') (hnone : rawHtml? t = none) : rawHtml? t' = none := by
  have hafter : Option.Rel Unstars (Text.after? "%=" (Text.trimStart t)) (Text.after? "%=" (Text.trimStart t')) :=
    h.trimStart.after? (by decide)
  unfold rawHtml? at hnone ⊢
  generalize Text.after? "%=" (Text.trimStart t) = read, Text.after? "%=" (Text.trimStart t') = read' at hafter hnone ⊢
  cases hafter with
  | none => rfl
  | @some rest rest' hrest =>
      simp only [Option.bind_eq_bind, Option.bind_some, ite_eq_left_iff, reduceCtorEq, imp_false, not_not] at hnone ⊢
      obtain hempty | hlang | hdirective := hnone
      · have hblank : Text.isBlankOnly rest = true := by
          by_contra hblank
          exact Text.trim_ne_nil ((Bool.not_eq_true _).mp hblank) hempty
        rw [hrest.eq_of_isBlankOnly hblank]
        exact .inl hempty
      · exact .inr (.inl (hrest.startsWith_trim "lang" ':' (by decide) (by decide) hlang))
      · exact .inr (.inr (hrest.startsWith_trim "<<" '(' (by decide) (by decide) hdirective))

/-- An ordinary line is an ordinary line without its stars, too. -/
theorem isOrdinary (h : Unstars t t') (ht : IsOrdinary t) : IsOrdinary t' :=
  ⟨h.hint?_eq_none ht.hint_eq, h.rawHtml?_eq_none ht.rawHtml_eq, h.valid ht.valid⟩

end Unstars

end Manuscript.Source
