import Mathlib.Data.List.TakeWhile
import Manuscript.Proofs.Footnotes.Collect

/-!
Inter-sentence spaces after footnotes.  Each footnote is put right by what stands around it among its siblings, and
nothing else is touched.

Main statement: a space follows just the footnotes that end a sentence and have more after them, and doing it again
changes nothing, if no footnote has a space too many for that (`isSpaced_iff`).
-/

namespace Manuscript.Footnotes

/-- What stands around a footnote among its siblings. -/
structure Site where
  /-- The text directly before it ends a sentence. -/
  endsSentence : Bool
  /-- How many inter-sentence spaces follow it directly. -/
  spaces : Nat
  /-- There is more after it than blanks and inter-sentence spaces. -/
  hasMore : Bool
  deriving DecidableEq

namespace Site

/-- The site of a footnote between a sibling before it and the siblings after it. -/
def of (before : Option Node) (later : List Node) : Site :=
  ⟨before.any Footnotes.endsSentence, (later.takeWhile isSpaceMark).length, later.any isSubstance⟩

/-- The site once the spaces are put right: one more if there is none and there should be, or one less. -/
def spaced (s : Site) : Site :=
  { s with
    spaces :=
      if s.endsSentence then if s.hasMore then max s.spaces 1 else s.spaces
      else s.spaces - 1 }

/-- Is there no space too many?  None can go where a sentence ends and nothing follows, and elsewhere only one. -/
def IsClear (s : Site) : Prop :=
  if s.endsSentence then s.hasMore = true ∨ s.spaces = 0 else s.spaces ≤ 1

theorem spaced_spaced_iff (s : Site) : s.spaced.spaced = s.spaced ↔ s.endsSentence = true ∨ s.spaces ≤ 1 := by
  obtain ⟨endsSentence, spaces, hasMore⟩ := s
  cases endsSentence <;> cases hasMore <;> simp [spaced] <;> omega

theorem isClear_iff (s : Site) :
    s.IsClear ↔ (0 < s.spaced.spaces ↔ s.spaced.endsSentence = true ∧ s.spaced.hasMore = true) := by
  obtain ⟨endsSentence, spaces, hasMore⟩ := s
  cases endsSentence <;> cases hasMore <;> grind [IsClear, spaced]

theorem IsClear.spaced_spaced {s : Site} (h : s.IsClear) : s.spaced.spaced = s.spaced := by
  rw [spaced_spaced_iff]
  unfold IsClear at h
  split at h
  · rename_i hends
    exact .inl hends
  · exact .inr h

end Site

/-- The sibling before each footnote among some siblings, and those after it.  `before` is the sibling before all. -/
def surroundings (before : Option Node) : List Node → List (Option Node × List Node)
  | [] => []
  | n :: rest => if isFootnote n then (before, rest) :: surroundings (some n) rest else surroundings (some n) rest

/-- The sites of the footnotes among some siblings. -/
def sites (before : Option Node) (l : List Node) : List Site := (surroundings before l).map fun p => .of p.1 p.2

/-- Some siblings without the inter-sentence spaces that directly follow a footnote. -/
def others (isAfterFootnote : Bool) : List Node → List Node
  | [] => []
  | n :: rest =>
    if isAfterFootnote && isSpaceMark n then others true rest else n :: others (isFootnote n) rest

/-- Inter-sentence spaces follow the footnotes that call for them, and no others. -/
structure IsSpaced (l spaced : List Node) : Prop where
  /-- A space directly follows a footnote just if the text directly before it ends a sentence and there is more after
  it. -/
  space_iff : ∀ earlier n later, spaced = earlier ++ n :: later → isFootnote n = true →
    (later.head?.any isSpaceMark = true ↔ earlier.getLast?.any endsSentence = true ∧ later.any isSubstance = true)
  /-- The other siblings are still there, in their order. -/
  others_eq : others false spaced = others false l
  /-- Nothing is left to put right. -/
  again : spaceSentences none spaced = spaced

section Kinds

variable {n : Node}

theorem not_isFootnote_of_isSpaceMark (h : isSpaceMark n = true) : isFootnote n = false := by
  have hkind : n.kind = .intersentenceSpace := of_decide_eq_true h
  rw [isFootnote, hkind]

theorem not_isSubstance_of_isSpaceMark (h : isSpaceMark n = true) : isSubstance n = false := by
  have hkind : n.kind = .intersentenceSpace := of_decide_eq_true h
  rw [isSubstance, hkind]

theorem not_endsSentence_of_isSpaceMark (h : isSpaceMark n = true) : endsSentence n = false := by
  have hkind : n.kind = .intersentenceSpace := of_decide_eq_true h
  rw [endsSentence, hkind]

theorem not_isSpaceMark_of_isFootnote (h : isFootnote n = true) : isSpaceMark n = false := by
  cases hmark : isSpaceMark n with
  | false => rfl
  | true => exact absurd (h.symm.trans (not_isFootnote_of_isSpaceMark hmark)) Bool.true_eq_false.mp

theorem not_endsSentence_of_isFootnote (h : isFootnote n = true) : endsSentence n = false := by
  obtain ⟨mark, hmark⟩ := Forest.exists_mark_of_isFootnote h
  rw [endsSentence, hmark]

end Kinds

theorem head?_any_isSpaceMark_iff (l : List Node) :
    l.head?.any isSpaceMark = true ↔ 0 < (l.takeWhile isSpaceMark).length := by
  cases l with
  | nil => simp
  | cons n rest => cases h : isSpaceMark n <;> simp [h]

/-- What surrounds the footnotes are the two parts that they divide the siblings into. -/
theorem mem_surroundings_iff {p : Option Node × List Node} {before : Option Node} {l : List Node} :
    p ∈ surroundings before l ↔
      ∃ earlier n, l = earlier ++ n :: p.2 ∧ isFootnote n = true ∧ p.1 = earlier.getLast?.or before := by
  induction l generalizing before with
  | nil => simp [surroundings]
  | cons first rest ih =>
      have hlast : ∀ earlier : List Node,
          (first :: earlier).getLast?.or before = earlier.getLast?.or (some first) := by
        intro earlier
        rw [List.getLast?_cons]
        cases earlier.getLast? <;> rfl
      have hcons : p ∈ surroundings before (first :: rest) ↔
          (isFootnote first = true ∧ p = (before, rest)) ∨ p ∈ surroundings (some first) rest := by
        rw [surroundings]
        cases isFootnote first <;> simp
      rw [hcons, ih]
      constructor
      · rintro (⟨hfirst, rfl⟩ | ⟨earlier, n, rfl, hn, hp⟩)
        · exact ⟨[], first, rfl, hfirst, rfl⟩
        · exact ⟨first :: earlier, n, rfl, hn, by rw [hlast, hp]⟩
      · rintro ⟨earlier, n, hsplit, hn, hp⟩
        cases earlier with
        | nil =>
            obtain ⟨rfl, rfl⟩ := List.cons.inj hsplit
            exact .inl ⟨hn, Prod.ext hp rfl⟩
        | cons m earlier =>
            obtain ⟨rfl, rfl⟩ := List.cons.inj hsplit
            exact .inr ⟨earlier, n, rfl, hn, by rw [hp, hlast]⟩

/-- The sites are those of the footnotes between what stands before them and what stands after them. -/
theorem mem_sites_iff {s : Site} {before : Option Node} {l : List Node} :
    s ∈ sites before l ↔ ∃ earlier n later, l = earlier ++ n :: later ∧ isFootnote n = true ∧
      s = .of (earlier.getLast?.or before) later := by
  rw [sites, List.mem_map]
  constructor
  · rintro ⟨⟨b, later⟩, hp, rfl⟩
    obtain ⟨earlier, n, hl, hn, rfl⟩ := mem_surroundings_iff.mp hp
    exact ⟨earlier, n, later, hl, hn, rfl⟩
  · rintro ⟨earlier, n, later, hl, hn, rfl⟩
    exact ⟨(_, later), mem_surroundings_iff.mpr ⟨earlier, n, hl, hn, rfl⟩, rfl⟩

/-- The spaces at the start of some siblings follow no footnote among them, so they stay. -/
theorem takeWhile_isSpaceMark_spaceSentences (before : Option Node) (l : List Node) :
    (spaceSentences before l).takeWhile isSpaceMark = l.takeWhile isSpaceMark := by
  have hfootnote : ∀ {n : Node} (l : List Node), ¬(!isFootnote n) = true → (n :: l).takeWhile isSpaceMark = [] := by
    intro n l hn
    rw [List.takeWhile_cons, not_isSpaceMark_of_isFootnote (by simpa using hn)]
    rfl
  fun_induction spaceSentences before l with
  | case1 => rfl
  | case2 => rfl
  | case3 before n next rest _ ih => rw [List.takeWhile_cons, ih, ← List.takeWhile_cons]
  | case4 before n next rest hn => rw [hfootnote _ hn, hfootnote _ hn]
  | case5 before n next rest hn => rw [hfootnote _ hn, hfootnote _ hn]
  | case6 before n next rest hn => rw [hfootnote _ hn, hfootnote _ hn]
  | case7 before n next rest hn => rw [hfootnote _ hn, hfootnote _ hn]

/-- Spaces that come and go are not what follows a footnote. -/
theorem any_isSubstance_spaceSentences (before : Option Node) (l : List Node) :
    (spaceSentences before l).any isSubstance = l.any isSubstance := by
  have hspace : ∀ {m : Node} (l : List Node), isSpaceMark m = true → (m :: l).any isSubstance = l.any isSubstance := by
    intro m l hm
    rw [List.any_cons, not_isSubstance_of_isSpaceMark hm, Bool.false_or]
  fun_induction spaceSentences before l with
  | case1 => rfl
  | case2 => rfl
  | case3 before n next rest _ ih => rw [List.any_cons, ih, ← List.any_cons]
  | case4 before n next rest _ _ _ ih => rw [List.any_cons, hspace _ rfl, ih, ← List.any_cons]
  | case5 before n next rest _ _ _ ih => rw [List.any_cons, ih, ← List.any_cons]
  | case6 before n next rest _ _ hmark ih => rw [List.any_cons, ih, List.any_cons, hspace _ hmark]
  | case7 before n next rest _ _ _ ih => rw [List.any_cons, ih, ← List.any_cons]

theorem of_spaceSentences (before before' : Option Node) (l : List Node) :
    Site.of before (spaceSentences before' l) = .of before l := by
  rw [Site.of, takeWhile_isSpaceMark_spaceSentences, any_isSubstance_spaceSentences, Site.of]

section Steps

variable {before : Option Node} {n m : Node} {rest : List Node}

theorem sites_cons_pos (hn : isFootnote n = true) (before : Option Node) (rest : List Node) :
    sites before (n :: rest) = .of before rest :: sites (some n) rest := by
  rw [sites, surroundings, if_pos hn]
  rfl

theorem sites_cons_neg (hn : isFootnote n = false) (before : Option Node) (rest : List Node) :
    sites before (n :: rest) = sites (some n) rest := by
  rw [sites, surroundings, if_neg (by simp [hn])]
  rfl

/-- Only whether the sibling before ends a sentence matters. -/
theorem sites_congr {before before' : Option Node} (h : before.any endsSentence = before'.any endsSentence)
    (l : List Node) : sites before l = sites before' l := by
  cases l with
  | nil => rfl
  | cons n rest =>
      cases hn : isFootnote n with
      | false => rw [sites_cons_neg hn, sites_cons_neg hn]
      | true => rw [sites_cons_pos hn, sites_cons_pos hn, Site.of, Site.of, h]

/-- A space after a footnote is no footnote and ends no sentence. -/
theorem sites_cons_space (hn : isFootnote n = true) (hm : isSpaceMark m = true) (rest : List Node) :
    sites (some n) (m :: rest) = sites (some n) rest := by
  rw [sites_cons_neg (not_isFootnote_of_isSpaceMark hm)]
  refine sites_congr ?_ rest
  rw [Option.any_some, Option.any_some, not_endsSentence_of_isSpaceMark hm, not_endsSentence_of_isFootnote hn]

/-- Only whether the sibling before ends a sentence matters. -/
theorem spaceSentences_congr {before before' : Option Node} (h : before.any endsSentence = before'.any endsSentence)
    (l : List Node) : spaceSentences before l = spaceSentences before' l := by
  match l with
  | [] => rfl
  | [n] => rfl
  | n :: next :: rest => rw [spaceSentences, spaceSentences, h]

theorem spaceSentences_cons_neg (hn : isFootnote n = false) (before : Option Node) (rest : List Node) :
    spaceSentences before (n :: rest) = n :: spaceSentences (some n) rest := by
  cases rest with
  | nil => rfl
  | cons next rest => rw [spaceSentences, if_pos (by simp [hn])]

/-- What is done after a footnote is read off its site. -/
theorem spaceSentences_cons_pos (hn : isFootnote n = true) (before : Option Node) (rest : List Node) :
    spaceSentences before (n :: rest) = n ::
      if (Site.of before rest).spaces < (Site.of before rest).spaced.spaces then
        spaceMark :: spaceSentences (some n) rest
      else if (Site.of before rest).spaced.spaces < (Site.of before rest).spaces then
        spaceSentences (some n) rest.tail
      else spaceSentences (some n) rest := by
  cases rest with
  | nil => cases hends : before.any endsSentence <;> simp [spaceSentences, Site.of, Site.spaced, hends]
  | cons next rest =>
      have hmark : spaceSentences (some spaceMark) (next :: rest) = spaceSentences (some n) (next :: rest) :=
        spaceSentences_congr (by rw [Option.any_some, Option.any_some, not_endsSentence_of_isFootnote hn]; rfl) _
      rw [spaceSentences, if_neg (by simp [hn]), hmark]
      cases hends : before.any endsSentence <;> cases hnext : isSpaceMark next <;>
        cases hmore : (next :: rest).any isSubstance <;> simp [Site.of, Site.spaced, hends, hnext, hmore]

end Steps

/-- Every footnote has its spaces put right by its own site. -/
theorem sites_spaceSentences (before : Option Node) (l : List Node) :
    sites before (spaceSentences before l) = (sites before l).map Site.spaced := by
  have hspaces : ∀ (before : Option Node) (m : Node) (rest : List Node), isSpaceMark m = true →
      (Site.of before (m :: rest)) = { Site.of before rest with spaces := (Site.of before rest).spaces + 1 } := by
    intro before m rest hm
    simp [Site.of, hm, not_isSubstance_of_isSpaceMark hm]
  fun_induction spaceSentences before l with
  | case1 => rfl
  | case2 before n =>
      cases hn : isFootnote n <;> cases hends : before.any endsSentence <;>
        simp [sites, surroundings, hn, Site.of, Site.spaced, hends]
  | case3 before n next rest hn ih =>
      have hn : isFootnote n = false := by simpa using hn
      rw [sites_cons_neg hn, ih, sites_cons_neg hn]
  | case4 before n next rest hn hends hmore ih =>
      have hn : isFootnote n = true := by simpa using hn
      obtain ⟨hmore, hmark⟩ : (next :: rest).any isSubstance = true ∧ isSpaceMark next = false := by
        simpa using hmore
      have hsite : Site.of before (spaceMark :: spaceSentences (some spaceMark) (next :: rest)) =
          (Site.of before (next :: rest)).spaced := by
        rw [hspaces _ _ _ rfl, of_spaceSentences]
        simp [Site.of, Site.spaced, hends, hmore, hmark]
      have hlater : sites (some spaceMark) (next :: rest) = sites (some n) (next :: rest) :=
        sites_congr (by rw [Option.any_some, Option.any_some, not_endsSentence_of_isFootnote hn]; rfl) _
      rw [sites_cons_pos hn, sites_cons_pos hn, List.map_cons, hsite, sites_cons_neg rfl, ih, hlater]
  | case5 before n next rest hn hends hmore ih =>
      have hn : isFootnote n = true := by simpa using hn
      have hsite : Site.of before (next :: rest) = (Site.of before (next :: rest)).spaced := by
        cases hmark : isSpaceMark next <;> simp_all [Site.of, Site.spaced]
      rw [sites_cons_pos hn, sites_cons_pos hn, List.map_cons, of_spaceSentences, ← hsite, ih]
  | case6 before n next rest hn hends hmark ih =>
      have hn : isFootnote n = true := by simpa using hn
      have hsite : Site.of before rest = (Site.of before (next :: rest)).spaced := by
        rw [hspaces _ _ _ hmark]
        simp [Site.of, Site.spaced, hends]
      rw [sites_cons_pos hn, sites_cons_pos hn, List.map_cons, of_spaceSentences, hsite, ih, sites_cons_space hn hmark]
  | case7 before n next rest hn hends hmark ih =>
      have hn : isFootnote n = true := by simpa using hn
      have hsite : Site.of before (next :: rest) = (Site.of before (next :: rest)).spaced := by
        simp [Site.of, Site.spaced, hends, hmark]
      rw [sites_cons_pos hn, sites_cons_pos hn, List.map_cons, of_spaceSentences, ← hsite, ih]

/-- Where every footnote has the right spaces, nothing is done. -/
theorem spaceSentences_eq_self {before : Option Node} {l : List Node} (h : ∀ s ∈ sites before l, s.spaced = s) :
    spaceSentences before l = l := by
  fun_induction spaceSentences before l with
  | case1 => rfl
  | case2 => rfl
  | case3 before n next rest hn ih =>
      rw [sites_cons_neg (by simpa using hn)] at h
      rw [ih h]
  | case4 before n next rest hn hends hmore ih =>
      rw [sites_cons_pos (by simpa using hn)] at h
      have hsite := h _ List.mem_cons_self
      simp_all [Site.of, Site.spaced]
  | case5 before n next rest hn hends hmore ih =>
      rw [sites_cons_pos (by simpa using hn)] at h
      rw [ih fun s hs => h s (List.mem_cons_of_mem _ hs)]
  | case6 before n next rest hn hends hmark ih =>
      rw [sites_cons_pos (by simpa using hn)] at h
      have hsite := h _ List.mem_cons_self
      simp [Site.of, Site.spaced, hends, hmark] at hsite
  | case7 before n next rest hn hends hmark ih =>
      rw [sites_cons_pos (by simpa using hn)] at h
      rw [ih fun s hs => h s (List.mem_cons_of_mem _ hs)]

/-- Only spaces that directly follow a footnote are put in or taken out. -/
theorem others_spaceSentences (before : Option Node) (isAfterFootnote : Bool) (l : List Node) :
    others isAfterFootnote (spaceSentences before l) = others isAfterFootnote l := by
  have hfootnote : ∀ {n : Node} (isAfter : Bool) (l : List Node), ¬(!isFootnote n) = true →
      others isAfter (n :: l) = n :: others true l := by
    intro n isAfter l hn
    have hn : isFootnote n = true := by simpa using hn
    rw [others, not_isSpaceMark_of_isFootnote hn, Bool.and_false, if_neg Bool.false_ne_true, hn]
  have hspace : ∀ {m : Node} (l : List Node), isSpaceMark m = true → others true (m :: l) = others true l := by
    intro m l hm
    rw [others, hm, Bool.and_self, if_pos rfl]
  fun_induction spaceSentences before l generalizing isAfterFootnote with
  | case1 => rfl
  | case2 => rfl
  | case3 before n next rest hn ih =>
      rw [others, ih, ih, ← others]
  | case4 before n next rest hn _ _ ih => rw [hfootnote _ _ hn, hspace _ rfl, ih, hfootnote _ _ hn]
  | case5 before n next rest hn _ _ ih => rw [hfootnote _ _ hn, ih, hfootnote _ _ hn]
  | case6 before n next rest hn _ hmark ih => rw [hfootnote _ _ hn, ih, hfootnote _ _ hn, hspace _ hmark]
  | case7 before n next rest hn _ _ ih => rw [hfootnote _ _ hn, ih, hfootnote _ _ hn]

/-- Doing it twice is doing it once if no footnote loses a space twice. -/
theorem spaceSentences_spaceSentences_iff (before : Option Node) (l : List Node) :
    spaceSentences before (spaceSentences before l) = spaceSentences before l ↔
      ∀ s ∈ sites before l, s.endsSentence = true ∨ s.spaces ≤ 1 := by
  constructor
  · intro htwice s hs
    have hsites := congrArg (sites before) htwice
    rw [sites_spaceSentences, sites_spaceSentences, List.map_map] at hsites
    exact s.spaced_spaced_iff.mp (List.map_inj_left.mp hsites s hs)
  · intro hsites
    refine spaceSentences_eq_self ?_
    rw [sites_spaceSentences, List.forall_mem_map]
    exact fun s hs => s.spaced_spaced_iff.mpr (hsites s hs)

/-- A space follows just the footnotes that call for one if every site says so. -/
theorem space_iff_iff (l : List Node) :
    (∀ earlier n later, l = earlier ++ n :: later → isFootnote n = true →
      (later.head?.any isSpaceMark = true ↔
        earlier.getLast?.any endsSentence = true ∧ later.any isSubstance = true)) ↔
    ∀ s ∈ sites none l, (0 < s.spaces ↔ s.endsSentence = true ∧ s.hasMore = true) := by
  constructor
  · intro hsplit s hs
    obtain ⟨earlier, n, later, hl, hn, rfl⟩ := mem_sites_iff.mp hs
    have hlater := hsplit earlier n later hl hn
    rwa [head?_any_isSpaceMark_iff, ← Option.or_none (o := earlier.getLast?)] at hlater
  · intro hsites earlier n later hl hn
    have hsite := hsites _ (mem_sites_iff.mpr ⟨earlier, n, later, hl, hn, rfl⟩)
    rwa [head?_any_isSpaceMark_iff, ← Option.or_none (o := earlier.getLast?)]

/-- The spaces after footnotes are right if no footnote has a space too many to begin with, and doing it again then
changes nothing.  In any case only spaces directly after footnotes come and go, each footnote by its own site, and
doing it again changes something just if a footnote that ends no sentence has two spaces. -/
theorem isSpaced_iff (l : List Node) :
    (IsSpaced l (spaceSentences none l) ↔ ∀ s ∈ sites none l, s.IsClear) ∧
    (spaceSentences none (spaceSentences none l) = spaceSentences none l ↔
      ∀ s ∈ sites none l, s.endsSentence = true ∨ s.spaces ≤ 1) ∧
    others false (spaceSentences none l) = others false l ∧
    sites none (spaceSentences none l) = (sites none l).map Site.spaced := by
  have hclear : (∀ s ∈ sites none (spaceSentences none l),
      (0 < s.spaces ↔ s.endsSentence = true ∧ s.hasMore = true)) ↔ ∀ s ∈ sites none l, s.IsClear := by
    rw [sites_spaceSentences, List.forall_mem_map]
    exact forall₂_congr fun s _ => s.isClear_iff.symm
  refine ⟨⟨fun h => ?_, fun h => ?_⟩, spaceSentences_spaceSentences_iff none l, others_spaceSentences none false l,
    sites_spaceSentences none l⟩
  · exact hclear.mp ((space_iff_iff _).mp h.space_iff)
  · refine ⟨(space_iff_iff _).mpr (hclear.mpr h), others_spaceSentences none false l, ?_⟩
    exact (spaceSentences_spaceSentences_iff none l).mpr fun s hs => s.spaced_spaced_iff.mp (h s hs).spaced_spaced

namespace TwoSpaces

/-- A footnote in the middle of a sentence, with two spaces after it. -/
def siblings : List Node :=
  [.new (.text "x") [], .new (.footnote none) [], spaceMark, spaceMark, .new (.text "y") []]

/-- One space is left, and doing it again takes that one too. -/
theorem not_isSpaced : ¬ IsSpaced siblings (spaceSentences none siblings) := by
  intro h
  have hlength := congrArg List.length h.again
  revert hlength
  decide

end TwoSpaces

end Manuscript.Footnotes
