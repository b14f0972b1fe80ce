import Manuscript.Inclusion.Selection
import Manuscript.Proofs.Text.Marks

/-!
Named parts of a file, which comments begin and end.

Main statement: a part is the longest run of lines after the first comment that begins one of its name in no prefix of
which the comments that end parts outnumber those that begin parts (`selectPart?_longest`).
-/

namespace Manuscript

namespace Text

variable {mark rest t : Text}

/-- The text without the copies of a mark at its end. -/
def IsWithoutCopies (mark t rest : Text) : Prop :=
  (∃ copies : Nat, t = rest ++ (List.replicate copies mark).flatten) ∧ ¬mark <:+ rest

theorem trimEndCopies_of_not_suffix (h : ¬mark <:+ t) : trimEndCopies mark t = t := by
  have hnone : before? mark t = none := by
    refine Option.eq_none_iff_forall_ne_some.mpr fun head hhead => h ?_
    rw [eq_append_of_before? hhead]
    exact List.suffix_append head mark
  rw [trimEndCopies, hnone]

theorem trimEndCopies_append (hmark : mark ≠ []) (t : Text) :
    trimEndCopies mark (t ++ mark) = trimEndCopies mark t := by
  have hlength : t.length < (t ++ mark).length := by
    rw [List.length_append]
    exact Nat.lt_add_of_pos_right (List.length_pos_iff.mpr hmark)
  rw [trimEndCopies, before?_append]
  exact if_pos hlength

theorem trimEndCopies_of_isWithoutCopies (hmark : mark ≠ []) (h : IsWithoutCopies mark t rest) :
    trimEndCopies mark t = rest := by
  obtain ⟨⟨copies, rfl⟩, hrest⟩ := h
  induction copies with
  | zero => simpa using trimEndCopies_of_not_suffix hrest
  | succ copies ih =>
      rw [List.replicate_succ', List.flatten_append, List.flatten_singleton, ← List.append_assoc,
        trimEndCopies_append hmark, ih]

theorem isWithoutCopies_trimEndCopies (hmark : mark ≠ []) (t : Text) :
    IsWithoutCopies mark t (trimEndCopies mark t) := by
  by_cases hsuffix : mark <:+ t
  · obtain ⟨head, ht⟩ := hsuffix
    have hshorter : head.length < t.length := by
      rw [← ht, List.length_append]
      exact Nat.lt_add_of_pos_right (List.length_pos_iff.mpr hmark)
    obtain ⟨⟨copies, hcopies⟩, hrest⟩ := isWithoutCopies_trimEndCopies hmark head
    rw [← ht, trimEndCopies_append hmark]
    refine ⟨⟨copies + 1, ?_⟩, hrest⟩
    rw [List.replicate_succ', List.flatten_append, List.flatten_singleton, ← List.append_assoc, ← hcopies]
  · rw [trimEndCopies_of_not_suffix hsuffix]
    exact ⟨⟨0, by simp⟩, hsuffix⟩
termination_by t.length

theorem isWithoutCopies_iff (hmark : mark ≠ []) : IsWithoutCopies mark t rest ↔ trimEndCopies mark t = rest :=
  ⟨trimEndCopies_of_isWithoutCopies hmark, fun h => h ▸ isWithoutCopies_trimEndCopies hmark t⟩

end Text

namespace Inclusion

/-- The line is a comment of these words; the marks that close comments are none of them. -/
def IsComment (line : Text) (words : List Text) : Prop :=
  ∃ opening ∈ commentOpenings, ∃ body unclosed rest, Text.trim line = opening ++ body ∧
    Text.IsWithoutCopies "-->" (Text.trim body) unclosed ∧ Text.IsWithoutCopies "*/" unclosed rest ∧
    Text.words rest = words

/-- The line is a comment that begins a part of this name. -/
def BeginsPart (line name : Text) : Prop := ∃ more, IsComment line ("begin" :: name :: more)

/-- The line is a comment that ends a part; it may name one. -/
def EndsPart (line : Text) : Prop := ∃ more, IsComment line ("end" :: more)

section Comments

variable {line name : Text} {words : List Text}

/-- A comment has one opening. -/
theorem opening_unique {opening opening' t : Text} (h : opening ∈ commentOpenings) (h' : opening' ∈ commentOpenings)
    (ht : opening <+: t) (ht' : opening' <+: t) : opening = opening' := by
  have hbegins : ∀ o ∈ commentOpenings, ∀ o' ∈ commentOpenings, o <+: o' → o = o' := by decide
  obtain hle | hle := List.prefix_or_prefix_of_prefix ht ht'
  · exact hbegins opening h opening' h' hle
  · exact (hbegins opening' h' opening h hle).symm

theorem findSome?_commentOpenings_eq_some_iff {t body : Text} :
    (commentOpenings.findSome? fun opening => Text.after? opening t) = some body ↔
      ∃ opening ∈ commentOpenings, t = opening ++ body := by
  constructor
  · intro h
    obtain ⟨opening, hopening, hafter⟩ := List.exists_of_findSome?_eq_some h
    exact ⟨opening, hopening, Text.eq_append_of_after? hafter⟩
  · rintro ⟨opening, hopening, rfl⟩
    have hsome : (commentOpenings.findSome? fun o => Text.after? o (opening ++ body)).isSome = true := by
      refine List.findSome?_isSome_iff.mpr ⟨opening, hopening, ?_⟩
      rw [Text.after?_append]
      rfl
    obtain ⟨found, hfound⟩ := Option.isSome_iff_exists.mp hsome
    obtain ⟨opening', hopening', hafter⟩ := List.exists_of_findSome?_eq_some hfound
    have heq := Text.eq_append_of_after? hafter
    have hbegins : opening' <+: opening ++ body := heq ▸ List.prefix_append opening' found
    obtain rfl := opening_unique hopening hopening' (List.prefix_append opening body) hbegins
    rw [hfound, List.append_cancel_left heq]

/-- The words of a comment are read off as they are written. -/
theorem isComment_iff : IsComment line words ↔ (commentText? line).map Text.words = some words := by
  have harrow : ("-->" : Text) ≠ [] := by decide
  have hstar : ("*/" : Text) ≠ [] := by decide
  simp only [commentText?, Option.map_eq_some_iff, findSome?_commentOpenings_eq_some_iff]
  constructor
  · rintro ⟨opening, hopening, body, unclosed, rest, hline, hunclosed, hrest, hwords⟩
    refine ⟨_, ⟨body, ⟨opening, hopening, hline⟩, rfl⟩, ?_⟩
    rw [Text.words_trim, (Text.isWithoutCopies_iff harrow).mp hunclosed, (Text.isWithoutCopies_iff hstar).mp hrest,
      hwords]
  · rintro ⟨_, ⟨body, ⟨opening, hopening, hline⟩, rfl⟩, hwords⟩
    rw [Text.words_trim] at hwords
    exact ⟨opening, hopening, body, _, _, hline, (Text.isWithoutCopies_iff harrow).mpr rfl,
      (Text.isWithoutCopies_iff hstar).mpr rfl, hwords⟩

theorem partMark?_eq_opens_iff : partMark? line = some (.opens name) ↔ BeginsPart line name := by
  simp only [BeginsPart, isComment_iff]
  unfold partMark?
  constructor
  · intro h
    split at h
    · rename_i word rest hwords
      split at h
      · rename_i hbegin
        obtain ⟨first, hfirst, hname⟩ := Option.map_eq_some_iff.mp h
        obtain ⟨more, rfl⟩ := List.head?_eq_some_iff.mp hfirst
        obtain rfl : first = name := PartMark.opens.inj hname
        exact ⟨more, hbegin ▸ hwords⟩
      · split at h <;> cases h
    · cases h
  · rintro ⟨more, hwords⟩
    rw [hwords]
    rfl

theorem partMark?_eq_closes_iff : partMark? line = some .closes ↔ EndsPart line := by
  simp only [EndsPart, isComment_iff]
  unfold partMark?
  constructor
  · intro h
    split at h
    · rename_i word rest hwords
      split at h
      · obtain ⟨name, -, hname⟩ := Option.map_eq_some_iff.mp h
        cases hname
      · split at h
        · rename_i hend
          exact ⟨rest, hend ▸ hwords⟩
        · cases h
    · cases h
  · rintro ⟨more, hwords⟩
    rw [hwords]
    rfl

/-- The line is a comment that begins a part of any name. -/
def IsBeginning (line : Text) : Prop := ∃ name, BeginsPart line name

theorem EndsPart.not_isBeginning (h : EndsPart line) : ¬IsBeginning line := by
  rintro ⟨name, hname⟩
  have heq := (partMark?_eq_closes_iff.mpr h).symm.trans (partMark?_eq_opens_iff.mpr hname)
  cases heq

instance : DecidablePred EndsPart := fun _ => decidable_of_iff _ partMark?_eq_closes_iff

instance : DecidablePred IsBeginning := fun line =>
  match h : partMark? line with
  | some (.opens name) => .isTrue ⟨name, partMark?_eq_opens_iff.mp h⟩
  | some .closes => .isFalse (partMark?_eq_closes_iff.mp h).not_isBeginning
  | none => .isFalse fun ⟨_, hname⟩ => by simp [partMark?_eq_opens_iff.mpr hname] at h

end Comments

/-- How many comments begin parts. -/
def beginnings (lines : List Text) : Nat := lines.countP (IsBeginning ·)

/-- How many comments end parts. -/
def endings (lines : List Text) : Nat := lines.countP (EndsPart ·)

/-- After so many open parts, no more parts are ended than are begun up to any line. -/
def IsBalanced (inner : Nat) (run : List Text) : Prop :=
  ∀ front, front <+: run → endings front ≤ inner + beginnings front

/-- The longest run from the first line on in which, after so many open parts, no more parts are ended than are begun
up to any line. -/
structure IsLongest (inner : Nat) (lines part : List Text) : Prop where
  isPrefix : part <+: lines
  isBalanced : IsBalanced inner part
  longest : ∀ run, run <+: lines → IsBalanced inner run → run <+: part

/-- What a part that is followed by some lines holds, and where it ends. -/
structure EndsAtMatch (lines part : List Text) : Prop where
  /-- A comment that begins a part inside comes with the comment that ends it. -/
  pairs : ∀ front first inside last rest, lines = front ++ first :: (inside ++ last :: rest) → IsBeginning first →
    IsBalanced 0 inside → beginnings inside = endings inside → EndsPart last → front ++ [first] <+: part →
      front ++ first :: (inside ++ [last]) <+: part
  /-- The comment that follows the part ends what the comment before it begins. -/
  closing : ∀ last rest, lines = part ++ last :: rest → EndsPart last ∧ beginnings part = endings part
  /-- A part that no comment ends runs to the end. -/
  unclosed : (∀ front last rest, lines = front ++ last :: rest → EndsPart last → IsBalanced 0 front →
    beginnings front ≠ endings front) → part = lines

section Balance

variable {line : Text} {front run lines part : List Text} {inner : Nat}

@[simp] theorem beginnings_append (front run : List Text) :
    beginnings (front ++ run) = beginnings front + beginnings run :=
  List.countP_append

@[simp] theorem endings_append (front run : List Text) : endings (front ++ run) = endings front + endings run :=
  List.countP_append

theorem beginnings_singleton (line : Text) : beginnings [line] = if IsBeginning line then 1 else 0 := by
  simp [beginnings, List.countP_singleton]

theorem endings_singleton (line : Text) : endings [line] = if EndsPart line then 1 else 0 := by
  simp [endings, List.countP_singleton]

theorem isBalanced_nil (inner : Nat) : IsBalanced inner [] := by
  intro front hfront
  rw [List.prefix_nil.mp hfront]
  exact Nat.zero_le _

/-- The parts that are open after some lines are open before the next ones. -/
theorem isBalanced_append_iff :
    IsBalanced inner (front ++ run) ↔
      IsBalanced inner front ∧ IsBalanced (inner + beginnings front - endings front) run := by
  constructor
  · intro h
    refine ⟨fun lead hlead => h lead (hlead.trans (List.prefix_append front run)), fun lead hlead => ?_⟩
    have hwhole := h front (List.prefix_append front run)
    have hlead := h (front ++ lead) ((List.prefix_append_right_inj front).mpr hlead)
    simp only [beginnings_append, endings_append] at hlead
    omega
  · rintro ⟨hfront, hrun⟩ lead hlead
    obtain hshort | hlong := List.prefix_or_prefix_of_prefix hlead (List.prefix_append front run)
    · exact hfront lead hshort
    · obtain ⟨more, rfl⟩ := hlong
      have hmore := hrun more ((List.prefix_append_right_inj front).mp hlead)
      have hwhole := hfront front (List.prefix_refl front)
      simp only [beginnings_append, endings_append]
      omega

theorem isBalanced_singleton_iff : IsBalanced inner [line] ↔ endings [line] ≤ inner + beginnings [line] := by
  refine ⟨fun h => h [line] (List.prefix_refl _), fun h front hfront => ?_⟩
  obtain rfl | ⟨rest, rfl, hrest⟩ := List.prefix_cons_iff.mp hfront
  · exact Nat.zero_le _
  · rwa [List.prefix_nil.mp hrest]

theorem isBalanced_cons_iff :
    IsBalanced inner (line :: run) ↔
      endings [line] ≤ inner + beginnings [line] ∧ IsBalanced (inner + beginnings [line] - endings [line]) run := by
  rw [← List.singleton_append, isBalanced_append_iff, isBalanced_singleton_iff]

theorem isBalanced_cons_beginning (h : IsBeginning line) :
    IsBalanced inner (line :: run) ↔ IsBalanced (inner + 1) run := by
  have hend : ¬EndsPart line := fun hend => hend.not_isBeginning h
  rw [isBalanced_cons_iff, beginnings_singleton, endings_singleton, if_pos h, if_neg hend]
  simp

theorem isBalanced_cons_ending (h : EndsPart line) :
    IsBalanced inner (line :: run) ↔ 0 < inner ∧ IsBalanced (inner - 1) run := by
  rw [isBalanced_cons_iff, beginnings_singleton, endings_singleton, if_neg h.not_isBeginning, if_pos h]
  rfl

theorem isBalanced_cons_other (hbegin : ¬IsBeginning line) (hend : ¬EndsPart line) :
    IsBalanced inner (line :: run) ↔ IsBalanced inner run := by
  rw [isBalanced_cons_iff, beginnings_singleton, endings_singleton, if_neg hbegin, if_neg hend]
  simp

theorem IsBalanced.mono {inner' : Nat} (h : IsBalanced inner run) (hle : inner ≤ inner') : IsBalanced inner' run :=
  fun front hfront => (h front hfront).trans (Nat.add_le_add_right hle _)

/-- A part that is begun and ended inside leaves the balance as it was. -/
theorem isBalanced_pair {first last : Text} {inside : List Text} (hfront : IsBalanced inner front)
    (hfirst : IsBeginning first) (hinside : IsBalanced 0 inside) (hcount : beginnings inside = endings inside)
    (hlast : EndsPart last) : IsBalanced inner (front ++ first :: (inside ++ [last])) := by
  refine isBalanced_append_iff.mpr ⟨hfront, (isBalanced_cons_beginning hfirst).mpr ?_⟩
  refine isBalanced_append_iff.mpr ⟨hinside.mono (Nat.zero_le _), isBalanced_singleton_iff.mpr ?_⟩
  rw [endings_singleton, if_pos hlast]
  omega

end Balance

/-! The lines of a part -/

section Body

variable {line : Text} {run rest lines part : List Text} {inner : Nat}

theorem IsLongest.eq {part' : List Text} (h : IsLongest inner lines part) (h' : IsLongest inner lines part') :
    part = part' := by
  have hle := (h'.longest part h.isPrefix h.isBalanced).length_le
  exact (h.longest part' h'.isPrefix h'.isBalanced).eq_of_length_le hle |>.symm

/-- The longest run goes on for as long as a line leaves some parts open, as many as are taken to be open after it. -/
theorem IsLongest.cons {inner' : Nat} (hiff : ∀ run, IsBalanced inner (line :: run) ↔ IsBalanced inner' run)
    (h : IsLongest inner' rest part) : IsLongest inner (line :: rest) (line :: part) where
  isPrefix := List.cons_prefix_cons.mpr ⟨rfl, h.isPrefix⟩
  isBalanced := (hiff part).mpr h.isBalanced
  longest run hrun hbalanced := by
    obtain rfl | ⟨more, rfl, hmore⟩ := List.prefix_cons_iff.mp hrun
    · exact List.nil_prefix
    · exact List.cons_prefix_cons.mpr ⟨rfl, h.longest more hmore ((hiff more).mp hbalanced)⟩

/-- No run that is balanced goes on with a comment that ends a part if none is open. -/
theorem isLongest_nil_of_ending (h : EndsPart line) (rest : List Text) : IsLongest 0 (line :: rest) [] where
  isPrefix := List.nil_prefix
  isBalanced := isBalanced_nil 0
  longest run hrun hbalanced := by
    obtain rfl | ⟨more, rfl, -⟩ := List.prefix_cons_iff.mp hrun
    · exact List.nil_prefix
    · exact absurd ((isBalanced_cons_ending h).mp hbalanced).1 (Nat.lt_irrefl 0)

/-- The lines up to the comment that closes a part are the longest run. -/
theorem isLongest_partBody (inner : Nat) (lines : List Text) : IsLongest inner lines (partBody inner lines) := by
  fun_induction partBody inner lines with
  | case1 inner => exact ⟨List.prefix_refl [], isBalanced_nil inner, fun run hrun _ => hrun⟩
  | case2 line rest name inner hmark ih =>
      exact ih.cons fun _ => isBalanced_cons_beginning ⟨name, partMark?_eq_opens_iff.mp hmark⟩
  | case3 line rest hmark => exact isLongest_nil_of_ending (partMark?_eq_closes_iff.mp hmark) rest
  | case4 line rest inner hmark ih =>
      -- What the comment ends was begun in the run or before it, as one of the parts that are open.
      refine ih.cons fun run => ?_
      rw [isBalanced_cons_ending (partMark?_eq_closes_iff.mp hmark)]
      exact and_iff_right (Nat.succ_pos inner)
  | case5 inner line rest hmark ih =>
      refine ih.cons fun _ => isBalanced_cons_other ?_ ?_
      · rintro ⟨name, hname⟩
        simp [partMark?_eq_opens_iff.mpr hname] at hmark
      · intro hend
        simp [partMark?_eq_closes_iff.mpr hend] at hmark

/-- With the line after it the longest run is not balanced. -/
theorem IsLongest.not_isBalanced_concat {last : Text} (h : IsLongest inner (part ++ last :: rest) part) :
    ¬IsBalanced inner (part ++ [last]) := by
  intro hbalanced
  have hle := (h.longest (part ++ [last]) ⟨rest, by simp⟩ hbalanced).length_le
  rw [List.length_append, List.length_singleton] at hle
  omega

/-- The line after the longest run ends a part, and in the run no part is left open. -/
theorem IsLongest.closing {last : Text} (h : IsLongest 0 (part ++ last :: rest) part) :
    EndsPart last ∧ beginnings part = endings part := by
  have hle := h.isBalanced part (List.prefix_refl part)
  have hover : ¬endings [last] ≤ 0 + beginnings part - endings part + beginnings [last] := fun hlast =>
    h.not_isBalanced_concat (isBalanced_append_iff.mpr ⟨h.isBalanced, isBalanced_singleton_iff.mpr hlast⟩)
  by_cases hend : EndsPart last
  · rw [endings_singleton, if_pos hend] at hover
    exact ⟨hend, by omega⟩
  · rw [endings_singleton, if_neg hend] at hover
    exact absurd (Nat.zero_le _) hover

theorem IsLongest.endsAtMatch (h : IsLongest 0 lines part) : EndsAtMatch lines part where
  pairs front first inside last rest hlines hfirst hinside hcount hlast hpart := by
    obtain ⟨more, hmore⟩ := hpart
    have hfront : IsBalanced 0 front := by
      rw [List.append_assoc] at hmore
      exact (isBalanced_append_iff.mp (hmore ▸ h.isBalanced)).1
    exact h.longest _ (hlines ▸ ⟨rest, by simp⟩) (isBalanced_pair hfront hfirst hinside hcount hlast)
  closing last rest hlines := by
    subst hlines
    exact h.closing
  unclosed hopen := by
    obtain ⟨rest, hrest⟩ := h.isPrefix
    cases rest with
    | nil => rw [← hrest, List.append_nil]
    | cons last rest =>
        obtain ⟨hlast, hcount⟩ := IsLongest.closing (hrest ▸ h)
        exact absurd hcount (hopen part last rest hrest.symm hlast h.isBalanced)

end Body

section Selection

variable {before after lines : List Text} {first name : Text}

theorem selectPart?_eq_none (h : ∀ line ∈ lines, ¬BeginsPart line name) : selectPart? lines name = none := by
  have hdrop : (lines.dropWhile fun line => partMark? line ≠ some (.opens name)) = [] := by
    refine List.dropWhile_eq_nil_iff.mpr fun line hline => decide_eq_true ?_
    exact mt partMark?_eq_opens_iff.mp (h line hline)
  rw [selectPart?, hdrop]

theorem selectPart?_append (hbefore : ∀ line ∈ before, ¬BeginsPart line name) (hfirst : BeginsPart first name)
    (after : List Text) : selectPart? (before ++ first :: after) name = some (partBody 0 after) := by
  have hdrop :
      ((before ++ first :: after).dropWhile fun line => partMark? line ≠ some (.opens name)) = first :: after := by
    rw [List.dropWhile_append_of_pos fun line hline =>
      decide_eq_true (mt partMark?_eq_opens_iff.mp (hbefore line hline))]
    exact List.dropWhile_cons_of_neg (by simp [partMark?_eq_opens_iff.mpr hfirst])
  rw [selectPart?, hdrop]

/-- The first comment that begins a part of the name. -/
theorem exists_first (h : ∃ line ∈ lines, BeginsPart line name) :
    ∃ before first after, lines = before ++ first :: after ∧ (∀ line ∈ before, ¬BeginsPart line name) ∧
      BeginsPart first name := by
  simp only [← partMark?_eq_opens_iff] at h ⊢
  have hsome : (lines.find? fun line => partMark? line = some (.opens name)).isSome = true := by
    simpa using h
  obtain ⟨first, hfind⟩ := Option.isSome_iff_exists.mp hsome
  obtain ⟨hfirst, before, after, hlines, hbefore⟩ := List.find?_eq_some_iff_append.mp hfind
  exact ⟨before, first, after, hlines, by simpa using hbefore, by simpa using hfirst⟩

end Selection

/-- The named part of some lines is the longest balanced run after the first comment that begins it. -/
theorem selectPart?_longest (lines : List Text) (name : Text) :
    (selectPart? lines name = none ↔ ∀ line ∈ lines, ¬BeginsPart line name) ∧
    (∀ part, selectPart? lines name = some part ↔ ∃ before first after, lines = before ++ first :: after ∧
      (∀ line ∈ before, ¬BeginsPart line name) ∧ BeginsPart first name ∧ IsLongest 0 after part) ∧
    ∀ after part, IsLongest 0 after part → EndsAtMatch after part := by
  have hfound (h : ¬∀ line ∈ lines, ¬BeginsPart line name) :
      ∃ before first after, lines = before ++ first :: after ∧ (∀ line ∈ before, ¬BeginsPart line name) ∧
        BeginsPart first name ∧ selectPart? lines name = some (partBody 0 after) := by
    obtain ⟨before, first, after, rfl, hbefore, hfirst⟩ := exists_first (by simpa using h)
    exact ⟨before, first, after, rfl, hbefore, hfirst, selectPart?_append hbefore hfirst after⟩
  refine ⟨⟨fun hnone => ?_, selectPart?_eq_none⟩, fun part => ⟨fun hpart => ?_, ?_⟩, fun _ _ => IsLongest.endsAtMatch⟩
  · by_contra hsome
    obtain ⟨-, -, after, -, -, -, hpart⟩ := hfound hsome
    cases hnone.symm.trans hpart
  · obtain ⟨before, first, after, hlines, hbefore, hfirst, hbody⟩ := hfound fun hall => by
      cases (selectPart?_eq_none hall).symm.trans hpart
    obtain rfl := Option.some.inj (hpart.symm.trans hbody)
    exact ⟨before, first, after, hlines, hbefore, hfirst, isLongest_partBody 0 after⟩
  · rintro ⟨before, first, after, rfl, hbefore, hfirst, hlongest⟩
    rw [selectPart?_append hbefore hfirst, (isLongest_partBody 0 after).eq hlongest]

/-- Pairs of comments stay inside, and the part ends with the comment that is left over. -/
example : selectPart? ["<!-- begin a -->", "x", "/* begin b */", "// end", "y", "# end a", "z"] "a" =
    (some ["x", "/* begin b */", "// end", "y"] : Option (List Text)) := by
  cbv

end Inclusion

end Manuscript
