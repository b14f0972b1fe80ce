import Mathlib.Data.List.Infix
import Manuscript.Proofs.Inclusion.Annotation
import Manuscript.Proofs.Text.Marks

/-!
Git clauses in the text of a directive.  The first one is taken out, wherever it stands, so that a clause that was begun and
not closed runs on into what follows.

Main statements: where a git clause begins (`isClauseStart_iff`), and what is taken out of a text that has a clause after
one that was not closed (`takeRevision_of_leavesOpen`) or after none (`takeRevision_append`).
-/

namespace Manuscript.Inclusion

/-- The beginning of a git clause, up to the repository. -/
def IsClauseStart (t rest : Text) : Prop :=
  ∃ b₁ b₂ b₃ tag : Text, (Text.isBlankOnly b₁ ∧ Text.isBlankOnly b₂ ∧ Text.isBlankOnly b₃) ∧
    (tag ≠ [] ∧ ',' ∉ tag ∧ '\x7d' ∉ tag) ∧
    t = "git:" ++ (b₁ ++ ("\x7b" ++ (b₂ ++ ("tag:" ++ (tag ++ ',' :: (b₃ ++ ("repo:" ++ rest)))))))

/-- A git clause stands somewhere in the text. -/
def HoldsClause (t : Text) : Prop :=
  ∃ before start rest repo after, t = before ++ start ∧ IsClauseStart start rest ∧ rest = repo ++ '\x7d' :: after ∧
    repo ≠ [] ∧ '\x7d' ∉ repo

/-- Somewhere in the text a git clause begins that nothing closes. -/
def LeavesOpen (t : Text) : Prop :=
  ∃ before start rest, t = before ++ start ∧ IsClauseStart start rest ∧ '\x7d' ∉ rest

/-- Reads the beginning of a git clause: the tag, and what follows after the word for the repository. -/
def clauseStart? (t : Text) : Option (Text × Text) := do
  let rest ← Text.after? "git:" t
  let rest ← Text.after? "\x7b" (Text.trimStart rest)
  let rest ← Text.after? "tag:" (Text.trimStart rest)
  let (tag, rest) ← value? ',' ['\x7d'] rest
  let rest ← Text.after? "repo:" (Text.trimStart rest)
  return (tag, rest)

section Values

variable {closing : Char} {barred : List Char} {t rest : Text}

theorem valueOf?_eq_none_iff : valueOf? t = none ↔ t = [] := by
  rw [valueOf?]
  cases h : t.getLast? with
  | none => simp [List.getLast?_eq_none_iff.mp h]
  | some c =>
      have hne : t ≠ [] := by
        rintro rfl
        cases h
      simp [hne]

theorem valueOf?_eq_trim (h : Text.isBlankOnly t = false) : valueOf? t = some (Text.trim t) := by
  have hne : t ≠ [] := by
    rintro rfl
    cases h
  obtain ⟨c, hc⟩ := Option.isSome_iff_exists.mp (List.getLast?_isSome.mpr hne)
  simp [valueOf?, hc, h]

/-- A value ends at the first character that may close it, and is none if another bars it. -/
theorem value?_append {c : Char} (ht : ∀ d ∈ t, d ≠ closing ∧ d ∉ barred) (hc : c = closing ∨ c ∈ barred) (rest : Text) :
    value? closing barred (t ++ c :: rest) = if c = closing then (valueOf? t).map (·, rest) else none := by
  have hinside : ∀ d ∈ t, (!(d == closing || barred.contains d)) = true := by
    intro d hd
    simp [ht d hd]
  have hend : ¬(!(c == closing || barred.contains c)) = true := by
    rcases hc with rfl | hc
    · simp
    · simp [hc]
  rw [value?, List.takeWhile_append_of_pos hinside, List.dropWhile_append_of_pos hinside, List.takeWhile_cons, if_neg hend,
    List.dropWhile_cons, if_neg hend, List.append_nil]
  split
  · rename_i heq
    subst heq
    cases valueOf? t <;> simp [Text.after?]
  · rename_i hne
    cases valueOf? t <;> simp [Text.after?, Ne.symm hne]

/-- A value that only one character can end. -/
theorem value?_append_closing (ht : closing ∉ t) (rest : Text) :
    value? closing [] (t ++ closing :: rest) = (valueOf? t).map (·, rest) := by
  have hinside : ∀ d ∈ t, d ≠ closing ∧ d ∉ ([] : List Char) := fun d hd => ⟨fun heq => ht (heq ▸ hd), List.not_mem_nil⟩
  rw [value?_append hinside (.inl rfl), if_pos rfl]

theorem value?_eq_none (ht : closing ∉ t) : value? closing barred t = none := by
  refine Option.eq_none_iff_forall_ne_some.mpr fun found hfound => ht ?_
  obtain ⟨value, -, hfound⟩ := Option.bind_eq_some_iff.mp hfound
  obtain ⟨rest, hrest, -⟩ := Option.bind_eq_some_iff.mp hfound
  have hmem : closing ∈ t.dropWhile fun c => !(c == closing || barred.contains c) :=
    Text.eq_append_of_after? hrest ▸ List.mem_cons_self
  exact (List.dropWhile_sublist _).subset hmem

/-- The first character that ends a value. -/
theorem exists_first_end (h : ∃ c ∈ t, c = closing ∨ c ∈ barred) :
    ∃ before c after, t = before ++ c :: after ∧ (∀ d ∈ before, d ≠ closing ∧ d ∉ barred) ∧ (c = closing ∨ c ∈ barred) := by
  have hsome : (t.find? fun c => c = closing ∨ c ∈ barred).isSome := by simpa [List.find?_isSome] using h
  obtain ⟨c, hfind⟩ := Option.isSome_iff_exists.mp hsome
  obtain ⟨hc, before, after, ht, hbefore⟩ := List.find?_eq_some_iff_append.mp hfind
  exact ⟨before, c, after, ht, fun d hd => by simpa using hbefore d hd, by simpa using hc⟩

/-- What ends a value is found before anything that follows it. -/
theorem value?_append_of_exists (h : ∃ c ∈ t, c = closing ∨ c ∈ barred) (rest : Text) :
    value? closing barred (t ++ rest) = (value? closing barred t).map fun (value, more) => (value, more ++ rest) := by
  obtain ⟨before, c, after, rfl, hbefore, hc⟩ := exists_first_end h
  rw [List.append_assoc, List.cons_append, value?_append hbefore hc, value?_append hbefore hc]
  split
  · rw [Option.map_map]
    rfl
  · rfl

theorem value?_eq_some_iff {value : Text} : value? closing barred t = some (value, rest) ↔
    ∃ written, t = written ++ closing :: rest ∧ (∀ c ∈ written, c ≠ closing ∧ c ∉ barred) ∧ valueOf? written = some value := by
  constructor
  · intro h
    have hclosing : closing ∈ t := by
      by_contra hnone
      rw [value?_eq_none hnone] at h
      cases h
    have hend : ∃ c ∈ t, c = closing ∨ c ∈ barred := ⟨closing, hclosing, .inl rfl⟩
    obtain ⟨before, c, after, rfl, hbefore, hc⟩ := exists_first_end hend
    rw [value?_append hbefore hc] at h
    split at h
    · rename_i hsame
      subst hsame
      obtain ⟨value', hvalue, heq⟩ := Option.map_eq_some_iff.mp h
      obtain ⟨rfl, rfl⟩ := Prod.mk.inj heq
      exact ⟨before, rfl, hbefore, hvalue⟩
    · cases h
  · rintro ⟨written, rfl, hwritten, hvalue⟩
    rw [value?_append hwritten (.inl rfl), if_pos rfl, hvalue]
    rfl

end Values

section Starts

variable {t s z rest : Text}

theorem gitClause?_eq (t : Text) : gitClause? t = (clauseStart? t).bind fun (tag, rest) =>
    (value? '\x7d' [] rest).map fun (repo, rest) => (⟨tag, repo⟩, rest) := by
  simp only [gitClause?, clauseStart?, Option.bind_eq_bind, Option.bind_assoc, Option.map_eq_bind]
  rfl

/-- A wording may have blanks before it. -/
theorem after?_trimStart {b : Text} (hb : Text.isBlankOnly b = true) (mark : Text) (hmark : mark.head?.any (!isBlank ·) = true)
    (rest : Text) : Text.after? mark (Text.trimStart (b ++ (mark ++ rest))) = some rest := by
  cases mark with
  | nil => cases hmark
  | cons c mark =>
      have hc : isBlank c = false := by simpa using hmark
      rw [Text.trimStart_append hb, List.cons_append, Text.trimStart_cons hc, ← List.cons_append, Text.after?_append]

/-- The beginning of a clause is read, whatever blanks are in it. -/
theorem clauseStart?_eq {b₁ b₂ b₃ tag : Text} (hb₁ : Text.isBlankOnly b₁ = true) (hb₂ : Text.isBlankOnly b₂ = true)
    (hb₃ : Text.isBlankOnly b₃ = true) (hcomma : ',' ∉ tag) (hbrace : '\x7d' ∉ tag) (rest : Text) :
    clauseStart? ("git:" ++ (b₁ ++ ("\x7b" ++ (b₂ ++ ("tag:" ++ (tag ++ ',' :: (b₃ ++ ("repo:" ++ rest)))))))) =
      (valueOf? tag).map (·, rest) := by
  have htag : ∀ c ∈ tag, c ≠ ',' ∧ c ∉ (['\x7d'] : List Char) := by
    intro c hc
    refine ⟨fun heq => hcomma (heq ▸ hc), fun hmem => hbrace ?_⟩
    rwa [← List.mem_singleton.mp hmem]
  have hopened := after?_trimStart hb₁ "\x7b" (by decide)
  have htagged := after?_trimStart hb₂ "tag:" (by decide)
  have hkept := after?_trimStart hb₃ "repo:" (by decide)
  simp only [clauseStart?, Option.bind_eq_bind, Option.bind_some, Text.after?_append, hopened, htagged,
    value?_append htag (.inl rfl), if_true]
  cases valueOf? tag with
  | none => rfl
  | some value =>
      simp only [Option.map_some, Option.bind_some, hkept]
      rfl

theorem isClauseStart_iff : IsClauseStart t rest ↔ ∃ tag, clauseStart? t = some (tag, rest) := by
  constructor
  · rintro ⟨b₁, b₂, b₃, tag, ⟨hb₁, hb₂, hb₃⟩, ⟨hne, hcomma, hbrace⟩, rfl⟩
    obtain ⟨value, hvalue⟩ := Option.ne_none_iff_exists'.mp (mt valueOf?_eq_none_iff.mp hne)
    exact ⟨value, by rw [clauseStart?_eq hb₁ hb₂ hb₃ hcomma hbrace, hvalue, Option.map_some]⟩
  · rintro ⟨tag, h⟩
    simp only [clauseStart?, Option.bind_eq_bind, Option.bind_eq_some_iff] at h
    obtain ⟨rest₁, h₁, rest₂, h₂, rest₃, h₃, ⟨tag', rest₄⟩, h₄, rest₅, h₅, heq⟩ := h
    obtain ⟨rfl, rfl⟩ := Prod.mk.inj (Option.some.inj heq)
    obtain ⟨written, rfl, hwritten, hvalue⟩ := value?_eq_some_iff.mp h₄
    obtain ⟨b₁, hb₁, hrest₁⟩ := Text.exists_blanks_trimStart rest₁
    obtain ⟨b₂, hb₂, hrest₂⟩ := Text.exists_blanks_trimStart rest₂
    obtain ⟨b₃, hb₃, hrest₄⟩ := Text.exists_blanks_trimStart rest₄
    rw [Text.eq_append_of_after? h₂] at hrest₁
    rw [Text.eq_append_of_after? h₃] at hrest₂
    rw [Text.eq_append_of_after? h₅] at hrest₄
    refine ⟨b₁, b₂, b₃, written, ⟨hb₁, hb₂, hb₃⟩, ⟨?_, ?_, ?_⟩, ?_⟩
    · rintro rfl
      cases hvalue
    · exact fun hmem => (hwritten _ hmem).1 rfl
    · exact fun hmem => (hwritten _ hmem).2 List.mem_cons_self
    · rw [Text.eq_append_of_after? h₁, hrest₁, hrest₂, hrest₄]

/-- A clause that begins before a comma goes on after it only with the word for the repository. -/
theorem clauseStart?_append (hz : Text.after? "repo:" (Text.trimStart z) = none) (s : Text) :
    clauseStart? (s ++ ',' :: z) = (clauseStart? s).map fun (tag, rest) => (tag, rest ++ ',' :: z) := by
  have hpassed (mark t : Text) (hmark : ',' ∉ mark) :
      Text.after? mark (Text.trimStart (t ++ ',' :: z)) = (Text.after? mark (Text.trimStart t)).map (· ++ ',' :: z) := by
    rw [Text.trimStart_append_cons (by decide), Text.after?_append_cons hmark]
  have hvalue (t : Text) : ((value? ',' ['\x7d'] (t ++ ',' :: z)).bind fun (tag, rest) =>
        (Text.after? "repo:" (Text.trimStart rest)).bind fun rest => some (tag, rest)) =
      ((value? ',' ['\x7d'] t).bind fun (tag, rest) =>
        (Text.after? "repo:" (Text.trimStart rest)).bind fun rest => some (tag, rest)).map
          fun (tag, rest) => (tag, rest ++ ',' :: z) := by
    by_cases hend : ∃ c ∈ t, c = ',' ∨ c ∈ (['\x7d'] : List Char)
    · rw [value?_append_of_exists hend]
      cases value? ',' ['\x7d'] t with
      | none => rfl
      | some found =>
          simp only [Option.map_some, Option.bind_some, hpassed "repo:" _ (by decide)]
          cases Text.after? "repo:" (Text.trimStart found.2) <;> rfl
    · have ht : ∀ c ∈ t, c ≠ ',' ∧ c ∉ (['\x7d'] : List Char) := fun c hc =>
        ⟨fun heq => hend ⟨c, hc, .inl heq⟩, fun hmem => hend ⟨c, hc, .inr hmem⟩⟩
      rw [value?_append ht (.inl rfl), if_pos rfl, value?_eq_none fun hmem => (ht _ hmem).1 rfl]
      cases valueOf? t with
      | none => rfl
      | some value => simp only [Option.map_some, Option.bind_some, hz, Option.bind_none, Option.map_none]
  simp only [clauseStart?, Option.bind_eq_bind, Text.after?_append_cons (show ',' ∉ ("git:" : Text) by decide)]
  cases Text.after? "git:" s with
  | none => rfl
  | some rest₁ =>
      simp only [Option.map_some, Option.bind_some, hpassed "\x7b" _ (by decide)]
      cases Text.after? "\x7b" (Text.trimStart rest₁) with
      | none => rfl
      | some rest₂ =>
          simp only [Option.map_some, Option.bind_some, hpassed "tag:" _ (by decide)]
          cases Text.after? "tag:" (Text.trimStart rest₂) with
          | none => rfl
          | some rest₃ => exact hvalue rest₃

theorem isSome_gitClause?_iff : (gitClause? t).isSome ↔
    ∃ rest repo after, IsClauseStart t rest ∧ rest = repo ++ '\x7d' :: after ∧ repo ≠ [] ∧ '\x7d' ∉ repo := by
  rw [gitClause?_eq]
  constructor
  · intro h
    obtain ⟨⟨revision, after⟩, h⟩ := Option.isSome_iff_exists.mp h
    obtain ⟨⟨tag, rest⟩, hstart, h⟩ := Option.bind_eq_some_iff.mp h
    obtain ⟨⟨repo, after'⟩, hrepo, -⟩ := Option.map_eq_some_iff.mp h
    obtain ⟨written, hrest, hwritten, hvalue⟩ := value?_eq_some_iff.mp hrepo
    refine ⟨rest, written, after', isClauseStart_iff.mpr ⟨tag, hstart⟩, hrest, ?_, fun hmem => (hwritten _ hmem).1 rfl⟩
    rintro rfl
    cases hvalue
  · rintro ⟨rest, repo, after, hstart, rfl, hne, hrepo⟩
    obtain ⟨tag, hstart⟩ := isClauseStart_iff.mp hstart
    obtain ⟨value, hvalue⟩ := Option.ne_none_iff_exists'.mp (mt valueOf?_eq_none_iff.mp hne)
    simp only [hstart, Option.bind_some, value?_append_closing hrepo, hvalue]
    rfl

theorem holdsClause_iff : HoldsClause t ↔ ∃ s, s <:+ t ∧ (gitClause? s).isSome := by
  constructor
  · rintro ⟨before, start, rest, repo, after, rfl, hstart⟩
    exact ⟨start, List.suffix_append before start, isSome_gitClause?_iff.mpr ⟨rest, repo, after, hstart⟩⟩
  · rintro ⟨start, ⟨before, hbefore⟩, hsome⟩
    obtain ⟨rest, repo, after, hstart⟩ := isSome_gitClause?_iff.mp hsome
    exact ⟨before, start, rest, repo, after, hbefore.symm, hstart⟩

theorem leavesOpen_iff : LeavesOpen t ↔ ∃ s, s <:+ t ∧ ∃ tag rest, clauseStart? s = some (tag, rest) ∧ '\x7d' ∉ rest := by
  constructor
  · rintro ⟨before, start, rest, rfl, hstart, hrest⟩
    obtain ⟨tag, hstart⟩ := isClauseStart_iff.mp hstart
    exact ⟨start, List.suffix_append before start, tag, rest, hstart, hrest⟩
  · rintro ⟨start, ⟨before, hbefore⟩, tag, rest, hstart, hrest⟩
    exact ⟨before, start, rest, hbefore.symm, isClauseStart_iff.mpr ⟨tag, hstart⟩, hrest⟩

instance : Decidable (HoldsClause t) :=
  decidable_of_iff (∃ s ∈ t.tails, (gitClause? s).isSome) (by simp only [holdsClause_iff, List.mem_tails])

instance : Decidable (LeavesOpen t) :=
  decidable_of_iff (∃ s ∈ t.tails, (clauseStart? s).any (fun found => '\x7d' ∉ found.2) = true) (by
    simp [leavesOpen_iff, List.mem_tails, Option.any_eq_true])

theorem LeavesOpen.append_left (h : LeavesOpen t) (s : Text) : LeavesOpen (s ++ t) := by
  obtain ⟨before, start, rest, rfl, h⟩ := h
  exact ⟨s ++ before, start, rest, (List.append_assoc s before start).symm, h⟩

theorem HoldsClause.append_left (h : HoldsClause t) (s : Text) : HoldsClause (s ++ t) := by
  obtain ⟨before, start, rest, repo, after, rfl, h⟩ := h
  exact ⟨s ++ before, start, rest, repo, after, (List.append_assoc s before start).symm, h⟩

/-- Where a clause can begin only behind a blank. -/
theorem suffix_of_isClauseStart (hs : ¬"git:" <:+: s) {start : Text} (hstart : IsClauseStart start rest)
    (h : start <:+ s ++ ' ' :: t) : start <:+ t := by
  obtain ⟨b₁, b₂, b₃, tag, -, -, rfl⟩ := hstart
  rcases List.suffix_or_suffix_of_suffix h (List.suffix_append s (' ' :: t)) with hinside | ⟨more, hmore⟩
  · rcases List.suffix_cons_iff.mp hinside with heq | hinside
    · cases heq
    · exact hinside
  · obtain ⟨before, hbefore⟩ := h
    rw [← hmore, ← List.append_assoc] at hbefore
    have hpart : more <:+: s := ⟨before, [], by simpa using List.append_cancel_right hbefore⟩
    have hnone := Text.after?_append_cons_eq_none (c := ' ') (by decide) (fun hmark => hs (hmark.trans hpart)) t
    rw [hmore, Text.after?_append] at hnone
    cases hnone

theorem HoldsClause.of_append (hs : ¬"git:" <:+: s) (h : HoldsClause (s ++ ' ' :: t)) : HoldsClause t := by
  obtain ⟨before, start, rest, repo, after, ht, hstart, hclause⟩ := h
  obtain ⟨before', hbefore⟩ := suffix_of_isClauseStart hs hstart ⟨before, ht.symm⟩
  exact ⟨before', start, rest, repo, after, hbefore.symm, hstart, hclause⟩

theorem LeavesOpen.of_append (hs : ¬"git:" <:+: s) (h : LeavesOpen (s ++ ' ' :: t)) : LeavesOpen t := by
  obtain ⟨before, start, rest, ht, hstart, hrest⟩ := h
  obtain ⟨before', hbefore⟩ := suffix_of_isClauseStart hs hstart ⟨before, ht.symm⟩
  exact ⟨before', start, rest, hbefore.symm, hstart, hrest⟩

/-- A clause neither stands in a text nor is left open in it, if nothing begins with its first word. -/
theorem not_isClauseStart (ht : ¬"git:" <:+: t) {before start : Text} (h : t = before ++ start) : ¬IsClauseStart start rest := by
  rintro ⟨b₁, b₂, b₃, tag, -, -, rfl⟩
  exact ht (h ▸ ⟨before, _, List.append_assoc before _ _⟩)

theorem not_holdsClause (ht : ¬"git:" <:+: t) : ¬HoldsClause t := fun ⟨_, _, _, _, _, h, hstart, _⟩ =>
  not_isClauseStart ht h hstart

theorem not_leavesOpen (ht : ¬"git:" <:+: t) : ¬LeavesOpen t := fun ⟨_, _, _, h, hstart, _⟩ =>
  not_isClauseStart ht h hstart

end Starts

/-- A value as it may be written between blanks, on one line. -/
structure IsValue (t : Text) : Prop where
  ne_nil : t ≠ []
  trim_eq : Text.trim t = t
  lineFeed : '\n' ∉ t

namespace IsValue

variable {t : Text}

instance : Decidable (IsValue t) :=
  decidable_of_iff (t ≠ [] ∧ Text.trim t = t ∧ '\n' ∉ t) ⟨fun ⟨hne, htrim, hline⟩ => ⟨hne, htrim, hline⟩, fun h =>
    ⟨h.ne_nil, h.trim_eq, h.lineFeed⟩⟩

theorem isBlankOnly (h : IsValue t) : Text.isBlankOnly t = false := Text.isBlankOnly_of_trim h.ne_nil h.trim_eq

theorem trimEnd_eq (h : IsValue t) : Text.trimEnd t = t := Text.trimEnd_of_trim h.trim_eq

theorem valueOf?_blank (h : IsValue t) : valueOf? (' ' :: t) = some t := by
  have hblank : Text.isBlankOnly (' ' :: t) = false := h.isBlankOnly
  rw [valueOf?_eq_trim hblank, Text.trim_cons_blank (by decide), h.trim_eq]

end IsValue

/-- A git clause as it is written. -/
def Revision.written (r : Revision) : Text := "git: \x7btag: " ++ r.tag ++ ", repo: " ++ r.repo ++ "\x7d"

/-- A revision that can be written as a git clause. -/
structure Revision.IsPlain (r : Revision) : Prop where
  tag : IsValue r.tag
  tag_comma : ',' ∉ r.tag
  tag_brace : '\x7d' ∉ r.tag
  repo : IsValue r.repo
  repo_brace : '\x7d' ∉ r.repo

instance (r : Revision) : Decidable r.IsPlain :=
  decidable_of_iff (IsValue r.tag ∧ ',' ∉ r.tag ∧ '\x7d' ∉ r.tag ∧ IsValue r.repo ∧ '\x7d' ∉ r.repo)
    ⟨fun ⟨htag, hcomma, hbrace, hrepo, hclosed⟩ => ⟨htag, hcomma, hbrace, hrepo, hclosed⟩, fun h =>
      ⟨h.tag, h.tag_comma, h.tag_brace, h.repo, h.repo_brace⟩⟩

section Takes

variable {t z : Text} {r : Revision}

/-- Text in which no clause begins is passed. -/
theorem takeRevision_pass (h : ∀ s, s ≠ [] → s <:+ t → gitClause? (s ++ z) = none) (backwards : Text) :
    takeRevision backwards (t ++ z) = takeRevision (t.reverse ++ backwards) z := by
  induction t generalizing backwards with
  | nil => rfl
  | cons c t ih =>
      have hnone := h (c :: t) (List.cons_ne_nil c t) List.suffix_rfl
      rw [List.cons_append] at hnone
      rw [List.cons_append, takeRevision, hnone]
      simp only [ih fun s hne hs => h s hne (hs.trans (List.suffix_cons c t)), List.reverse_cons, List.append_assoc]
      rfl

/-- Without a clause the text stays. -/
theorem takeRevision_of_not_holdsClause (h : ¬HoldsClause t) : takeRevision [] t = (none, t) := by
  have hnone : ∀ s, s ≠ [] → s <:+ t → gitClause? (s ++ []) = none := by
    intro s _ hs
    rw [List.append_nil]
    exact Option.not_isSome_iff_eq_none.mp fun hsome => h (holdsClause_iff.mpr ⟨s, hs, hsome⟩)
  have htake := takeRevision_pass hnone []
  rw [List.append_nil] at htake
  simp [htake, takeRevision]

/-- No clause begins before a comma, unless one was left open there. -/
theorem gitClause?_append_eq_none {s : Text} (h : gitClause? s = none)
    (hclosed : ∀ tag rest, clauseStart? s = some (tag, rest) → '\x7d' ∈ rest)
    (hz : Text.after? "repo:" (Text.trimStart z) = none) : gitClause? (s ++ ',' :: z) = none := by
  rw [gitClause?_eq] at h ⊢
  rw [clauseStart?_append hz]
  cases hstart : clauseStart? s with
  | none => rfl
  | some found =>
      obtain ⟨tag, rest⟩ := found
      have hbrace := hclosed tag rest hstart
      simp only [hstart, Option.bind_some, Option.map_eq_none_iff] at h
      simp only [Option.map_some, Option.bind_some, value?_append_of_exists ⟨_, hbrace, .inl rfl⟩, h]
      rfl

theorem takeRevision_append (hheld : ¬HoldsClause t) (hopen : ¬LeavesOpen t)
    (hz : Text.after? "repo:" (Text.trimStart z) = none) :
    takeRevision [] (t ++ ',' :: z) = takeRevision t.reverse (',' :: z) := by
  have hnone : ∀ s, s ≠ [] → s <:+ t → gitClause? (s ++ ',' :: z) = none := by
    intro s _ hs
    refine gitClause?_append_eq_none ?_ (fun tag rest hstart => ?_) hz
    · exact Option.not_isSome_iff_eq_none.mp fun hsome => hheld (holdsClause_iff.mpr ⟨s, hs, hsome⟩)
    · by_contra hbrace
      exact hopen (leavesOpen_iff.mpr ⟨s, hs, tag, rest, hstart, hbrace⟩)
  rw [takeRevision_pass hnone, List.append_nil]

theorem Revision.written_append (r : Revision) (after : Text) :
    r.written ++ after = ("git:" : Text) ++ ((" " : Text) ++ (("\x7b" : Text) ++ (([] : Text) ++ (("tag:" : Text) ++
      (' ' :: r.tag ++ ',' :: ((" " : Text) ++ (("repo:" : Text) ++ (' ' :: r.repo ++ '\x7d' :: after)))))))) := by
  unfold Revision.written
  simp

/-- A clause as it is written is read back. -/
theorem gitClause?_written (hr : r.IsPlain) (after : Text) : gitClause? (r.written ++ after) = some (r, after) := by
  have hblank : Text.isBlankOnly " " = true := rfl
  have hnone : Text.isBlankOnly [] = true := rfl
  have hcomma : ',' ∉ ' ' :: r.tag := List.not_mem_cons_of_ne_of_not_mem (by decide) hr.tag_comma
  have hbrace : '\x7d' ∉ ' ' :: r.tag := List.not_mem_cons_of_ne_of_not_mem (by decide) hr.tag_brace
  have hrepo : '\x7d' ∉ ' ' :: r.repo := List.not_mem_cons_of_ne_of_not_mem (by decide) hr.repo_brace
  rw [r.written_append, gitClause?_eq, clauseStart?_eq hblank hnone hblank hcomma hbrace]
  simp only [Option.map_some, Option.bind_some, value?_append_closing hrepo, hr.tag.valueOf?_blank,
    hr.repo.valueOf?_blank]

/-- The comma before a clause is taken out with it. -/
theorem beforeClause_append (t : Text) : beforeClause (t ++ [',', ' ']) = t := by
  have htrim : Text.trimEnd (t ++ [',', ' ']) = t ++ [','] := Text.trimEndWhere_append_cons (by decide) t [' ']
  simp only [beforeClause, htrim]
  exact congrArg (Option.getD · (t ++ [','])) (Text.before?_append t [','])

/-- A clause as it is written is taken out of the text, with the comma before it. -/
theorem takeRevision_written (hr : r.IsPlain) (hheld : ¬HoldsClause t) (hopen : ¬LeavesOpen t) (after : Text) :
    takeRevision [] (t ++ ',' :: ' ' :: (r.written ++ after)) = (some r, t ++ after) := by
  have hz : Text.after? "repo:" (Text.trimStart (' ' :: (r.written ++ after))) = none := rfl
  have hcomma : gitClause? (',' :: ' ' :: (r.written ++ after)) = none := rfl
  have hblank : gitClause? (' ' :: (r.written ++ after)) = none := rfl
  obtain ⟨c, more, hcons⟩ : ∃ c more, r.written ++ after = c :: more := ⟨_, _, rfl⟩
  have hclause := gitClause?_written hr after
  rw [takeRevision_append hheld hopen hz, takeRevision, hcomma]
  simp only [takeRevision, hblank]
  rw [hcons] at hclause ⊢
  rw [takeRevision, hclause]
  simp only [List.reverse_cons, List.reverse_reverse, List.append_assoc, List.cons_append, List.nil_append,
    beforeClause_append]

/-- A value keeps what follows after a comma. -/
theorem length_lt_of_valueOf? {before value : Text} (ht : Text.trimEnd t = t)
    (h : valueOf? (before ++ ',' :: t) = some value) : t.length < value.length := by
  have hblank : Text.isBlankOnly (before ++ ',' :: t) = false := by
    refine Bool.eq_false_iff.mpr fun hall => ?_
    have hcomma := List.all_eq_true.mp hall ',' (List.mem_append_right _ List.mem_cons_self)
    exact absurd hcomma (by decide)
  have htrim : Text.trim (before ++ ',' :: t) = Text.trimStart before ++ ',' :: t := by
    rw [Text.trim, Text.trimStart_append_cons (by decide), Text.trimEnd, Text.trimEndWhere_append_cons (by decide),
      ← Text.trimEnd, ht]
  rw [valueOf?_eq_trim hblank, htrim] at h
  rw [← Option.some.inj h]
  simp
  omega

/-- A clause whose repository was begun and not closed takes in the next one. -/
theorem gitClause?_append_written {s rest tag : Text} (hstart : clauseStart? s = some (tag, rest)) (hrest : '\x7d' ∉ rest)
    (hr : r.IsPlain) (after : Text) :
    ∃ repo, gitClause? (s ++ ',' :: ' ' :: (r.written ++ after)) = some (⟨tag, repo⟩, after) ∧
      r.repo.length < repo.length := by
  have hz : Text.after? "repo:" (Text.trimStart (' ' :: (r.written ++ after))) = none := rfl
  let run : Text := rest ++ (", git: \x7btag: " ++ r.tag)
  let last : Text := (" repo: " : Text) ++ r.repo
  have hcut : rest ++ ',' :: ' ' :: (r.written ++ after) = (run ++ ',' :: last) ++ '\x7d' :: after := by
    unfold run last Revision.written
    simp
  have hwritten : '\x7d' ∉ run ++ ',' :: last := by simp [run, last, hrest, hr.tag_brace, hr.repo_brace]
  have hlast : Text.trimEnd last = last := Text.trimEnd_append hr.repo.ne_nil hr.repo.trimEnd_eq _
  obtain ⟨repo, hrepo⟩ := Option.ne_none_iff_exists'.mp (mt valueOf?_eq_none_iff.mp (show run ++ ',' :: last ≠ [] by simp))
  refine ⟨repo, ?_, ?_⟩
  · rw [gitClause?_eq, clauseStart?_append hz, hstart]
    simp only [Option.map_some, Option.bind_some, hcut, value?_append_closing hwritten, hrepo]
  · have hlonger := length_lt_of_valueOf? hlast hrepo
    have hlength : r.repo.length ≤ last.length := (List.suffix_append _ r.repo).length_le
    omega

/-- A clause that was left open runs on to the end of the next one. -/
theorem takeRevision_of_leavesOpen (hheld : ¬HoldsClause t) (hopen : LeavesOpen t) (hr : r.IsPlain) (after backwards : Text) :
    ∃ r', (takeRevision backwards (t ++ ',' :: ' ' :: (r.written ++ after))).1 = some r' ∧
      r.repo.length < r'.repo.length := by
  induction t generalizing backwards with
  | nil =>
      obtain ⟨s, hs, tag, rest, hstart, -⟩ := leavesOpen_iff.mp hopen
      rw [List.suffix_nil.mp hs] at hstart
      cases hstart
  | cons c t ih =>
      rw [List.cons_append, takeRevision, ← List.cons_append]
      by_cases hhere : ∃ tag rest, clauseStart? (c :: t) = some (tag, rest) ∧ '\x7d' ∉ rest
      · obtain ⟨tag, rest, hstart, hrest⟩ := hhere
        obtain ⟨repo, hclause, hlonger⟩ := gitClause?_append_written hstart hrest hr after
        rw [hclause]
        exact ⟨⟨tag, repo⟩, rfl, hlonger⟩
      · have hnone : gitClause? (c :: t ++ ',' :: ' ' :: (r.written ++ after)) = none := by
          refine gitClause?_append_eq_none ?_ (fun tag rest hstart => ?_) rfl
          · exact Option.not_isSome_iff_eq_none.mp fun hsome => hheld (holdsClause_iff.mpr ⟨_, List.suffix_rfl, hsome⟩)
          · by_contra hrest
            exact hhere ⟨tag, rest, hstart, hrest⟩
        rw [hnone]
        refine ih (fun hholds => hheld (hholds.append_left [c])) ?_ (c :: backwards)
        obtain ⟨s, hs, tag, rest, hstart, hrest⟩ := leavesOpen_iff.mp hopen
        rcases List.suffix_cons_iff.mp hs with rfl | hs
        · exact absurd ⟨tag, rest, hstart, hrest⟩ hhere
        · exact leavesOpen_iff.mpr ⟨s, hs, tag, rest, hstart, hrest⟩

end Takes

end Manuscript.Inclusion
