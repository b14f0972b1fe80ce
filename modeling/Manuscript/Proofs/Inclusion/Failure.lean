import Manuscript.Proofs.Inclusion.Capture

/-!
The lines that stand for failed inclusions.

Main statements: such a line is one line of raw HTML (`rawHtml?_failureLine`, `lineFeed_notMem_failureLine`), so that an
expanded manuscript splits into the lines that it was put together from (`splitOn_expand_eq`).
-/

namespace Manuscript

namespace Inclusion

open Source (hint? rawHtml?)

theorem sublist_of_valueOf? {t value : Text} (h : valueOf? t = some value) : value.Sublist t := by
  unfold valueOf? at h
  split at h
  · cases h
  · rename_i c hlast
    obtain rfl := Option.some.inj h
    split
    · exact List.singleton_sublist.mpr (List.mem_of_getLast? hlast)
    · exact Text.trim_sublist t

theorem value_sublist_of_value? {closing : Char} {barred : List Char} {t value rest : Text}
    (h : value? closing barred t = some (value, rest)) : value.Sublist t := by
  simp only [value?, Option.bind_eq_bind, Option.bind_eq_some_iff] at h
  obtain ⟨value', hvalue, rest', -, heq⟩ := h
  obtain ⟨rfl, -⟩ := by simpa using heq
  exact (sublist_of_valueOf? hvalue).trans (List.takeWhile_sublist _)

theorem revision_sublist_of_gitClause? {t rest : Text} {revision : Revision}
    (h : gitClause? t = some (revision, rest)) : revision.tag.Sublist t ∧ revision.repo.Sublist t := by
  simp only [gitClause?, Option.bind_eq_bind, Option.bind_eq_some_iff] at h
  obtain ⟨rest₁, h₁, rest₂, h₂, rest₃, h₃, ⟨tag, rest₄⟩, h₄, rest₅, h₅, ⟨repo, rest₆⟩, h₆, heq⟩ := h
  obtain ⟨rfl, -⟩ := by simpa using heq
  have hclause : rest₃.Sublist t := calc
    rest₃.Sublist rest₂ := (Text.sublist_of_after? h₃).trans (Text.trimStart_sublist _)
    rest₂.Sublist rest₁ := (Text.sublist_of_after? h₂).trans (Text.trimStart_sublist _)
    rest₁.Sublist t := Text.sublist_of_after? h₁
  refine ⟨(value_sublist_of_value? h₄).trans hclause, ?_⟩
  calc
    repo.Sublist rest₅ := value_sublist_of_value? h₆
    rest₅.Sublist rest₄ := (Text.sublist_of_after? h₅).trans (Text.trimStart_sublist _)
    rest₄.Sublist rest₃ := sublist_of_value? h₄
    rest₃.Sublist t := hclause

theorem revision_sublist_of_takeRevision {backwards t : Text} {revision : Revision}
    (h : (takeRevision backwards t).1 = some revision) : revision.tag.Sublist t ∧ revision.repo.Sublist t := by
  induction t generalizing backwards with
  | nil => cases h
  | cons c t ih =>
      rw [takeRevision] at h
      split at h
      · rename_i hclause
        obtain rfl := Option.some.inj h
        exact revision_sublist_of_gitClause? hclause
      · exact (ih h).imp (·.cons c) (·.cons c)

theorem target_sublist_of_splitTarget? {depth : Nat} {t target rest : Text}
    (h : splitTarget? depth t = some (target, rest)) : target.Sublist t := by
  induction t generalizing depth target rest with
  | nil =>
      obtain ⟨rfl, -⟩ := by simpa [splitTarget?] using h
      exact List.Sublist.refl []
  | cons c t ih =>
      simp only [splitTarget?] at h
      split at h
      · obtain ⟨rfl, -⟩ := by simpa using h
        exact List.nil_sublist _
      · split at h
        · cases h
        · obtain ⟨⟨target', rest'⟩, hsplit, heq⟩ := Option.map_eq_some_iff.mp h
          obtain ⟨rfl, -⟩ := by simpa using heq
          exact (ih hsplit).cons_cons c

/-- The name of a part, where a subset is one. -/
def Subset.name? : Subset → Option Text
  | .part name => some name
  | .whole | .lines _ => none

theorem sublist_of_target? {t path : Text} {subset : Subset} (h : target? t = some (path, subset)) :
    path.Sublist t ∧ ∀ name, subset.name? = some name → name.Sublist t := by
  unfold target? at h
  split at h
  · obtain ⟨rfl, rfl⟩ := by simpa using h
    exact ⟨Text.trim_sublist t, nofun⟩
  · rename_i before rest hcut
    obtain ⟨hbefore, hrest⟩ := Text.sublist_of_cut? hcut
    simp only [Option.bind_eq_bind, Option.bind_eq_some_iff] at h
    obtain ⟨⟨selector, tail⟩, hlast, heq⟩ := h
    dsimp only at heq
    split at heq
    · obtain ⟨rfl, rfl⟩ := by simpa using heq
      refine ⟨(Text.trim_sublist before).trans hbefore, fun name hname => ?_⟩
      have hselector := (Text.sublist_of_cutLast? hlast).1.trans hrest
      unfold subsetOf at hname
      split at hname
      · cases hname
      · split at hname
        · cases hname
        · obtain rfl := Option.some.inj hname
          exact (Text.trim_sublist selector).trans hselector
    · cases heq

/-- What the failures of a directive quote: the path, the name of a part, and the revision. -/
def Directive.quoted (d : Directive) : List Text :=
  d.path :: d.subset.name?.toList ++ (d.revision.map fun r => [r.tag, r.repo]).getD []

theorem sublist_of_mem_quoted {inner : Text} {d : Directive} (h : body? inner = some d) :
    ∀ t ∈ d.quoted, t.Sublist inner := by
  have hrevision : (takeRevision [] inner).2.Sublist inner := takeRevision_sublist [] inner
  obtain ⟨hbefore, -⟩ := takeOptions_sublist (takeRevision [] inner).2
  simp only [body?, Option.bind_eq_bind, Option.bind_eq_some_iff] at h
  obtain ⟨⟨target, attributes⟩, hsplit, language, -, ⟨path, subset⟩, htarget, hd⟩ := h
  split at hd
  · cases hd
  · obtain rfl := Option.some.inj hd
    have hinner : target.Sublist inner := (target_sublist_of_splitTarget? hsplit).trans (hbefore.trans hrevision)
    obtain ⟨hpath, hname⟩ := sublist_of_target? htarget
    intro t ht
    rw [Directive.quoted, List.mem_append, List.mem_cons, Option.mem_toList] at ht
    rcases ht with (rfl | ht) | ht
    · exact hpath.trans hinner
    · exact (hname t ht).trans hinner
    · obtain ⟨l, hl, hmem⟩ : ∃ l, (takeRevision [] inner).1 = some l ∧ t ∈ [l.tag, l.repo] := by
        cases hr : (takeRevision [] inner).1 with
        | none => simp [hr] at ht
        | some r => exact ⟨r, rfl, by simpa [hr] using ht⟩
      obtain ⟨htag, hrepo⟩ := revision_sublist_of_takeRevision hl
      rcases List.mem_cons.mp hmem with rfl | hmem
      · exact htag
      · obtain rfl := List.mem_singleton.mp hmem
        exact hrepo

section LineFeeds

variable {sources : Sources} {line : Text} {d : Directive} {failure : Failure}

theorem lineFeed_notMem_of_inner? {inner : Text} (h : inner? line = some inner) : '\n' ∉ inner := by
  simp only [inner?, Option.bind_eq_bind, Option.bind_eq_some_iff] at h
  obtain ⟨_, -, _, -, inner', -, heq⟩ := h
  split at heq
  · cases heq
  · rename_i hbreak
    obtain rfl := Option.some.inj heq
    exact hbreak

theorem lineFeed_notMem_quoted (h : directive? line = some (.ok d)) : ∀ t ∈ d.quoted, '\n' ∉ t := by
  obtain ⟨inner, hinner, hparsed⟩ := Option.map_eq_some_iff.mp h
  cases hbody : body? inner with
  | none => simp [hbody] at hparsed
  | some d' =>
      simp only [hbody, Except.ok.injEq] at hparsed
      subst hparsed
      exact fun t ht hmem => lineFeed_notMem_of_inner? hinner ((sublist_of_mem_quoted hbody t ht).subset hmem)

/-- The texts that the wording of a failure quotes. -/
def Failure.quoted : Failure → List Text
  | .missingFile path => [path]
  | .missingPart name path => [name, path]
  | .missingTag tag repo => [tag, repo]
  | .missingRepository repo => [repo]
  | .malformed directive => [directive]

theorem lineFeed_notMem_quoted_of_malformed (h : directive? line = some (.error failure)) (hline : '\n' ∉ line) :
    ∀ t ∈ failure.quoted, '\n' ∉ t := by
  obtain ⟨inner, -, hparsed⟩ := Option.map_eq_some_iff.mp h
  split at hparsed
  · cases hparsed
  · cases hparsed
    simpa [Failure.quoted] using fun hmem => hline ((Text.trim_sublist line).subset hmem)

theorem notMem_append {c : Char} {s t : Text} (hs : c ∉ s) (ht : c ∉ t) : c ∉ s ++ t :=
  fun hmem => (List.mem_append.mp hmem).elim hs ht

theorem lineFeed_notMem_message (h : ∀ t ∈ failure.quoted, '\n' ∉ t) : '\n' ∉ failure.message := by
  cases failure with
  | missingFile path =>
      have hpath := h path List.mem_cons_self
      exact notMem_append (notMem_append (by decide +kernel) hpath) (by decide +kernel)
  | missingPart name path =>
      obtain ⟨hname, hpath, -⟩ := List.forall_mem_cons.mp h |>.imp_right List.forall_mem_cons.mp
      exact notMem_append (notMem_append (notMem_append (notMem_append (by decide +kernel) hname) (by decide +kernel))
        hpath) (by decide +kernel)
  | missingTag tag repo =>
      obtain ⟨htag, hrepo, -⟩ := List.forall_mem_cons.mp h |>.imp_right List.forall_mem_cons.mp
      exact notMem_append (notMem_append (notMem_append (notMem_append (by decide +kernel) htag) (by decide +kernel))
        hrepo) (by decide +kernel)
  | missingRepository repo =>
      have hrepo := h repo List.mem_cons_self
      exact notMem_append (notMem_append (by decide +kernel) hrepo) (by decide +kernel)
  | malformed directive =>
      have hdirective := h directive List.mem_cons_self
      exact notMem_append (notMem_append (by decide +kernel) hdirective) (by decide +kernel)

/-- A directive fails over what it quotes itself. -/
theorem lineFeed_notMem_quoted_of_resolve (hquoted : ∀ t ∈ d.quoted, '\n' ∉ t)
    (h : resolve sources.provider d = .error failure) : ∀ t ∈ failure.quoted, '\n' ∉ t := by
  have hpath : '\n' ∉ d.path := hquoted d.path List.mem_cons_self
  have hselect {t : Text} (hfails : d.select t = .error failure) : ∀ t ∈ failure.quoted, '\n' ∉ t := by
    unfold Directive.select at hfails
    split at hfails
    · cases hfails
    · cases hfails
    · rename_i name hsubset
      split at hfails
      · cases hfails
      · cases hfails
        have hname : '\n' ∉ name := hquoted name (by simp [Directive.quoted, Subset.name?, hsubset])
        simp [Failure.quoted, hname, hpath]
  rw [resolve_eq_bind] at h
  cases hrevision : d.revision with
  | none =>
      simp only [hrevision, Sources.provider, Sources.read] at h
      split at h
      · exact hselect h
      · cases h
        simpa [Failure.quoted] using hpath
  | some r =>
      have htag : '\n' ∉ r.tag := hquoted r.tag (by simp [Directive.quoted, hrevision])
      have hrepo : '\n' ∉ r.repo := hquoted r.repo (by simp [Directive.quoted, hrevision])
      simp only [hrevision, Sources.provider, Sources.readAt] at h
      split at h
      · cases h
        simpa [Failure.quoted] using hrepo
      · split at h
        · cases h
          simp [Failure.quoted, htag, hrepo]
        · split at h
          · exact hselect h
          · cases h
            simp [Failure.quoted, htag, hpath]

/-- What stands for a failed inclusion is one line. -/
theorem lineFeed_notMem_failureLine (h : ∀ t ∈ failure.quoted, '\n' ∉ t) : '\n' ∉ failureLine failure := by
  have hescaped := Html.lineFeed_notMem_escapeText (lineFeed_notMem_message h)
  exact notMem_append (notMem_append (by decide +kernel) hescaped) (by decide +kernel)

/-- It is raw HTML and nothing else. -/
theorem rawHtml?_failureLine (failure : Failure) :
    hint? (failureLine failure) = none ∧ (rawHtml? (failureLine failure)).isSome = true := by
  obtain ⟨after, hline⟩ : ∃ after, failureLine failure = ("%= " : Text) ++ '<' :: 's' :: after := ⟨_, rfl⟩
  have hstart : Text.trimStart (("%= " : Text) ++ '<' :: 's' :: after) = ("%=" : Text) ++ ' ' :: '<' :: 's' :: after := rfl
  have hrest : Text.trimStart (' ' :: '<' :: 's' :: after) = '<' :: 's' :: after := rfl
  obtain ⟨tail, htail⟩ := Text.exists_trimEnd_append (c := 's') (by decide) ['<'] after
  have htrim : Text.trim (' ' :: '<' :: 's' :: after) = '<' :: 's' :: tail := by rw [Text.trim, hrest]; exact htail
  have hlang : Text.startsWith "lang:" ('<' :: 's' :: tail) = false := rfl
  have hdirective : Text.startsWith "<<(" ('<' :: 's' :: tail) = false := rfl
  constructor
  · simp only [hint?, hline, hstart, Text.after?_append, Option.bind_eq_bind, Option.bind_some, hrest]
    rfl
  · simp only [rawHtml?, hline, hstart, Text.after?_append, Option.bind_eq_bind, Option.bind_some, htrim, hlang,
      hdirective, reduceCtorEq, Bool.false_eq_true, or_self, if_false, Option.isSome_some]

/-- A line without line feeds becomes lines without line feeds. -/
theorem lineFeed_notMem_expandLine (hline : '\n' ∉ line) (number : Nat) :
    ∀ l ∈ (expandLine sources.provider number line).1, '\n' ∉ l := by
  unfold expandLine
  cases hdirective : directive? line with
  | none => simpa using hline
  | some parsed =>
      cases parsed with
      | error failure =>
          simpa [Except.bind] using lineFeed_notMem_failureLine (lineFeed_notMem_quoted_of_malformed hdirective hline)
      | ok d =>
          cases hresolve : resolve sources.provider d with
          | error failure =>
              have hquoted := lineFeed_notMem_quoted_of_resolve (lineFeed_notMem_quoted hdirective) hresolve
              simpa [Except.bind, hresolve, Except.map] using lineFeed_notMem_failureLine hquoted
          | ok lines =>
              simp only [Except.bind, hresolve, Except.map]
              exact lineFeed_notMem_codeBlock hdirective hresolve

/-- Lines without line feeds become such lines. -/
theorem lineFeed_notMem_expandLines {lines : List Text} (hlines : ∀ l ∈ lines, '\n' ∉ l) (o : OpenLiteral) (number : Nat) :
    ∀ l ∈ (expandLines sources.provider o number lines).1, '\n' ∉ l := by
  induction lines generalizing o number with
  | nil => simp [expandLines]
  | cons line rest ih =>
      obtain ⟨hline, hrest⟩ := List.forall_mem_cons.mp hlines
      rcases o with _ | ⟨name, inner⟩
      · simp only [expandLines]
        split
        · exact List.forall_mem_cons.mpr ⟨hline, ih hrest _ _⟩
        · exact List.forall_mem_append.mpr ⟨lineFeed_notMem_expandLine hline number, ih hrest _ _⟩
      · exact List.forall_mem_cons.mpr ⟨hline, ih hrest _ _⟩

/-- An expanded manuscript splits into the lines that the lines of the manuscript become. -/
theorem splitOn_expand_eq (sources : Sources) (source : Text) :
    (expand sources.provider source).1.splitOn '\n' =
      (expandLines sources.provider none 1 (source.splitOn '\n')).1 :=
  Text.splitOn_unlines (lineFeed_notMem_expandLines (fun _ => Text.notMem_of_mem_splitOn) none 1)
    (expandLines_ne_nil sources.provider none 1 (List.splitOn_ne_nil '\n' source))

end LineFeeds

end Inclusion

end Manuscript
