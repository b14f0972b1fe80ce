import Mathlib.Logic.Function.Iterate
import Manuscript.Proofs.Cache.Calls
import Manuscript.Proofs.Cache.Meaning

/-!
Putting spans back.  A round of restoring replaces the tokens of a cache one after the other in the whole text,
and there are a fixed number of rounds.

Main statement: restoring a draft whose entries lie at most as deep inside one another as there are rounds gives
the full expansion of the draft, in which no token is left, whatever the order of the entries and of the labels
(`expands_restore_of_perm`).
-/

namespace Manuscript

namespace Cache

/-- The tokens of a cache with what they are replaced by, in the order in which they are replaced. -/
def replacements (c : Cache) (format : Format) : List (Text × Text) :=
  c.entries.map (fun e => (e.token, e.render format)) ++
    c.labels.map fun l => (l.1, renderLabel format l.2)

/-- The tokens of a cache, in the order in which they are replaced. -/
def tokens (c : Cache) : List Text := c.entries.map Entry.token ++ c.labels.map Prod.fst

theorem map_fst_replacements (c : Cache) (format : Format) :
    (c.replacements format).map Prod.fst = c.tokens := by
  simp [replacements, tokens, Function.comp_def]

theorem restoreOnce_eq_foldl (c : Cache) (format : Format) (t : Text) :
    c.restoreOnce format t =
      (c.replacements format).foldl (fun t r => Text.replaceAll r.1 r.2 t) t := by
  simp [restoreOnce, replaceLabels, replaceEntries, replacements, List.foldl_append, List.foldl_map]

/-- Stopping at a text that does not change any more is no different from going on. -/
theorem restoreRounds_eq_iterate (c : Cache) (format : Format) (rounds : Nat) (t : Text) :
    c.restoreRounds format rounds t = (c.restoreOnce format)^[rounds] t := by
  induction rounds generalizing t with
  | zero => rfl
  | succ rounds ih =>
      rw [restoreRounds, Function.iterate_succ_apply]
      split
      · rename_i hfixed
        rw [hfixed, Function.iterate_fixed hfixed]
      · exact ih _

end Cache

namespace Meaning

variable {m : Meaning} {c : Cache} {format : Format}

/-- The meaning is the one that a cache gives the tokens in a format. -/
structure Describes (m : Meaning) (c : Cache) (format : Format) : Prop where
  closed : m.Closed
  ne_nil : ∀ token ∈ c.tokens, token ≠ []
  text : ∀ r ∈ c.replacements format, ∀ new, m.draft? r.1 = some new → Draft.text new = r.2
  entries : ∀ token new, m.cached? token = some new → token ∈ c.entries.map Entry.token
  labels : ∀ token text, m.label? token = some text → token ∈ c.labels.map Prod.fst
  apart : ∀ token ∈ c.labels.map Prod.fst, m.cached? token = none

/-- The tokens occur only where they were put, in a draft and in all that comes of it by replacing tokens. -/
def Marks (m : Meaning) (tokens : List Text) (d : Draft) : Prop :=
  ∀ e, m.Unfolds d e → ∀ token ∈ tokens, e.OccursAsPut token

/-- The draft after one round. -/
def pass (m : Meaning) (c : Cache) (d : Draft) : Draft := c.tokens.foldl m.unfold d

theorem Marks.unfold {tokens : List Text} {d : Draft} (h : m.Marks tokens d) (token : Text) :
    m.Marks tokens (m.unfold d token) :=
  fun e he => h e (Unfolds.trans (.step token .refl) he)

/-- Whether tokens are markers can be found out by looking at finitely many drafts that no replacement leads out
of. -/
theorem marks_of_forall_mem {tokens : List Text} (drafts : List Draft)
    (hother : ∀ token, token ∉ tokens → m.draft? token = none) (hne : ∀ token ∈ tokens, token ≠ [])
    (hunfold : ∀ e ∈ drafts, ∀ token ∈ tokens, m.unfold e token ∈ drafts)
    (hplaces : ∀ e ∈ drafts, ∀ token ∈ tokens, ∀ place < (Draft.text e).length,
      Text.startsWith token ((Draft.text e).drop place) → place ∈ Draft.places token 0 e)
    {d : Draft} (hd : d ∈ drafts) : m.Marks tokens d := by
  intro e he
  have hmem : e ∈ drafts := by
    induction he with
    | refl => exact hd
    | step token _ ih =>
        by_cases htoken : token ∈ tokens
        · exact hunfold _ ih token htoken
        · rwa [unfold, hother token htoken]
  exact fun token htoken => (Draft.occursAsPut_iff (hne token htoken)).mpr (hplaces e hmem token htoken)

theorem unfolds_pass (d : Draft) : m.Unfolds d (m.pass c d) :=
  Unfolds.refl.foldl c.tokens

theorem unfolds_iterate_pass (rounds : Nat) (d : Draft) : m.Unfolds d ((m.pass c)^[rounds] d) := by
  induction rounds with
  | zero => exact .refl
  | succ rounds ih =>
      rw [Function.iterate_succ_apply']
      exact ih.trans (unfolds_pass _)

theorem replaceAll_text {token replacement : Text} (htoken : token ≠ []) {d : Draft}
    (hmark : d.OccursAsPut token) (hknown : m.Known d)
    (htext : ∀ new, m.draft? token = some new → Draft.text new = replacement) :
    Text.replaceAll token replacement (Draft.text d) = Draft.text (m.unfold d token) := by
  unfold Meaning.unfold
  split
  · rename_i new hnew
    rw [← htext new hnew]
    exact Draft.replaceAll_text htoken hmark new
  · rename_i hnone
    have hput : .token token ∉ d := by
      intro hmem
      have := hknown token hmem
      simp [hnone] at this
    exact Draft.replaceAll_text_eq_self htoken hmark hput replacement

theorem foldl_replaceAll_text (hclosed : m.Closed) (rs : List (Text × Text)) {d : Draft}
    (hne : ∀ token ∈ rs.map Prod.fst, token ≠ [])
    (htext : ∀ r ∈ rs, ∀ new, m.draft? r.1 = some new → Draft.text new = r.2)
    (hmarks : m.Marks (rs.map Prod.fst) d) (hknown : m.Known d) :
    rs.foldl (fun t r => Text.replaceAll r.1 r.2 t) (Draft.text d) =
      Draft.text ((rs.map Prod.fst).foldl m.unfold d) := by
  induction rs generalizing d with
  | nil => rfl
  | cons r rs ih =>
      rw [List.foldl_cons, List.map_cons, List.foldl_cons]
      have hhead := replaceAll_text (hne r.1 List.mem_cons_self)
        (hmarks d .refl r.1 List.mem_cons_self) hknown (htext r List.mem_cons_self)
      rw [hhead]
      refine ih (fun token hmem => hne token (List.mem_cons_of_mem r.1 hmem))
        (fun r' hr' => htext r' (List.mem_cons_of_mem r hr')) ?_
        (hknown.unfolds hclosed (.step r.1 .refl))
      exact fun e he token hmem => hmarks.unfold r.1 e he token (List.mem_cons_of_mem r.1 hmem)

/-- A round of restoring a text is a round on the draft that it is the text of. -/
theorem restoreOnce_text (hm : m.Describes c format) {d : Draft} (hmarks : m.Marks c.tokens d)
    (hknown : m.Known d) : c.restoreOnce format (Draft.text d) = Draft.text (m.pass c d) := by
  rw [Cache.restoreOnce_eq_foldl, pass, ← Cache.map_fst_replacements c format]
  rw [← Cache.map_fst_replacements c format] at hmarks
  refine foldl_replaceAll_text hm.closed _ ?_ hm.text hmarks hknown
  rw [Cache.map_fst_replacements]
  exact hm.ne_nil

theorem restoreRounds_text (hm : m.Describes c format) {d : Draft} (hmarks : m.Marks c.tokens d)
    (hknown : m.Known d) (rounds : Nat) :
    c.restoreRounds format rounds (Draft.text d) = Draft.text ((m.pass c)^[rounds] d) := by
  rw [Cache.restoreRounds_eq_iterate]
  induction rounds with
  | zero => rfl
  | succ rounds ih =>
      have hunfolds := unfolds_iterate_pass (m := m) (c := c) rounds d
      rw [Function.iterate_succ_apply', Function.iterate_succ_apply', ih]
      exact restoreOnce_text hm (fun e he => hmarks e (hunfolds.trans he))
        (hknown.unfolds hm.closed hunfolds)

/-- The entries' part of a round takes one level of nesting away. -/
theorem Describes.nestedWithin_entries (hm : m.Describes c format) {depth : Nat} {d : Draft}
    (h : m.NestedWithin (depth + 1) d) :
    m.NestedWithin depth ((c.entries.map Entry.token).foldl m.unfold d) := by
  apply nestedWithin_foldl_unfold
  intro token htoken
  cases hentry : m.cached? token with
  | none => exact Or.inl (within_of_cached?_eq_none hentry depth)
  | some new => exact Or.inr ⟨h token htoken, hm.entries token new hentry⟩

theorem Describes.nestedWithin_pass (hm : m.Describes c format) {depth : Nat} {d : Draft}
    (h : m.NestedWithin (depth + 1) d) : m.NestedWithin depth (m.pass c d) := by
  intro token htoken
  rw [pass, Cache.tokens, List.foldl_append] at htoken
  exact hm.nestedWithin_entries h token (token_mem_foldl_unfold hm.apart htoken).1

theorem Describes.nestedWithin_iterate_pass (hm : m.Describes c format) {depth : Nat} (rounds : Nat)
    {d : Draft} (h : m.NestedWithin (depth + rounds) d) :
    m.NestedWithin depth ((m.pass c)^[rounds] d) := by
  induction rounds generalizing depth with
  | zero => exact h
  | succ rounds ih =>
      have hsum : depth + (rounds + 1) = depth + 1 + rounds := by omega
      rw [Function.iterate_succ_apply']
      exact hm.nestedWithin_pass (ih (hsum ▸ h))

/-- When the entries lie no deeper than one level, a round leaves no token: the labels that the entries uncover
are replaced in the same round. -/
theorem Describes.token_notMem_pass (hm : m.Describes c format) {d : Draft} (hknown : m.Known d)
    (h : m.NestedWithin 1 d) (token : Text) : .token token ∉ m.pass c d := by
  intro htoken
  have hlast := hknown.unfolds hm.closed (unfolds_pass (c := c) d) token htoken
  rw [pass, Cache.tokens, List.foldl_append] at htoken
  obtain ⟨hmem, hlabel⟩ := token_mem_foldl_unfold hm.apart htoken
  have hentry : m.cached? token = none := hm.nestedWithin_entries h token hmem
  obtain ⟨new, hnew⟩ := Option.isSome_iff_exists.mp hlast
  obtain ⟨text, htext, -⟩ : ∃ text, m.label? token = some text ∧ Draft.plain text = new := by
    simpa [draft?, hentry] using hnew
  rw [hlabel (hm.labels token text htext)] at hnew
  cases hnew

/-- Restoring the text of a draft expands the draft and leaves no token. -/
theorem Describes.expands_restore (hm : m.Describes c format) {d : Draft} (hmarks : m.Marks c.tokens d)
    (hknown : m.Known d) (hdepth : m.NestedWithin Cache.maxDepth d) :
    m.Expands d (c.restore (Draft.text d) format) ∧
      ∀ token ∈ c.tokens, Text.contains token (c.restore (Draft.text d) format) = false := by
  have hunfolds := unfolds_iterate_pass (m := m) (c := c) Cache.maxDepth d
  have hdone : ∀ token, .token token ∉ (m.pass c)^[Cache.maxDepth] d := by
    rw [Cache.maxDepth, Function.iterate_succ_apply']
    apply hm.token_notMem_pass (hknown.unfolds hm.closed (unfolds_iterate_pass 7 d))
    exact hm.nestedWithin_iterate_pass 7 hdepth
  rw [Cache.restore, restoreRounds_text hm hmarks hknown]
  constructor
  · exact Expands.of_unfolds hunfolds (Expands.text hdone)
  · exact fun token htoken => Draft.contains_text_eq_false (hmarks _ hunfolds token htoken) (hdone token)

end Meaning

namespace Call

variable {salt : Text} {calls : List Call} {format : Format}

/-- What the tokens of some calls stand for in a format. -/
def meaning (salt : Text) (calls : List Call) (format : Format) : Meaning where
  cached? token := ((first? salt calls token).filter fun call => call.name?.isNone).map (rendered format)
  label? token := ((first? salt calls token).bind name?).map (Cache.renderLabel format)

/-- What a call caches may hold tokens that earlier calls returned, and no others. -/
def EmbedEarlier (salt : Text) (calls : List Call) : Prop :=
  ∀ earlier call later, calls = earlier ++ call :: later →
    ∀ token, .token token ∈ call.content → ∃ before ∈ earlier, before.token salt = token

theorem first?_eq_some {token : Text} {call : Call} (h : first? salt calls token = some call) :
    call ∈ calls ∧ call.token salt = token :=
  ⟨List.mem_of_find?_eq_some h, by simpa using List.find?_some h⟩

theorem isSome_first? (salt : Text) {call : Call} (h : call ∈ calls) : (first? salt calls (call.token salt)).isSome :=
  List.find?_isSome.mpr ⟨call, h, by simp⟩

theorem draft?_meaning (token : Text) :
    (meaning salt calls format).draft? token = (first? salt calls token).map (rendered format) := by
  simp only [Meaning.draft?, meaning]
  cases first? salt calls token with
  | none => rfl
  | some call => cases call <;> rfl

theorem EmbedEarlier.exists_of_mem (hembed : EmbedEarlier salt calls) {call : Call} (hcall : call ∈ calls)
    {token : Text} (htoken : .token token ∈ call.content) :
    ∃ before ∈ calls, before.token salt = token := by
  obtain ⟨earlier, later, rfl⟩ := List.append_of_mem hcall
  obtain ⟨before, hbefore, heq⟩ := hembed earlier call later rfl token htoken
  exact ⟨before, List.mem_append_left _ hbefore, heq⟩

theorem draft?_meaning_eq_none {token : Text} (h : token ∉ calls.map (Call.token salt)) :
    (meaning salt calls format).draft? token = none := by
  rw [draft?_meaning, Option.map_eq_none_iff]
  refine List.find?_eq_none.mpr fun call hcall heq => h ?_
  exact (of_decide_eq_true heq) ▸ List.mem_map_of_mem hcall

theorem known_of_forall {d : Draft}
    (h : ∀ token, .token token ∈ d → ∃ call ∈ calls, call.token salt = token) :
    (meaning salt calls format).Known d := by
  intro token htoken
  obtain ⟨call, hcall, rfl⟩ := h token htoken
  rw [draft?_meaning, Option.isSome_map]
  exact isSome_first? salt hcall

theorem EmbedEarlier.closed (hembed : EmbedEarlier salt calls) : (meaning salt calls format).Closed := by
  intro token new hnew
  obtain ⟨call, hfirst, rfl⟩ := Option.map_eq_some_iff.mp hnew
  obtain ⟨hfirst, -⟩ := Option.filter_eq_some_iff.mp hfirst
  apply known_of_forall
  intro inner hinner
  exact hembed.exists_of_mem (first?_eq_some hfirst).1 (token_mem_rendered.mp hinner)

theorem exists_cached?_of_name?_isNone (salt : Text) {call : Call} (h : call.name?.isNone) :
    ∃ e, call.cached? salt = some e := by
  cases call with
  | label name => simp [name?] at h
  | _ => exact ⟨_, rfl⟩

theorem text_rendered_of_name? {call : Call} {name : Text} (h : call.name? = some name) :
    (call.rendered format).text = Cache.renderLabel format name := by
  cases call with
  | label name' =>
      obtain rfl := Option.some.inj h
      exact Draft.text_plain _
  | _ => simp [name?] at h

end Call

namespace Cache

variable {salt : Text} {calls : List Call} {format : Format} {c : Cache}

theorem exists_call_of_mem_tokens (hdistinct : Call.Distinct salt calls)
    (hentries : c.entries.Perm (build salt calls).entries) (hlabels : c.labels.Perm (build salt calls).labels)
    {token : Text} (h : token ∈ c.tokens) : ∃ call ∈ calls, call.token salt = token := by
  rcases List.mem_append.mp h with hentry | hlabel
  · obtain ⟨e, he, rfl⟩ := List.mem_map.mp hentry
    obtain ⟨call, hfirst, -⟩ := (mem_entries_build hdistinct).mp (hentries.mem_iff.mp he)
    exact ⟨call, Call.first?_eq_some hfirst⟩
  · obtain ⟨l, hl, rfl⟩ := List.mem_map.mp hlabel
    obtain ⟨call, hfirst, -⟩ := (mem_labels_build hdistinct).mp (hlabels.mem_iff.mp hl)
    exact ⟨call, Call.first?_eq_some hfirst⟩

theorem mem_tokens_of_mem_calls (hdistinct : Call.Distinct salt calls)
    (hentries : c.entries.Perm (build salt calls).entries) (hlabels : c.labels.Perm (build salt calls).labels)
    {call : Call} (h : call ∈ calls) : call.token salt ∈ c.tokens := by
  obtain ⟨first, hfirst⟩ := Option.isSome_iff_exists.mp (Call.isSome_first? salt h)
  cases hname : first.name? with
  | some name =>
      have hmem := hlabels.mem_iff.mpr ((mem_labels_build hdistinct).mpr ⟨first, hfirst, hname⟩)
      exact List.mem_append_right _ (List.mem_map_of_mem hmem)
  | none =>
      obtain ⟨e, he⟩ := Call.exists_cached?_of_name?_isNone salt (Option.isNone_iff_eq_none.mpr hname)
      have htoken : e.token = call.token salt :=
        (Call.token_of_cached? he).trans (Call.first?_eq_some hfirst).2
      have hmem := hentries.mem_iff.mpr ((mem_entries_build hdistinct).mpr ⟨first, htoken ▸ hfirst, he⟩)
      exact List.mem_append_left _ (htoken ▸ List.mem_map_of_mem hmem)

/-- A cache is described by the calls that it was built up by, in whatever order it holds its entries and
labels. -/
theorem describes_of_perm (hembed : Call.EmbedEarlier salt calls) (hdistinct : Call.Distinct salt calls)
    (hentries : c.entries.Perm (build salt calls).entries) (hlabels : c.labels.Perm (build salt calls).labels) :
    (Call.meaning salt calls format).Describes c format where
  closed := hembed.closed
  ne_nil token htoken := by
    obtain ⟨call, -, rfl⟩ := exists_call_of_mem_tokens hdistinct hentries hlabels htoken
    exact call.token_ne_nil salt
  text r hr new hnew := by
    rw [Call.draft?_meaning] at hnew
    obtain ⟨call, hfirst, rfl⟩ := Option.map_eq_some_iff.mp hnew
    rcases List.mem_append.mp hr with hentry | hlabel
    · obtain ⟨e, he, rfl⟩ := List.mem_map.mp hentry
      obtain ⟨call', hfirst', hcall'⟩ := (mem_entries_build hdistinct).mp (hentries.mem_iff.mp he)
      obtain rfl := Option.some.inj (hfirst.symm.trans hfirst')
      refine Call.text_rendered hcall' (fun inner hinner => ?_) format
      obtain ⟨before, -, rfl⟩ := hembed.exists_of_mem (Call.first?_eq_some hfirst).1 hinner
      exact ⟨_, rfl⟩
    · obtain ⟨l, hl, rfl⟩ := List.mem_map.mp hlabel
      obtain ⟨call', hfirst', hcall'⟩ := (mem_labels_build hdistinct).mp (hlabels.mem_iff.mp hl)
      obtain rfl := Option.some.inj (hfirst.symm.trans hfirst')
      exact Call.text_rendered_of_name? hcall'
  entries token new hnew := by
    obtain ⟨call, hfiltered, -⟩ := Option.map_eq_some_iff.mp hnew
    obtain ⟨hfirst, hname⟩ := Option.filter_eq_some_iff.mp hfiltered
    obtain ⟨e, he⟩ := Call.exists_cached?_of_name?_isNone salt hname
    have htoken : e.token = token := (Call.token_of_cached? he).trans (Call.first?_eq_some hfirst).2
    have hmem := hentries.mem_iff.mpr ((mem_entries_build hdistinct).mpr ⟨call, htoken ▸ hfirst, he⟩)
    exact htoken ▸ List.mem_map_of_mem hmem
  labels token text htext := by
    obtain ⟨name, hname, -⟩ := Option.map_eq_some_iff.mp htext
    obtain ⟨call, hfirst, hcall⟩ := Option.bind_eq_some_iff.mp hname
    exact List.mem_map_of_mem (hlabels.mem_iff.mpr ((mem_labels_build hdistinct).mpr ⟨call, hfirst, hcall⟩))
  apart token htoken := by
    obtain ⟨l, hl, rfl⟩ := List.mem_map.mp htoken
    obtain ⟨call, hfirst, hcall⟩ := (mem_labels_build hdistinct).mp (hlabels.mem_iff.mp hl)
    simp [Call.meaning, hfirst, hcall]

/-- The cache with its entries and its labels the other way round. -/
def reversed (c : Cache) : Cache := { c with entries := c.entries.reverse, labels := c.labels.reverse }

theorem entries_reversed_perm (c : Cache) : c.reversed.entries.Perm c.entries := c.entries.reverse_perm

theorem labels_reversed_perm (c : Cache) : c.reversed.labels.Perm c.labels := c.labels.reverse_perm

/-- Restoring is full recursive substitution.  The cache may hold its entries and its labels in any order, and the
tokens are assumed to be markers: different things have different tokens, and they occur only where they were
put, also after replacements. -/
theorem expands_restore_of_perm {d : Draft} (hembed : Call.EmbedEarlier salt calls)
    (hput : ∀ token, .token token ∈ d → ∃ call ∈ calls, call.token salt = token)
    (hdistinct : Call.Distinct salt calls)
    (hmarks : (Call.meaning salt calls format).Marks (calls.map (Call.token salt)) d)
    (hdepth : (Call.meaning salt calls format).NestedWithin 8 d)
    (hentries : c.entries.Perm (build salt calls).entries)
    (hlabels : c.labels.Perm (build salt calls).labels) :
    (Call.meaning salt calls format).Expands d (c.restore (Draft.text d) format) ∧
      c.restore (Draft.text d) format = (build salt calls).restore (Draft.text d) format ∧
      ∀ call ∈ calls, Text.contains (call.token salt) (c.restore (Draft.text d) format) = false := by
  have hknown : (Call.meaning salt calls format).Known d := Call.known_of_forall hput
  have hrestore : ∀ {c' : Cache}, c'.entries.Perm (build salt calls).entries →
      c'.labels.Perm (build salt calls).labels →
        (Call.meaning salt calls format).Expands d (c'.restore (Draft.text d) format) ∧
          ∀ token ∈ c'.tokens, Text.contains token (c'.restore (Draft.text d) format) = false := by
    intro c' hentries' hlabels'
    refine (describes_of_perm hembed hdistinct hentries' hlabels').expands_restore ?_ hknown hdepth
    intro e he token htoken
    obtain ⟨call, hcall, rfl⟩ := exists_call_of_mem_tokens hdistinct hentries' hlabels' htoken
    exact hmarks e he _ (List.mem_map_of_mem hcall)
  obtain ⟨hexpands, hgone⟩ := hrestore hentries hlabels
  refine ⟨hexpands, hexpands.unique (hrestore (.refl _) (.refl _)).1, fun call hcall => ?_⟩
  exact hgone _ (mem_tokens_of_mem_calls hdistinct hentries hlabels hcall)

end Cache

namespace NestedMath

/-- A call that caches a character beyond ASCII. -/
def accent : Call := .span .unicode (Draft.plain "é")

/-- A call that gives a label a token. -/
def label : Call := .label "eq:1"

/-- A call that caches mathematics in which the tokens of both stand. -/
def formula : Call :=
  .delimited .math "inline" (Draft.plain "a<" ++ [.token (accent.token "s"), .token (label.token "s")])

/-- The calls in their order. -/
def calls : List Call := [accent, label, formula]

/-- A text with the token of the formula in it. -/
def draft : Draft := Draft.plain "so " ++ [.token (formula.token "s")]

/-- The drafts that replacements lead to. -/
def drafts : List Draft :=
  [draft, Draft.plain "so \\(a&lt;" ++ [.token (accent.token "s"), .token (label.token "s")] ++ Draft.plain "\\)",
    Draft.plain "so \\(a&lt;é" ++ [.token (label.token "s")] ++ Draft.plain "\\)",
    Draft.plain "so \\(a&lt;" ++ [.token (accent.token "s")] ++ Draft.plain "\\)",
    Draft.plain "so \\(a&lt;é\\)"]

theorem embedEarlier : Call.EmbedEarlier "s" calls := by
  intro earlier call later hcalls token htoken
  rcases earlier with _ | ⟨first, _ | ⟨second, _ | ⟨third, rest⟩⟩⟩
  · obtain ⟨rfl, -⟩ := by simpa [calls] using hcalls
    simp [accent, Call.content] at htoken
  · obtain ⟨-, rfl, -⟩ := by simpa [calls] using hcalls
    simp [label, Call.content] at htoken
  · obtain ⟨rfl, rfl, rfl, -⟩ := by simpa [calls] using hcalls
    simpa [formula, Call.content, eq_comm] using htoken
  · simp [calls] at hcalls

theorem distinct : Call.Distinct "s" calls :=
  Call.distinct_of_nodup (by decide +kernel)

theorem token_mem_draft {token : Text} : .token token ∈ draft ↔ token = formula.token "s" := by
  rw [draft, List.mem_append, List.mem_singleton, Part.token.injEq]
  exact or_iff_right (Draft.token_notMem_plain token _)

theorem marks : (Call.meaning "s" calls .html).Marks (calls.map (Call.token "s")) draft := by
  refine Meaning.marks_of_forall_mem drafts (fun _ => Call.draft?_meaning_eq_none) ?_ ?_ ?_
    List.mem_cons_self
  · intro token htoken
    obtain ⟨call, -, rfl⟩ := List.mem_map.mp htoken
    exact call.token_ne_nil "s"
  · decide +kernel
  · decide +kernel

theorem nestedWithin : (Call.meaning "s" calls .html).NestedWithin 8 draft := by
  have hformula : (Call.meaning "s" calls .html).cached? (formula.token "s") = some (formula.rendered .html) := by
    decide +kernel
  have haccent : (Call.meaning "s" calls .html).cached? (accent.token "s") = some (accent.rendered .html) := by
    decide +kernel
  have hlabel : (Call.meaning "s" calls .html).cached? (label.token "s") = none := by decide +kernel
  intro token htoken
  rw [token_mem_draft.mp htoken]
  intro new hnew inner hinner
  obtain rfl := Option.some.inj (hformula.symm.trans hnew)
  have hcontent : inner = accent.token "s" ∨ inner = label.token "s" := by
    simpa [formula, Call.content] using Call.token_mem_rendered.mp hinner
  rcases hcontent with heq | heq
  · rw [heq]
    intro new hnew inner hinner
    obtain rfl := Option.some.inj (haccent.symm.trans hnew)
    simp [accent, Call.token_mem_rendered, Call.content] at hinner
  · rw [heq]
    exact Meaning.within_of_cached?_eq_none hlabel 7

/-- Restoring a formula with a character and a label in it, from a cache that holds everything in reverse. -/
theorem expands_restore_reversed :
    let c := Cache.build "s" calls
    (∀ token, .token token ∈ draft → ∃ call ∈ calls, call.token "s" = token) ∧
      c.reversed.entries.Perm c.entries ∧ c.reversed.labels.Perm c.labels ∧
      (Call.meaning "s" calls .html).Expands draft (c.reversed.restore (Draft.text draft) .html) ∧
      c.reversed.restore (Draft.text draft) .html = c.restore (Draft.text draft) .html ∧
      ∀ call ∈ calls, Text.contains (call.token "s") (c.reversed.restore (Draft.text draft) .html) = false := by
  intro c
  have hput : ∀ token, .token token ∈ draft → ∃ call ∈ calls, call.token "s" = token := by
    intro token htoken
    exact ⟨formula, by simp [calls], (token_mem_draft.mp htoken).symm⟩
  exact ⟨hput, c.entries_reversed_perm, c.labels_reversed_perm,
    Cache.expands_restore_of_perm embedEarlier hput distinct marks nestedWithin
      c.entries_reversed_perm c.labels_reversed_perm⟩

end NestedMath

end Manuscript
