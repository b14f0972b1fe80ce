import Manuscript.Proofs.Cache.Calls
import Manuscript.Proofs.Cache.Framing

/-!
What a cache gives back.  The first call for a span decides what its token stands for, at once and after all later calls.

Main statement: the cache after any calls holds what they gave first, in the order in which they first gave it, as long as
they are given no null characters and no digests collide (`isWriteOnce`).
-/

namespace Manuscript

deriving instance DecidableEq for CodeKey

deriving instance DecidableEq for Cacheable

namespace Call

/-- The calls for spans that no call before them is for. -/
def firsts : List Call → List Call
  | [] => []
  | call :: calls => call :: (firsts calls).filter (·.cacheable ≠ call.cacheable)

theorem firsts_sublist (calls : List Call) : (firsts calls).Sublist calls := by
  induction calls with
  | nil => exact List.Sublist.slnil
  | cons call calls ih => exact (List.filter_sublist.trans ih).cons_cons call

theorem exists_first {call : Call} {calls : List Call} (h : call ∈ calls) :
    ∃ first ∈ firsts calls, first.cacheable = call.cacheable := by
  induction calls with
  | nil => cases h
  | cons head calls ih =>
      by_cases hsame : head.cacheable = call.cacheable
      · exact ⟨head, List.mem_cons_self, hsame⟩
      · obtain rfl | hrest := List.mem_cons.mp h
        · exact absurd rfl hsame
        · obtain ⟨first, hfirst, heq⟩ := ih hrest
          refine ⟨first, List.mem_cons_of_mem head (List.mem_filter.mpr ⟨hfirst, ?_⟩), heq⟩
          simpa [heq] using Ne.symm hsame

theorem firsts_concat (calls : List Call) (call : Call) :
    firsts (calls ++ [call]) =
      firsts calls ++ if ∃ earlier ∈ calls, earlier.cacheable = call.cacheable then [] else [call] := by
  induction calls with
  | nil => rfl
  | cons head calls ih =>
      rw [List.cons_append, firsts, ih, firsts, List.filter_append, List.cons_append]
      congr 2
      by_cases hhead : head.cacheable = call.cacheable
      · have hold : ∃ earlier ∈ head :: calls, earlier.cacheable = call.cacheable :=
          ⟨head, List.mem_cons_self, hhead⟩
        rw [if_pos hold]
        split <;> simp [hhead]
      · by_cases hrest : ∃ earlier ∈ calls, earlier.cacheable = call.cacheable
        · obtain ⟨earlier, hearlier, heq⟩ := hrest
          rw [if_pos ⟨earlier, hearlier, heq⟩, if_pos ⟨earlier, List.mem_cons_of_mem head hearlier, heq⟩]
          rfl
        · rw [if_neg hrest, if_neg]
          · simpa using Ne.symm hhead
          · simpa [hhead] using hrest

/-- The token of a label's call with the label. -/
def labelled? (salt : Text) (call : Call) : Option (Text × Text) := call.name?.map (call.token salt, ·)

end Call

namespace Cache

theorem ext {c c' : Cache} (hsalt : c.salt = c'.salt) (hentries : c.entries = c'.entries)
    (hlabels : c.labels = c'.labels) : c = c' := by
  cases c
  cases c'
  simp_all

variable {salt : Text} {calls : List Call}

theorem salt_build (salt : Text) (calls : List Call) : (build salt calls).salt = salt := by
  induction calls using List.reverseRecOn with
  | nil => rfl
  | append_singleton calls call ih =>
      rw [build_append]
      exact (salt_perform_call _ call).trans ih

theorem perform_call_fst (c : Cache) (call : Call) : (call.perform c).1 = call.token c.salt := by
  cases call <;> rfl

theorem entries_perform_call (c : Cache) (call : Call) :
    (call.perform c).2.entries =
      c.entries ++ if (c.find? (call.token c.salt)).isSome then [] else (call.cached? c.salt).toList := by
  have hinsert : ∀ e : Entry, (c.insert e).entries = c.entries ++ if (c.find? e.token).isSome then [] else [e] := by
    intro e
    unfold insert
    split <;> simp
  cases call with
  | label name =>
      simp only [Call.perform, addLabel, Call.cached?, Option.toList_none, ite_self, List.append_nil]
      split <;> rfl
  | _ => exact hinsert _

theorem labels_perform_call (c : Cache) (call : Call) :
    (call.perform c).2.labels =
      c.labels ++ if (c.label? (call.token c.salt)).isSome then [] else (call.labelled? c.salt).toList := by
  cases call with
  | label name =>
      simp only [Call.perform, addLabel]
      change _ = c.labels ++ if (c.label? ((Cacheable.label name).token c.salt)).isSome then [] else _
      split <;> simp [Call.labelled?, Call.name?, Call.token, Call.cacheable]
  | _ => simp [Call.perform, add, addDelimited, addCode, labels_insert, Call.labelled?, Call.name?]

/-- A token leads to what the first call for its span gave. -/
theorem read_token (hdistinct : Call.Distinct salt calls) {before after : List Call} {first : Call}
    (hcalls : calls = before ++ first :: after) (hfirst : ∀ earlier ∈ before, earlier.cacheable ≠ first.cacheable) :
    (build salt calls).find? (first.token salt) = first.cached? salt ∧
      (build salt calls).label? (first.token salt) = first.name? := by
  have hmem : ∀ earlier ∈ before, earlier ∈ calls := fun earlier h => hcalls ▸ List.mem_append_left _ h
  have hself : first ∈ calls := hcalls ▸ List.mem_append_right _ List.mem_cons_self
  have hfound : Call.first? salt calls (first.token salt) = some first := by
    refine List.find?_eq_some_iff_append.mpr ⟨decide_eq_true rfl, before, after, hcalls, fun earlier h => ?_⟩
    have hne : earlier.token salt ≠ first.token salt :=
      fun htoken => hfirst earlier h (hdistinct earlier (hmem earlier h) first hself htoken)
    simpa using hne
  rw [find?_build hdistinct, label?_build hdistinct, hfound]
  exact ⟨rfl, rfl⟩

/-- A span that no call is for has no entry and no label. -/
theorem read_token_of_new (hdistinct : Call.Distinct salt calls) {call : Call}
    (hnew : ∀ earlier ∈ calls, earlier.token salt ≠ call.token salt) :
    (build salt calls).find? (call.token salt) = none ∧ (build salt calls).label? (call.token salt) = none := by
  have hfound : Call.first? salt calls (call.token salt) = none :=
    List.find?_eq_none.mpr fun earlier h => by simpa using hnew earlier h
  rw [find?_build hdistinct, label?_build hdistinct, hfound]
  exact ⟨rfl, rfl⟩

end Cache

/-- The calls before the first one for a span are for others. -/
theorem Call.exists_split {call : Call} {calls : List Call} (h : call ∈ calls) :
    ∃ before first after, calls = before ++ first :: after ∧ first.cacheable = call.cacheable ∧
      ∀ earlier ∈ before, earlier.cacheable ≠ call.cacheable := by
  have hsome : (calls.find? fun first => first.cacheable = call.cacheable).isSome :=
    List.find?_isSome.mpr ⟨call, h, decide_eq_true rfl⟩
  obtain ⟨first, hfirst⟩ := Option.isSome_iff_exists.mp hsome
  obtain ⟨hsame, before, after, hcalls, hbefore⟩ := List.find?_eq_some_iff_append.mp hfirst
  refine ⟨before, first, after, hcalls, of_decide_eq_true hsame, fun earlier hearlier => ?_⟩
  simpa using hbefore earlier hearlier

namespace Cache

variable {salt : Text} {calls : List Call}

/-- What is given for a span depends on the span, but for the rendered form of code. -/
theorem isSome_cached?_eq (salt : Text) {a b : Call} (h : a.cacheable = b.cacheable) :
    (a.cached? salt).isSome = (b.cached? salt).isSome ∧ a.name? = b.name? := by
  cases a <;> cases b <;> simp_all [Call.cacheable, Call.cached?, Call.name?]

/-- Repeating a call changes nothing. -/
theorem perform_again (hdistinct : Call.Distinct salt calls) {call again : Call} (hcall : call ∈ calls)
    (hsame : again.cacheable = call.cacheable) :
    again.perform (build salt calls) = (call.token salt, build salt calls) := by
  obtain ⟨before, first, after, hcalls, heq, hbefore⟩ := Call.exists_split hcall
  have htoken : first.token salt = again.token salt := congrArg (Cacheable.token salt) (heq.trans hsame.symm)
  obtain ⟨hfind, hlabel⟩ := read_token hdistinct hcalls (by rwa [heq])
  obtain ⟨hsome, hname⟩ := isSome_cached?_eq salt (heq.trans hsame.symm)
  rw [htoken] at hfind hlabel
  have hentries : (again.perform (build salt calls)).2.entries = (build salt calls).entries := by
    rw [entries_perform_call, salt_build, hfind, hsome]
    cases again <;> simp [Call.cached?]
  have hlabels : (again.perform (build salt calls)).2.labels = (build salt calls).labels := by
    rw [labels_perform_call, salt_build, hlabel, hname]
    cases again <;> simp [Call.labelled?, Call.name?]
  refine Prod.ext ?_ (ext (salt_perform_call _ again) hentries hlabels)
  rw [perform_call_fst, salt_build]
  exact congrArg (Cacheable.token salt) hsame

/-- The tables hold what the first calls gave, in the order of these. -/
theorem tables_build (hdistinct : Call.Distinct salt calls) :
    (build salt calls).entries = (Call.firsts calls).filterMap (Call.cached? salt) ∧
      (build salt calls).labels = (Call.firsts calls).filterMap (Call.labelled? salt) := by
  induction calls using List.reverseRecOn with
  | nil => exact ⟨rfl, rfl⟩
  | append_singleton calls call ih =>
      have hearlier : Call.Distinct salt calls := fun a ha b hb =>
        hdistinct a (List.mem_append_left _ ha) b (List.mem_append_left _ hb)
      have hstep : build salt (calls ++ [call]) = (call.perform (build salt calls)).2 := build_append salt calls [call]
      rw [hstep, Call.firsts_concat, List.filterMap_append, List.filterMap_append, ← (ih hearlier).1,
        ← (ih hearlier).2]
      by_cases hold : ∃ earlier ∈ calls, earlier.cacheable = call.cacheable
      · obtain ⟨earlier, hmem, hsame⟩ := hold
        rw [perform_again hearlier hmem hsame.symm, if_pos ⟨earlier, hmem, hsame⟩]
        simp
      · have hnew : ∀ earlier ∈ calls, earlier.token salt ≠ call.token salt := fun earlier hmem htoken =>
          hold ⟨earlier, hmem, hdistinct earlier (List.mem_append_left _ hmem) call
            (List.mem_append_right _ List.mem_cons_self) htoken⟩
        obtain ⟨hfind, hlabel⟩ := read_token_of_new hearlier hnew
        rw [entries_perform_call, labels_perform_call, salt_build, hfind, hlabel, if_neg hold]
        cases call <;> simp [Call.cached?, Call.labelled?, Call.name?]

/-- A token leads to what one of the calls for its span gave. -/
theorem exists_read_token (hdistinct : Call.Distinct salt calls) {call : Call} (h : call ∈ calls) :
    ∃ first ∈ calls, first.cacheable = call.cacheable ∧
      (build salt calls).find? (call.token salt) = first.cached? salt ∧
        (build salt calls).label? (call.token salt) = first.name? := by
  obtain ⟨before, first, after, hcalls, hsame, hbefore⟩ := Call.exists_split h
  have hread := read_token hdistinct hcalls (by rwa [hsame])
  rw [show first.token salt = call.token salt from congrArg (Cacheable.token salt) hsame] at hread
  exact ⟨first, hcalls ▸ List.mem_append_right _ List.mem_cons_self, hsame, hread⟩

namespace Imitations

/-- A word that is cached twice, is the name of a label and stands in a block, whose rendered form differs. -/
def history : List Call :=
  [.span .literal (Draft.plain "x"), .label "x", .code "x" (Draft.plain "<b>x</b>") ⟨"ruby", .html, false, .default⟩,
    .delimited .math "inline" (Draft.plain "x"), .span .literal (Draft.plain "x"),
    .code "x" (Draft.plain "<i>x</i>") ⟨"ruby", .html, false, .default⟩, .label "x"]

end Imitations

end Cache

end Manuscript
