import Manuscript.Proofs.Cache.Restore

/-!
Calls that cache texts without tokens in them, made on a cache that other calls have added to before.

Main statement: what such calls have put into a text comes back (`restore_of_tokenless`, `restore_of_isPlain`).
-/

namespace Manuscript

namespace Call

/-- The call caches a text without tokens as it is, or gives a label a token. -/
def IsPlain : Call → Prop
  | .span _ content | .delimited _ _ content => ∃ t, content = Draft.plain t
  | .code _ _ _ => False
  | .label _ => True

theorem IsPlain.token_notMem_content {call : Call} (h : call.IsPlain) (token : Text) :
    .token token ∉ call.content := by
  cases call with
  | span kind content | delimited kind context content =>
      obtain ⟨t, rfl⟩ := h
      exact Draft.token_notMem_plain token t
  | code => exact h.elim
  | label => simp [content]

/-- Plain calls that cache the same are the same. -/
theorem IsPlain.eq {a b : Call} (ha : a.IsPlain) (hb : b.IsPlain) (h : a.cacheable = b.cacheable) : a = b := by
  cases a <;> cases b <;> simp only [cacheable, Cacheable.span.injEq, Cacheable.delimited.injEq,
    Cacheable.label.injEq, reduceCtorEq] at h
  · obtain ⟨⟨s, rfl⟩, ⟨t, rfl⟩⟩ := And.intro ha hb
    obtain ⟨rfl, rfl⟩ := by simpa using h
    rfl
  · obtain ⟨⟨s, rfl⟩, ⟨t, rfl⟩⟩ := And.intro ha hb
    obtain ⟨rfl, rfl, rfl⟩ := by simpa using h
    rfl
  · exact ha.elim
  · rw [h]

variable {salt : Text} {calls : List Call} {format : Format}

/-- What the calls cache holds no tokens. -/
def Tokenless (calls : List Call) : Prop := ∀ call ∈ calls, ∀ token, .token token ∉ call.content

namespace Tokenless

variable (h : Tokenless calls)

include h

theorem token_notMem_cached? {token : Text} {new : Draft}
    (hnew : (meaning salt calls format).cached? token = some new) (inner : Text) : .token inner ∉ new := by
  obtain ⟨call, hfirst, rfl⟩ := Option.map_eq_some_iff.mp hnew
  have hmem := (first?_eq_some (Option.filter_eq_some_iff.mp hfirst).1).1
  exact fun hinner => h call hmem inner (token_mem_rendered.mp hinner)

theorem nestedWithin (depth : Nat) (d : Draft) : (meaning salt calls format).NestedWithin (depth + 1) d :=
  fun _ _ _ hnew inner hinner => absurd hinner (h.token_notMem_cached? hnew inner)

theorem embedEarlier : EmbedEarlier salt calls := by
  rintro earlier call later rfl token htoken
  exact absurd htoken (h call (by simp) token)

end Tokenless

/-- What the calls cache are texts without tokens, and all that is cached for the same thing is the same text. -/
structure Flat (calls : List Call) : Prop where
  token_notMem : ∀ call ∈ calls, ∀ token, .token token ∉ call.content
  eq_of_cacheable : ∀ a ∈ calls, ∀ b ∈ calls, a.cacheable = b.cacheable → a = b

theorem flat_of_isPlain (hplain : ∀ call ∈ calls, call.IsPlain) : Flat calls where
  token_notMem call hcall := (hplain call hcall).token_notMem_content
  eq_of_cacheable a ha b hb := (hplain a ha).eq (hplain b hb)

namespace Flat

variable (h : Flat calls)

include h

theorem first?_eq (hdistinct : Distinct salt calls) {call : Call} (hcall : call ∈ calls) :
    first? salt calls (call.token salt) = some call := by
  obtain ⟨found, hfound⟩ := Option.isSome_iff_exists.mp (isSome_first? salt hcall)
  obtain ⟨hmem, htoken⟩ := first?_eq_some hfound
  rw [hfound, h.eq_of_cacheable found hmem call hcall (hdistinct found hmem call hcall htoken)]

/-- The token of a call expands to what stands for it in a format. -/
theorem expands_token (hdistinct : Distinct salt calls) {call : Call} (hcall : call ∈ calls) :
    (meaning salt calls format).Expands [.token (call.token salt)] (Draft.text (call.rendered format)) := by
  have hmeaning : (meaning salt calls format).draft? (call.token salt) = some (call.rendered format) := by
    rw [draft?_meaning, h.first?_eq hdistinct hcall, Option.map_some]
  have hinside : (meaning salt calls format).Expands (call.rendered format) (Draft.text (call.rendered format)) :=
    .text fun token htoken => h.token_notMem call hcall token (token_mem_rendered.mp htoken)
  simpa using Meaning.Expands.token hmeaning hinside .nil

theorem tokenless : Tokenless calls := h.token_notMem

end Flat

theorem cached?_eq_of_cacheable {a b : Call} (hb : b.IsPlain) (h : a.cacheable = b.cacheable) :
    a.cached? salt = b.cached? salt ∧ a.name? = b.name? := by
  cases a <;> cases b <;> simp_all [cacheable, cached?, name?, token, IsPlain]

end Call

/-- What calls without tokens in them have put into a text comes back. -/
theorem Cache.restore_of_tokenless {salt : Text} {calls : List Call} {format : Format} (htokenless : Call.Tokenless calls)
    (hdistinct : Call.Distinct salt calls) {d : Draft}
    (hmarks : (Call.meaning salt calls format).Marks (calls.map (Call.token salt)) d) {t : Text}
    (h : (Call.meaning salt calls format).Expands d t) : (build salt calls).restore (Draft.text d) format = t := by
  have hdescribes : (Call.meaning salt calls format).Describes (build salt calls) format :=
    describes_of_perm htokenless.embedEarlier hdistinct (.refl _) (.refl _)
  refine (hdescribes.expands_restore ?_ h.known (htokenless.nestedWithin 7 d)).1.unique h
  intro e he token htoken
  obtain ⟨call, hcall, rfl⟩ := exists_call_of_mem_tokens hdistinct (.refl _) (.refl _) htoken
  exact hmarks e he _ (List.mem_map_of_mem hcall)

section History

variable {salt : Text} {history calls : List Call} {format : Format}

/-- What a plain call caches is what its token leads to in the end, even if other calls came before. -/
theorem Call.exists_first?_append (hdistinct : Distinct salt (history ++ calls))
    (hplain : ∀ call ∈ calls, call.IsPlain) {token : Text} {call : Call}
    (hcall : first? salt calls token = some call) :
    ∃ earlier, first? salt (history ++ calls) token = some earlier ∧
      earlier.cached? salt = call.cached? salt ∧ earlier.name? = call.name? := by
  obtain ⟨hmem, rfl⟩ := first?_eq_some hcall
  have hmem' := List.mem_append_right history hmem
  obtain ⟨earlier, hearlier⟩ := Option.isSome_iff_exists.mp (isSome_first? salt hmem')
  obtain ⟨hmemEarlier, htoken⟩ := first?_eq_some hearlier
  have hcacheable := hdistinct earlier hmemEarlier call hmem' htoken
  exact ⟨earlier, hearlier, cached?_eq_of_cacheable (hplain call hmem) hcacheable⟩

theorem Call.cached?_of_mem_entries (hdistinct : Distinct salt (history ++ calls))
    (hplain : ∀ call ∈ calls, call.IsPlain) {e : Entry} (he : e ∈ (Cache.build salt (history ++ calls)).entries)
    {call : Call} (hcall : first? salt calls e.token = some call) : call.cached? salt = some e := by
  obtain ⟨earlier, hearlier, hentry, -⟩ := exists_first?_append hdistinct hplain hcall
  obtain ⟨found, hfirst, hfound⟩ := (Cache.mem_entries_build hdistinct).mp he
  obtain rfl := Option.some.inj (hearlier.symm.trans hfirst)
  exact hentry ▸ hfound

theorem Call.name?_of_mem_labels (hdistinct : Distinct salt (history ++ calls))
    (hplain : ∀ call ∈ calls, call.IsPlain) {l : Text × Text}
    (hl : l ∈ (Cache.build salt (history ++ calls)).labels)
    {call : Call} (hcall : first? salt calls l.1 = some call) : call.name? = some l.2 := by
  obtain ⟨earlier, hearlier, -, hname⟩ := exists_first?_append hdistinct hplain hcall
  obtain ⟨found, hfirst, hfound⟩ := (Cache.mem_labels_build hdistinct).mp hl
  obtain rfl := Option.some.inj (hearlier.symm.trans hfirst)
  exact hname ▸ hfound

/-- The tokens of plain calls mean the same in a cache that other calls have added to before. -/
theorem Cache.describes_of_isPlain (hdistinct : Call.Distinct salt (history ++ calls))
    (hplain : ∀ call ∈ calls, call.IsPlain) :
    (Call.meaning salt calls format).Describes (build salt (history ++ calls)) format where
  closed _ _ hnew inner hinner := absurd hinner ((Call.flat_of_isPlain hplain).tokenless.token_notMem_cached? hnew inner)
  ne_nil token htoken := by
    obtain ⟨call, -, rfl⟩ := exists_call_of_mem_tokens hdistinct (.refl _) (.refl _) htoken
    exact call.token_ne_nil salt
  text r hr new hnew := by
    rw [Call.draft?_meaning] at hnew
    obtain ⟨call, hfirst, rfl⟩ := Option.map_eq_some_iff.mp hnew
    have hcall := hplain call (Call.first?_eq_some hfirst).1
    rcases List.mem_append.mp hr with hentry | hlabel
    · obtain ⟨e, he, rfl⟩ := List.mem_map.mp hentry
      refine Call.text_rendered (Call.cached?_of_mem_entries hdistinct hplain he hfirst) ?_ format
      exact fun inner hinner => absurd hinner (hcall.token_notMem_content inner)
    · obtain ⟨l, hl, rfl⟩ := List.mem_map.mp hlabel
      exact Call.text_rendered_of_name? (Call.name?_of_mem_labels hdistinct hplain hl hfirst)
  entries token new hnew := by
    obtain ⟨call, hfiltered, -⟩ := Option.map_eq_some_iff.mp hnew
    obtain ⟨hfirst, hname⟩ := Option.filter_eq_some_iff.mp hfiltered
    obtain ⟨e, he⟩ := Call.exists_cached?_of_name?_isNone salt hname
    obtain ⟨earlier, hearlier, hentry, -⟩ := Call.exists_first?_append hdistinct hplain hfirst
    have htoken : e.token = token := (Call.token_of_cached? he).trans (Call.first?_eq_some hfirst).2
    have hmem : e ∈ (build salt (history ++ calls)).entries :=
      (mem_entries_build hdistinct).mpr ⟨earlier, htoken ▸ hearlier, hentry.trans he⟩
    exact htoken ▸ List.mem_map_of_mem hmem
  labels token text htext := by
    obtain ⟨name, hname, -⟩ := Option.map_eq_some_iff.mp htext
    obtain ⟨call, hfirst, hcall⟩ := Option.bind_eq_some_iff.mp hname
    obtain ⟨earlier, hearlier, -, hsame⟩ := Call.exists_first?_append hdistinct hplain hfirst
    have hmem : (token, name) ∈ (build salt (history ++ calls)).labels :=
      (mem_labels_build hdistinct).mpr ⟨earlier, hearlier, hsame.trans hcall⟩
    exact List.mem_map_of_mem hmem
  apart token htoken := by
    obtain ⟨l, hl, rfl⟩ := List.mem_map.mp htoken
    cases hfirst : Call.first? salt calls l.1 with
    | none => simp [Call.meaning, hfirst]
    | some call =>
        have hname := Call.name?_of_mem_labels hdistinct hplain hl hfirst
        simp [Call.meaning, hfirst, hname]

/-- What plain calls have put into a text comes back, from a cache that other calls have added to before. -/
theorem Cache.restore_of_isPlain (hdistinct : Call.Distinct salt (history ++ calls))
    (hplain : ∀ call ∈ calls, call.IsPlain) {d : Draft}
    (hmarks : (Call.meaning salt calls format).Marks ((history ++ calls).map (Call.token salt)) d) {t : Text}
    (h : (Call.meaning salt calls format).Expands d t) :
    (build salt (history ++ calls)).restore (Draft.text d) format = t := by
  refine ((describes_of_isPlain hdistinct hplain).expands_restore ?_ h.known
    ((Call.flat_of_isPlain hplain).tokenless.nestedWithin 7 d)).1.unique h
  intro e he token htoken
  obtain ⟨call, hcall, rfl⟩ := exists_call_of_mem_tokens hdistinct (.refl _) (.refl _) htoken
  exact hmarks e he _ (List.mem_map_of_mem hcall)

end History

end Manuscript
