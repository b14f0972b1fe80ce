import Manuscript.Proofs.Cache.Plain

/-!
What a reader would see of a text with tokens in it.

Main statement: every token gives way to the content of its span, as long as it occurs only where it was put
(`readable_build`).
-/

namespace Manuscript

theorem Text.occurrences_ne_nil {mark t : Text} (hmark : mark ≠ []) (h : contains mark t = true) :
    occurrences mark t ≠ [] := by
  have hsweep : ∀ position, occurrences.sweep mark 0 position t ≠ [] := by
    induction t with
    | nil =>
        rw [contains, cut?, if_neg hmark] at h
        cases h
    | cons c t ih =>
        intro position
        rw [occurrences.sweep]
        by_cases hstarts : startsWith mark (c :: t) = true
        · rw [if_pos hstarts]
          exact List.cons_ne_nil _ _
        · rw [if_neg hstarts]
          refine ih ?_ (position + 1)
          have hnone : after? mark (c :: t) = none := by simpa [startsWith] using hstarts
          simpa [contains, cut?, hnone] using h
  rw [occurrences, if_neg hmark]
  exact hsweep 0

namespace Cache

/-- What tokens stand for to a reader, who does not see labels. -/
def reading (c : Cache) : Meaning where
  cached? token := (c.find? token).map fun e => Draft.plain e.readable
  label? token := (c.label? token).map fun _ => []

/-- The tokens of a cache with what a reader sees in their place, in the order in which they are replaced. -/
def readings (c : Cache) : List (Text × Text) :=
  c.entries.map (fun e => (e.token, e.readable)) ++ c.labels.map fun l => (l.1, [])

theorem map_fst_readings (c : Cache) : c.readings.map Prod.fst = c.tokens := by
  simp [readings, tokens, Function.comp_def]

theorem readable_eq_foldl (c : Cache) (t : Text) :
    c.readable t = c.readings.foldl (fun t r => Text.replaceAll r.1 r.2 t) t := by
  simp [readable, replaceLabels, replaceEntries, readings, List.foldl_append, List.foldl_map]

variable {c : Cache} {d : Draft} {t : Text}

theorem cached?_of_find?_eq_none {token : Text} (h : c.find? token = none) : c.reading.cached? token = none := by
  simp only [reading, h, Option.map_none]

theorem draft?_of_find? {token : Text} {e : Entry} (h : c.find? token = some e) :
    c.reading.draft? token = some (Draft.plain e.readable) := by
  simp only [Meaning.draft?, reading, h, Option.map_some, Option.some_or]

theorem draft?_of_label? {token name : Text} (hentry : c.find? token = none) (h : c.label? token = some name) :
    c.reading.draft? token = some [] := by
  simp only [Meaning.draft?, reading, hentry, h, Option.map_none, Option.map_some, Option.none_or]
  rfl

theorem draft?_of_notMem_tokens {token : Text} (h : token ∉ c.tokens) : c.reading.draft? token = none := by
  obtain ⟨hentry, hlabel⟩ := not_or.mp (mt List.mem_append.mpr h)
  have hnone : c.find? token = none := by
    refine List.find?_eq_none.mpr fun e he heq => hentry ?_
    exact of_decide_eq_true heq ▸ List.mem_map_of_mem he
  have hunknown : c.label? token = none := by
    rw [label?, Option.map_eq_none_iff]
    refine List.find?_eq_none.mpr fun l hl heq => hlabel ?_
    exact of_decide_eq_true heq ▸ List.mem_map_of_mem hl
  simp only [Meaning.draft?, reading, hnone, hunknown, Option.map_none, Option.none_or]

theorem token_notMem_of_reading {token : Text} {new : Draft} (h : c.reading.cached? token = some new) (inner : Text) :
    .token inner ∉ new := by
  obtain ⟨e, -, rfl⟩ := Option.map_eq_some_iff.mp h
  exact Draft.token_notMem_plain inner _

theorem closed_reading (c : Cache) : c.reading.Closed :=
  fun _ _ h inner hinner => absurd hinner (token_notMem_of_reading h inner)

/-- Once all tokens have been replaced, none is left. -/
theorem token_notMem_foldl_unfold (hapart : ∀ token ∈ c.labels.map Prod.fst, c.find? token = none)
    (hknown : c.reading.Known d) (token : Text) : .token token ∉ c.tokens.foldl c.reading.unfold d := by
  intro htoken
  have hsome := hknown.unfolds (closed_reading c) (Meaning.Unfolds.refl.foldl c.tokens) token htoken
  rw [tokens, List.foldl_append] at htoken
  have hlabels : ∀ token ∈ c.labels.map Prod.fst, c.reading.cached? token = none :=
    fun token htoken => cached?_of_find?_eq_none (hapart token htoken)
  obtain ⟨hmem, hlabel⟩ := Meaning.token_mem_foldl_unfold hlabels htoken
  -- After the entries, what is left is no entry; and a label is replaced when its turn comes.
  have hentry : c.reading.Within 0 token := by
    refine Meaning.nestedWithin_foldl_unfold (c.entries.map Entry.token) (fun token _ => ?_) token hmem
    cases hfound : c.find? token with
    | none => exact Or.inl (cached?_of_find?_eq_none hfound)
    | some e =>
        obtain rfl : e.token = token := by simpa using List.find?_some hfound
        refine Or.inr ⟨?_, List.mem_map_of_mem (List.mem_of_find?_eq_some hfound)⟩
        exact fun new hnew inner hinner => absurd hinner (token_notMem_of_reading hnew inner)
  obtain ⟨name, hname⟩ : ∃ name, c.label? token = some name := by
    have hnone : c.reading.cached? token = none := hentry
    rw [Meaning.draft?, hnone, Option.none_or, Option.isSome_map] at hsome
    exact Option.isSome_iff_exists.mp ((Option.isSome_map ..).symm.trans hsome)
  obtain ⟨l, hl, -⟩ := Option.map_eq_some_iff.mp hname
  have htoken : l.1 = token := by simpa using List.find?_some hl
  rw [hlabel (htoken ▸ List.mem_map_of_mem (List.mem_of_find?_eq_some hl))] at hsome
  cases hsome

theorem readable_text (hc : c.Unrepeated) (hne : ∀ token ∈ c.tokens, token ≠ [])
    (hapart : ∀ token ∈ c.labels.map Prod.fst, c.find? token = none) (hmarks : c.reading.Marks c.tokens d)
    (h : c.reading.Expands d t) : c.readable (Draft.text d) = t := by
  have htext : ∀ r ∈ c.readings, ∀ new, c.reading.draft? r.1 = some new → Draft.text new = r.2 := by
    intro r hr new hnew
    rcases List.mem_append.mp hr with hentry | hlabel
    · obtain ⟨e, he, rfl⟩ := List.mem_map.mp hentry
      rw [draft?_of_find? (hc.find?_of_mem he)] at hnew
      obtain rfl := Option.some.inj hnew
      exact Draft.text_plain e.readable
    · obtain ⟨l, hl, rfl⟩ := List.mem_map.mp hlabel
      rw [draft?_of_label? (hapart l.1 (List.mem_map_of_mem hl)) (hc.label?_of_mem hl)] at hnew
      obtain rfl := Option.some.inj hnew
      rfl
  rw [← map_fst_readings] at hne hmarks
  rw [readable_eq_foldl, Meaning.foldl_replaceAll_text (closed_reading c) _ hne htext hmarks h.known, map_fst_readings]
  have hdone := token_notMem_foldl_unfold hapart h.known
  exact (Meaning.Expands.of_unfolds (Meaning.Unfolds.refl.foldl c.tokens) (.text hdone)).unique h

section Build

variable {salt : Text} {calls : List Call}

/-- What a plain call caches is found by its token, whatever else has been cached. -/
theorem find?_of_isPlain (hdistinct : Call.Distinct salt calls) {call : Call} (hcall : call ∈ calls)
    (hplain : call.IsPlain) : (build salt calls).find? (call.token salt) = call.cached? salt := by
  obtain ⟨first, hfirst⟩ := Option.isSome_iff_exists.mp (Call.isSome_first? salt hcall)
  obtain ⟨hmem, htoken⟩ := Call.first?_eq_some hfirst
  rw [find?_build hdistinct, hfirst, Option.bind_some]
  exact (Call.cached?_eq_of_cacheable hplain (hdistinct first hmem call hcall htoken)).1

/-- The label that a call is about is found by its token. -/
theorem mem_labels_of_mem (hdistinct : Call.Distinct salt calls) {name : Text} (hcall : .label name ∈ calls) :
    ((Call.label name).token salt, name) ∈ (build salt calls).labels := by
  obtain ⟨first, hfirst⟩ := Option.isSome_iff_exists.mp (Call.isSome_first? salt hcall)
  obtain ⟨hmem, htoken⟩ := Call.first?_eq_some hfirst
  have hcacheable : first.cacheable = .label name := hdistinct first hmem _ hcall htoken
  refine (mem_labels_build hdistinct).mpr ⟨first, hfirst, ?_⟩
  cases first with
  | label name' => exact congrArg some (Cacheable.label.inj hcacheable)
  | _ => cases hcacheable

/-- Nothing is a label and a span at once. -/
theorem find?_build_eq_none (hdistinct : Call.Distinct salt calls) {token : Text}
    (h : token ∈ (build salt calls).labels.map Prod.fst) : (build salt calls).find? token = none := by
  obtain ⟨⟨token, name⟩, hl, rfl⟩ := List.mem_map.mp h
  obtain ⟨call, hfirst, hname⟩ := (mem_labels_build hdistinct).mp hl
  rw [find?_build hdistinct, hfirst, Option.bind_some]
  cases call with
  | label name' => rfl
  | _ => cases hname

/-- A reader sees what the tokens in a text stand for. -/
theorem readable_build (hdistinct : Call.Distinct salt calls)
    (hmarks : (build salt calls).reading.Marks (build salt calls).tokens d)
    (h : (build salt calls).reading.Expands d t) : (build salt calls).readable (Draft.text d) = t := by
  refine readable_text (unrepeated_build salt calls) ?_ (fun _ => find?_build_eq_none hdistinct) hmarks h
  intro token htoken
  obtain ⟨call, -, rfl⟩ := exists_call_of_mem_tokens hdistinct (.refl _) (.refl _) htoken
  exact call.token_ne_nil salt

end Build

/-- The labels that are taken out of a text are those whose tokens occur in it. -/
theorem mem_takeLabels (hne : ∀ l ∈ c.labels, l.1 ≠ []) {t name : Text} :
    name ∈ (c.takeLabels t).2 ↔ ∃ l ∈ c.labels, l.2 = name ∧ Text.contains l.1 t = true := by
  simp only [takeLabels, List.mem_map, List.mem_mergeSort, foundLabels, List.mem_flatMap]
  constructor
  · rintro ⟨found, ⟨l, hl, place, hplace, rfl⟩, rfl⟩
    refine ⟨l, hl, rfl, ?_⟩
    by_contra hcontains
    rw [Text.occurrences_eq_nil ((Bool.not_eq_true _).mp hcontains)] at hplace
    cases hplace
  · rintro ⟨l, hl, rfl, hcontains⟩
    obtain ⟨place, hplace⟩ := List.exists_mem_of_ne_nil _ (Text.occurrences_ne_nil (hne l hl) hcontains)
    exact ⟨(place, l.2), ⟨l, hl, place, hplace, rfl⟩, rfl⟩

end Cache

end Manuscript
