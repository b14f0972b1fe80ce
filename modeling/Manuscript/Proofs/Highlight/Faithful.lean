import Manuscript.Proofs.Source.Calls

/-!
Stores of highlighted code blocks that hold nothing but what the highlighter would make of the blocks.

Main statement: such a store stays faithful while a manuscript is tokenized, and what comes out is what comes out with
an empty store (`tokenize_congr`, `grows_tokenize`).
-/

namespace Manuscript

namespace Highlight

/-- A code block without options, as stores know it. -/
structure Block where
  code : Text
  language : Text
  format : Format
  deriving DecidableEq

namespace Block

/-- The digest that the block is kept under. -/
def key (b : Block) : Text := Store.key b.code b.language b.format

/-- What a highlighter makes of the block. -/
def rendered (b : Block) (highlighter : Highlighter) : Text := highlighter b.code b.language b.format .default

end Block

theorem Options.eq_default {o : Options} (h : o.isDefault = true) : o = .default := by
  obtain ⟨markedLines, isNumbered⟩ := o
  simp only [isDefault, Bool.and_eq_true, List.isEmpty_iff, Bool.not_eq_true'] at h
  obtain ⟨rfl, rfl⟩ := h
  rfl

namespace Store

/-- What a store holds for some blocks is what the highlighter makes of them. -/
def IsFaithful (s : Store) (highlighter : Highlighter) (known : Block → Prop) : Prop :=
  ∀ b, known b → ∀ t, s.get? b.key = some t → t = b.rendered highlighter

/-- What becomes of a store when some blocks are looked up in it. -/
structure Grows (highlighter : Highlighter) (blocks : List Block) (before after : Store) : Prop where
  path_eq : after.path = before.path
  kept : ∀ key t, before.get? key = some t → after.get? key = some t
  added : ∀ key t, after.get? key = some t →
    before.get? key = some t ∨ ∃ b ∈ blocks, b.key = key ∧ t = b.rendered highlighter
  found : ∀ b ∈ blocks, (after.get? b.key).isSome

variable {highlighter : Highlighter} {known : Block → Prop} {blocks more : List Block} {s s' s'' : Store}

theorem isFaithful_inMemory : inMemory.IsFaithful highlighter known := by
  intro b _ t h
  cases h

theorem get?_insert (s : Store) (key t key' : Text) :
    (s.insert key t).get? key' = if key = key' then some t else s.get? key' :=
  SortedMap.get?_insert s.entries key key' t

theorem Grows.refl (s : Store) : Grows highlighter [] s s :=
  ⟨rfl, fun _ _ h => h, fun _ _ h => .inl h, by simp⟩

theorem Grows.trans (h : Grows highlighter blocks s s') (h' : Grows highlighter more s' s'') :
    Grows highlighter (blocks ++ more) s s'' := by
  constructor
  case path_eq => exact h'.path_eq.trans h.path_eq
  case kept => exact fun key t hget => h'.kept key t (h.kept key t hget)
  case added =>
    intro key t hget
    obtain hget | ⟨b, hb, hkey, rfl⟩ := h'.added key t hget
    · obtain hget | ⟨b, hb, hkey, rfl⟩ := h.added key t hget
      · exact .inl hget
      · exact .inr ⟨b, List.mem_append_left _ hb, hkey, rfl⟩
    · exact .inr ⟨b, List.mem_append_right _ hb, hkey, rfl⟩
  case found =>
    intro b hb
    obtain hb | hb := List.mem_append.mp hb
    · obtain ⟨t, hget⟩ := Option.isSome_iff_exists.mp (h.found b hb)
      rw [h'.kept _ _ hget]
      rfl
    · exact h'.found b hb

/-- A block that is not there yet is added. -/
theorem grows_insert {b : Block} (h : s.get? b.key = none) :
    Grows highlighter [b] s (s.insert b.key (b.rendered highlighter)) := by
  constructor
  case path_eq => rfl
  case kept =>
    intro key t hget
    have hne : b.key ≠ key := by
      rintro rfl
      rw [h] at hget
      cases hget
    rw [get?_insert, if_neg hne, hget]
  case added =>
    intro key t hget
    rw [get?_insert] at hget
    split at hget
    · rename_i heq
      exact .inr ⟨b, List.mem_singleton.mpr rfl, heq, (Option.some.inj hget).symm⟩
    · exact .inl hget
  case found =>
    intro b' hb'
    obtain rfl := List.mem_singleton.mp hb'
    rw [get?_insert, if_pos rfl]
    rfl

/-- Growth keeps a store faithful for all blocks that do not share a digest with another block that is looked up. -/
theorem IsFaithful.of_grows (hs : s.IsFaithful highlighter known) (hgrows : Grows highlighter blocks s s')
    (hdistinct : ∀ b ∈ blocks, ∀ b', known b' → b.key = b'.key → b = b') : s'.IsFaithful highlighter known := by
  intro b' hb' t hget
  obtain hget | ⟨b, hb, hkey, rfl⟩ := hgrows.added _ t hget
  · exact hs b' hb' t hget
  · rw [hdistinct b hb b' hb' hkey]

end Store

end Highlight

namespace Source

open Highlight (Block Store)

variable {highlighter : Highlighter} {format : Format} {known : Block → Prop}

/-- The block that a code block is looked up as, if it has no options. -/
def codeBlock? (format : Format) (body : Text) (hint : Hint) : Option Block :=
  if hint.options.isDefault then some ⟨body, hint.language, format⟩ else none

/-- What is looked up for a passage. -/
def Passage.block? (format : Format) : Passage → Option Block
  | .code _ body _ requested _ => codeBlock? format (Text.unlines body) requested
  | _ => none

/-- The code blocks without options in a manuscript, as far as it can be read. -/
def blocks (format : Format) (source : Text) : List Block :=
  (passages .start (source.splitOn '\n')).1.filterMap (Passage.block? format)

/-- With a faithful store a code block is rendered as the highlighter renders it. -/
theorem renderCode_eq {store : Store} (hs : store.IsFaithful highlighter known) {body : Text} {hint : Hint}
    (hknown : ∀ b ∈ codeBlock? format body hint, known b) :
    (renderCode highlighter format store body hint).1 = highlighter body hint.language format hint.options := by
  unfold renderCode
  split
  · rename_i hdefault
    have hb := hknown ⟨body, hint.language, format⟩ (by simp [codeBlock?, hdefault])
    cases hget : store.get? (Store.key body hint.language format) with
    | none => simp only [hget]
    | some t =>
        simp only [hget]
        rw [Highlight.Options.eq_default hdefault]
        exact hs _ hb t hget
  · rfl

/-- The highlighter's result for a block that is not there yet is the only thing that is added. -/
theorem grows_renderCode (highlighter : Highlighter) (format : Format) (store : Store) (body : Text) (hint : Hint) :
    Store.Grows highlighter (codeBlock? format body hint).toList store
      (renderCode highlighter format store body hint).2 := by
  unfold renderCode codeBlock?
  split
  · rename_i hdefault
    cases hget : store.get? (Store.key body hint.language format) with
    | some t =>
        simp only [hget]
        refine ⟨rfl, fun _ _ h => h, fun _ _ h => .inl h, ?_⟩
        intro b hb
        obtain rfl := List.mem_singleton.mp hb
        exact Option.isSome_iff_exists.mpr ⟨t, hget⟩
    | none =>
        simp only [hget]
        rw [Highlight.Options.eq_default hdefault]
        exact Store.grows_insert hget
  · exact .refl store

theorem Passage.grows_tokens (highlighter : Highlighter) (format : Format) (g : Gathered) (p : Passage) :
    Store.Grows highlighter (p.block? format).toList g.store (p.tokens highlighter format g).2.store := by
  cases p with
  | code first body last hint isInListing =>
      exact grows_renderCode highlighter format g.store (Text.unlines body) hint
  | _ =>
      rw [tokens_eq highlighter format g (by rfl)]
      exact .refl g.store

/-- With faithful stores the same is written and cached for a passage. -/
theorem Passage.tokens_congr (cache : Cache) {s s' : Store} (hs : s.IsFaithful highlighter known)
    (hs' : s'.IsFaithful highlighter known) {p : Passage} (hknown : ∀ b ∈ p.block? format, known b) :
    (p.tokens highlighter format ⟨cache, s⟩).1 = (p.tokens highlighter format ⟨cache, s'⟩).1 ∧
      (p.tokens highlighter format ⟨cache, s⟩).2.cache = (p.tokens highlighter format ⟨cache, s'⟩).2.cache := by
  cases p with
  | code first body last hint isInListing =>
      simp only [tokens, codeTokens, renderCode_eq hs hknown, renderCode_eq hs' hknown, and_self]
  | _ =>
      rw [tokens_eq highlighter format _ rfl, tokens_eq highlighter format _ rfl]
      exact ⟨rfl, rfl⟩

theorem grows_passageTokens (highlighter : Highlighter) (format : Format) (g : Gathered) (ps : List Passage) :
    Store.Grows highlighter (ps.filterMap (Passage.block? format)) g.store
      (passageTokens highlighter format g ps).2.store := by
  induction ps generalizing g with
  | nil => exact .refl g.store
  | cons p ps ih =>
      have hgrows := (p.grows_tokens highlighter format g).trans (ih (p.tokens highlighter format g).2)
      cases hblock : p.block? format with
      | none =>
          rw [List.filterMap_cons_none hblock]
          rwa [hblock] at hgrows
      | some b =>
          rw [List.filterMap_cons_some hblock]
          rwa [hblock] at hgrows

theorem passageTokens_congr (cache : Cache) {s s' : Store} (hs : s.IsFaithful highlighter known)
    (hs' : s'.IsFaithful highlighter known) {ps : List Passage}
    (hknown : ∀ b ∈ ps.filterMap (Passage.block? format), known b)
    (hdistinct : ∀ b ∈ ps.filterMap (Passage.block? format), ∀ b', known b' → b.key = b'.key → b = b') :
    (passageTokens highlighter format ⟨cache, s⟩ ps).1 = (passageTokens highlighter format ⟨cache, s'⟩ ps).1 ∧
      (passageTokens highlighter format ⟨cache, s⟩ ps).2.cache =
        (passageTokens highlighter format ⟨cache, s'⟩ ps).2.cache := by
  induction ps generalizing cache s s' with
  | nil => exact ⟨rfl, rfl⟩
  | cons p ps ih =>
      have hfirst : ∀ b ∈ p.block? format, b ∈ (p :: ps).filterMap (Passage.block? format) :=
        fun b hb => List.mem_filterMap.mpr ⟨p, List.mem_cons_self, hb⟩
      have hlater : ∀ b ∈ ps.filterMap (Passage.block? format), b ∈ (p :: ps).filterMap (Passage.block? format) := by
        intro b hb
        obtain ⟨q, hq, hqb⟩ := List.mem_filterMap.mp hb
        exact List.mem_filterMap.mpr ⟨q, List.mem_cons_of_mem p hq, hqb⟩
      have hafter : ∀ {s : Store}, s.IsFaithful highlighter known →
          (p.tokens highlighter format ⟨cache, s⟩).2.store.IsFaithful highlighter known := by
        intro s hs
        refine hs.of_grows (p.grows_tokens highlighter format ⟨cache, s⟩) fun b hb => ?_
        exact hdistinct b (hfirst b (Option.mem_toList.mp hb))
      -- The two stores differ after the first passage as they did before, but both are still faithful.
      obtain ⟨hlines, hcache⟩ := Passage.tokens_congr cache hs hs' fun b hb => hknown b (hfirst b hb)
      have hrest := ih (p.tokens highlighter format ⟨cache, s⟩).2.cache (hafter hs) (hafter hs')
        (fun b hb => hknown b (hlater b hb)) fun b hb => hdistinct b (hlater b hb)
      have heta : ∀ {s : Store}, (p.tokens highlighter format ⟨cache, s⟩).2 =
          ⟨(p.tokens highlighter format ⟨cache, s⟩).2.cache, (p.tokens highlighter format ⟨cache, s⟩).2.store⟩ := rfl
      simp only [passageTokens]
      rw [hlines, heta, hrest.1, hrest.2, hcache]
      exact ⟨rfl, rfl⟩

theorem tokenize_eq (highlighter : Highlighter) (format : Format) (g : Gathered) (source : Text) :
    tokenize highlighter format g source =
      let ps := passages .start (source.splitOn '\n')
      ((match ps.2 with
        | some e => .error e
        | none => .ok (Text.unlines (passageTokens highlighter format g ps.1).1)),
        (passageTokens highlighter format g ps.1).2) := by
  simp only [tokenize]
  cases (passages .start (source.splitOn '\n')).2 <;> rfl

/-- Tokenizing looks up the code blocks without options, also those before an error, and adds nothing else. -/
theorem grows_tokenize (highlighter : Highlighter) (format : Format) (g : Gathered) (source : Text) :
    Store.Grows highlighter (blocks format source) g.store (tokenize highlighter format g source).2.store := by
  rw [tokenize_eq]
  exact grows_passageTokens highlighter format g _

/-- With faithful stores the same comes of a manuscript, and the same is cached. -/
theorem tokenize_congr (cache : Cache) {s s' : Store} {source : Text} (hs : s.IsFaithful highlighter known)
    (hs' : s'.IsFaithful highlighter known) (hknown : ∀ b ∈ blocks format source, known b)
    (hdistinct : ∀ b ∈ blocks format source, ∀ b', known b' → b.key = b'.key → b = b') :
    (tokenize highlighter format ⟨cache, s⟩ source).1 = (tokenize highlighter format ⟨cache, s'⟩ source).1 ∧
      (tokenize highlighter format ⟨cache, s⟩ source).2.cache =
        (tokenize highlighter format ⟨cache, s'⟩ source).2.cache := by
  obtain ⟨hlines, hcache⟩ := passageTokens_congr cache hs hs' hknown hdistinct
  rw [tokenize_eq, tokenize_eq]
  simp only [hlines, hcache, and_self]

end Source

end Manuscript
