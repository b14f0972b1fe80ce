import Manuscript.Proofs.Source.Requests
import Manuscript.Proofs.Source.RoundTrip

/-!
Manuscripts that are converted to markup, with all that is in them.  The highlighter is one that sets code as a
`Verbatim` environment.

Main statements: the tokens and the calls do not depend on the store (`passageTokens_markup`), and putting the spans back
gives each passage its rendered lines (`restore_unlines_markupDrafts`).
-/

namespace Manuscript

/-- The highlighter sets code as a `Verbatim` environment in markup. -/
def WritesVerbatim (highlighter : Highlighter) : Prop :=
  ∀ code language o, highlighter code language .markup o = Highlight.markupBlock code o

namespace Source

open Highlight (Block Store)

/-- The call that caches a code block in markup. -/
def codeCall (body : List Text) (hint : Hint) (isInListing : Bool) : Call :=
  .code (Text.unlines body) (Draft.plain (Highlight.markupBlock (Text.unlines body) hint.options))
    ⟨hint.language, .markup, isInListing, hint.options⟩

/-- The calls that cache what is opaque in a passage, also in a code block. -/
def Passage.markupCalls : Passage → List Call
  | .code _ body _ requested isInListing => [codeCall body requested isInListing]
  | p => p.calls

/-- The lines of a passage in markup with tokens for what is opaque. -/
def Passage.markupDrafts (salt : Text) : Passage → List Draft
  | .code _ body _ requested isInListing => [[.token ((codeCall body requested isInListing).token salt)]]
  | p => p.drafts salt

/-- The lines of a passage as they stand in markup.  A code block is a text of several lines, and so is an opaque body. -/
def Passage.rendered : Passage → List Text
  | .code _ body _ requested _ => [Highlight.markupBlock (Text.unlines body) requested.options]
  | p => p.restored

section Written

variable {highlighter : Highlighter} {known : Block → Prop}

theorem Passage.tokens_markup (hverbatim : WritesVerbatim highlighter) {g : Gathered}
    (hs : g.store.IsFaithful highlighter known) {p : Passage} (hknown : ∀ b ∈ p.block? .markup, known b) :
    (p.tokens highlighter .markup g).1 = (p.markupDrafts g.cache.salt).map Draft.text ∧
      (p.tokens highlighter .markup g).2.cache = g.cache.perform p.markupCalls := by
  cases p with
  | code first body last hint isInListing =>
      have hrendered := hverbatim (Text.unlines body) hint.language hint.options
      simp only [tokens, codeTokens, renderCode_eq hs hknown, hrendered, markupDrafts, markupCalls, codeCall, List.map_cons,
        List.map_nil, Draft.text_cons, Draft.text_nil, Part.text, List.append_nil, Cache.perform, List.foldl_cons,
        List.foldl_nil, Call.perform, Draft.text_plain, and_true]
      rfl
  | _ =>
      rw [tokens_eq highlighter .markup g rfl]
      exact ⟨rfl, rfl⟩

/-- With a faithful store, tokens are written where opaque spans stood, and their spans are cached in that order. -/
theorem passageTokens_markup (hverbatim : WritesVerbatim highlighter) {g : Gathered}
    (hs : g.store.IsFaithful highlighter known) {ps : List Passage}
    (hknown : ∀ b ∈ ps.filterMap (Passage.block? .markup), known b)
    (hdistinct : ∀ b ∈ ps.filterMap (Passage.block? .markup), ∀ b', known b' → b.key = b'.key → b = b') :
    (passageTokens highlighter .markup g ps).1 = (ps.flatMap (Passage.markupDrafts g.cache.salt)).map Draft.text ∧
      (passageTokens highlighter .markup g ps).2.cache = g.cache.perform (ps.flatMap Passage.markupCalls) := by
  induction ps generalizing g with
  | nil => exact ⟨rfl, rfl⟩
  | cons p ps ih =>
      have hmem : ∀ {b}, b ∈ p.block? .markup ∨ b ∈ ps.filterMap (Passage.block? .markup) →
          b ∈ (p :: ps).filterMap (Passage.block? .markup) := by
        intro b hb
        obtain hb | hb := hb
        · exact List.mem_filterMap.mpr ⟨p, List.mem_cons_self, hb⟩
        · obtain ⟨q, hq, hqb⟩ := List.mem_filterMap.mp hb
          exact List.mem_filterMap.mpr ⟨q, List.mem_cons_of_mem p hq, hqb⟩
      have hafter : (p.tokens highlighter .markup g).2.store.IsFaithful highlighter known := by
        refine hs.of_grows (p.grows_tokens highlighter .markup g) fun b hb => ?_
        exact hdistinct b (hmem (.inl (Option.mem_toList.mp hb)))
      obtain ⟨hlines, hcache⟩ := p.tokens_markup hverbatim hs fun b hb => hknown b (hmem (.inl hb))
      obtain ⟨hlater, hcache'⟩ := ih hafter (fun b hb => hknown b (hmem (.inr hb))) fun b hb => hdistinct b (hmem (.inr hb))
      rw [p.salt_tokens] at hlater
      rw [hcache] at hcache'
      simp only [passageTokens, hlines, hlater, hcache', List.flatMap_cons, List.map_append, true_and]
      exact (List.foldl_append).symm

end Written

theorem isPlain_or_codeCall_of_mem {ps : List Passage} {call : Call} (h : call ∈ ps.flatMap Passage.markupCalls) :
    call.IsPlain ∨ ∃ body hint isInListing, call = codeCall body hint isInListing := by
  obtain ⟨p, -, hp⟩ := List.mem_flatMap.mp h
  cases p with
  | code first body last hint isInListing => exact .inr ⟨body, hint, isInListing, List.mem_singleton.mp hp⟩
  | _ =>
      simp only [Passage.markupCalls] at hp
      exact .inl (Passage.isPlain_of_mem_calls hp)

theorem codeCall_eq_of_cacheable {body body' : List Text} {hint hint' : Hint} {isInListing isInListing' : Bool}
    (h : (codeCall body hint isInListing).cacheable = (codeCall body' hint' isInListing').cacheable) :
    codeCall body hint isInListing = codeCall body' hint' isInListing' := by
  simp only [codeCall, Call.cacheable, Cacheable.code.injEq, CodeKey.mk.injEq, true_and] at h ⊢
  obtain ⟨hbody, hlanguage, hlisting, hoptions⟩ := h
  rw [hbody, hlanguage, hlisting, hoptions]

theorem flat_markupCalls (ps : List Passage) : Call.Flat (ps.flatMap Passage.markupCalls) where
  token_notMem call hcall := by
    obtain hplain | ⟨body, hint, isInListing, rfl⟩ := isPlain_or_codeCall_of_mem hcall
    · exact hplain.token_notMem_content
    · exact fun token => Draft.token_notMem_plain token _
  eq_of_cacheable a ha b hb h := by
    obtain hplain | ⟨body, hint, isInListing, rfl⟩ := isPlain_or_codeCall_of_mem ha <;>
      obtain hplain' | ⟨body', hint', isInListing', rfl⟩ := isPlain_or_codeCall_of_mem hb
    · exact hplain.eq hplain' h
    · cases a <;> first | exact hplain.elim | cases h
    · cases b <;> first | exact hplain'.elim | cases h
    · exact codeCall_eq_of_cacheable h

section Rendered

variable {salt : Text} {calls : List Call}

theorem Passage.expands_markupDrafts (hdistinct : Call.Distinct salt calls) (hflat : Call.Flat calls) {p : Passage}
    (hcalls : ∀ call ∈ p.markupCalls, call ∈ calls) :
    List.Forall₂ (Call.meaning salt calls .markup).Expands (p.markupDrafts salt) p.rendered := by
  cases p with
  | code first body last hint isInListing =>
      have h : (Call.meaning salt calls .markup).Expands [.token ((codeCall body hint isInListing).token salt)]
          (Draft.text ((codeCall body hint isInListing).rendered .markup)) :=
        hflat.expands_token hdistinct (hcalls _ List.mem_cons_self)
      rw [codeCall, Call.rendered, SpanKind.text_render_markup, if_neg (by decide)] at h
      exact .cons h .nil
  | _ =>
      simp only [markupCalls] at hcalls
      exact Passage.expands_drafts hdistinct hflat hcalls

/-- Putting the spans back gives the passages their rendered lines. -/
theorem restore_unlines_markupDrafts {ps : List Passage} (hdistinct : Call.Distinct salt (ps.flatMap Passage.markupCalls))
    (hmarks : (Call.meaning salt (ps.flatMap Passage.markupCalls) .markup).Marks
      ((ps.flatMap Passage.markupCalls).map (Call.token salt)) (Draft.unlines (ps.flatMap (Passage.markupDrafts salt)))) :
    (Cache.build salt (ps.flatMap Passage.markupCalls)).restore
        (Text.unlines ((ps.flatMap (Passage.markupDrafts salt)).map Draft.text)) .markup =
      Text.unlines (ps.flatMap Passage.rendered) := by
  have hflat := flat_markupCalls ps
  rw [← Draft.text_unlines]
  refine Cache.restore_of_tokenless hflat.tokenless hdistinct hmarks (Meaning.Expands.unlines ?_)
  have hpassages : ∀ qs : List Passage, (∀ q ∈ qs, q ∈ ps) →
      List.Forall₂ (Call.meaning salt (ps.flatMap Passage.markupCalls) .markup).Expands
        (qs.flatMap (Passage.markupDrafts salt)) (qs.flatMap Passage.rendered) := by
    intro qs hqs
    induction qs with
    | nil => exact .nil
    | cons q qs ih =>
        have hrest := ih fun other hother => hqs other (List.mem_cons_of_mem q hother)
        refine List.rel_append (q.expands_markupDrafts hdistinct hflat fun call hcall => ?_) hrest
        exact List.mem_flatMap.mpr ⟨q, hqs q List.mem_cons_self, hcall⟩
  exact hpassages ps fun _ h => h

end Rendered

end Source

end Manuscript
