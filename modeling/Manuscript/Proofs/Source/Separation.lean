import Manuscript.Proofs.Cache.Framing
import Manuscript.Proofs.Inclusion.Annotation
import Manuscript.Proofs.Source.Read
import Manuscript.Proofs.Source.Requests

/-!
Tokens and keys are told apart by what they stand for, as far as the digest can tell bytes apart.

Main statement: all that is cached while tokens are written, and all that the store is asked for, is digested from bytes
of its own (`isSeparated`).
-/

namespace Manuscript

namespace Highlight.Block

/-- The parts that the key of a block is the digest of. -/
def parts (b : Block) : List Text := [b.code, b.language, b.format.name]

theorem key_eq (b : Block) : b.key = digest b.parts := rfl

/-- A block whose language is made of language characters is digested from bytes of its own, whatever its code is. -/
theorem eq_of_digestInput {b b' : Block} (hb : b.language.all Source.isLanguageCharacter = true)
    (hb' : b'.language.all Source.isLanguageCharacter = true) (h : digestInput b.parts = digestInput b'.parts) :
    b = b' := by
  have hclean : ∀ b : Block, b.language.all Source.isLanguageCharacter = true →
      ∀ part ∈ [b.language, b.format.name], nul ∉ part := by
    intro b hb
    simp only [List.forall_mem_cons]
    exact ⟨Cacheable.nul_notMem_of_isLanguage hb, Cacheable.nul_notMem_name _, by simp⟩
  obtain ⟨hcode, hothers⟩ :=
    framed_cons_inj_of_length (hclean b hb) (hclean b' hb') rfl (framed_eq_of_digestInput h)
  obtain ⟨hlanguage, hformat⟩ := List.cons.inj hothers
  have hsame : b.format = b'.format := Cacheable.name_injective (List.cons.inj hformat).1
  cases b
  cases b'
  simp_all

end Highlight.Block

namespace Source

variable {highlighter : Highlighter} {format : Format}

/-- The hint is of a language that a line can name. -/
def Hint.IsNamed (hint : Hint) : Prop := hint.language.all isLanguageCharacter = true

theorem isNamed_default : Hint.default.IsNamed :=
  (by decide : Hint.default.language.all isLanguageCharacter = true)

/-- The hint of a passage, if it is a code block. -/
def Passage.hint? : Passage → Option Hint
  | .code _ _ _ requested _ => some requested
  | .hint _ | .rawHtml _ _ | .literal _ _ _ | .math _ _ _ _ | .comment _ | .prose _ => none

/-- The language of a code block is one that a line can name. -/
def Passage.IsNamed (p : Passage) : Prop := ∀ requested, p.hint? = some requested → requested.IsNamed

theorem Passage.isNamed_of_eq_none {p : Passage} (h : p.hint? = none) : p.IsNamed := by
  intro requested hrequested
  rw [h] at hrequested
  cases hrequested

theorem isNamed_of_readBlock {c : Context} (hc : ∀ hint, c.hint = some hint → hint.IsNamed) {category : Category}
    {name first last : Text} {body : List Text} {p : Passage} (h : readBlock c category name first body last = .ok p) :
    p.IsNamed := by
  cases category with
  | literal | math =>
      cases h
      exact Passage.isNamed_of_eq_none rfl
  | code =>
      simp only [readBlock] at h
      split at h
      · cases h
      · cases h
        intro requested hrequested
        obtain rfl := Option.some.inj hrequested
        cases hhint : c.hint with
        | none => exact isNamed_default
        | some hint => exact hc hint hhint

theorem isNamed_of_next {c c' : Context} (hc : ∀ hint, c.hint = some hint → hint.IsNamed) {line : Text}
    {rest rest' : List Text} {p : Passage} (h : next c line rest = .ok (p, c', rest')) :
    p.IsNamed ∧ ∀ hint, c'.hint = some hint → hint.IsNamed := by
  have hnone : ∀ {c : Context}, c.hint = none → ∀ hint, c.hint = some hint → hint.IsNamed := by
    intro c hnone hint hhint
    rw [hnone] at hhint
    cases hhint
  cases reads_of_next h with
  | hint hhint =>
      refine ⟨Passage.isNamed_of_eq_none rfl, fun hint heq => ?_⟩
      obtain rfl := Option.some.inj heq
      exact Inclusion.all_of_hint? hhint
  | rawHtml => exact ⟨Passage.isNamed_of_eq_none rfl, hnone rfl⟩
  | block _ _ _ _ hread => exact ⟨isNamed_of_readBlock hc hread, hnone rfl⟩
  | line =>
      refine ⟨?_, hnone (c.hint_pass line)⟩
      split <;> exact Passage.isNamed_of_eq_none rfl

theorem isNamed_of_mem_passages {c : Context} {lines : List Text} (hc : ∀ hint, c.hint = some hint → hint.IsNamed) :
    ∀ p ∈ (passages c lines).1, p.IsNamed := by
  induction c, lines using passages_induction with
  | nil c => simp [passages]
  | error c line rest e hnext => simp [passages_cons_error hnext]
  | ok c line rest p c' rest' hnext ih =>
      obtain ⟨hp, hc'⟩ := isNamed_of_next hc hnext
      rw [passages_cons_ok hnext]
      exact List.forall_mem_cons.mpr ⟨hp, ih hc'⟩

/-- What is cached of a line of prose. -/
theorem Item.isScanned_of_call? {i : Item} {call : Call} (h : i.call? = some call) : call.cacheable.IsScanned := by
  cases i with
  | escaped | character => cases h
  | verb | link | beyondAscii =>
      obtain rfl := Option.some.inj h
      exact .span (by decide) _
  | math fence body =>
      obtain rfl := Option.some.inj h
      refine .delimited ?_ _
      cases fence with
      | parentheses | dollar => exact List.mem_cons_self
      | brackets | dollars => exact List.mem_cons_of_mem _ List.mem_cons_self

/-- What is cached for a passage is one of its calls, or the block of code that it is. -/
theorem Passage.of_mem_requests {p : Passage} {s : Highlight.Store} {call : Call}
    (h : .cache call ∈ p.requests highlighter format s) :
    call ∈ p.calls ∨ ∃ first body last hint isInListing rendered, p = .code first body last hint isInListing ∧
      call = .code (Text.unlines body) (Draft.plain rendered) ⟨hint.language, format, isInListing, hint.options⟩ := by
  have hplain : ∀ {calls : List Call}, .cache call ∈ calls.map Request.cache → call ∈ calls := by
    intro calls hmem
    obtain ⟨same, hsame, heq⟩ := List.mem_map.mp hmem
    cases heq
    exact hsame
  cases p with
  | code first body last hint isInListing =>
      obtain hcode | hcache := List.mem_append.mp h
      · unfold codeRequests at hcode
        dsimp only at hcode
        split at hcode
        · split at hcode <;> simp at hcode
        · simp at hcode
      · cases List.mem_singleton.mp hcache
        exact .inr ⟨_, _, _, _, _, _, rfl, rfl⟩
  | _ => exact .inl (hplain h)

/-- What is cached of a passage that has been read. -/
theorem Passage.isScanned_of_mem_requests {p : Passage} (hread : p.IsRead) (hnamed : p.IsNamed) {s : Highlight.Store}
    {call : Call} (h : .cache call ∈ p.requests highlighter format s) : call.cacheable.IsScanned := by
  obtain hcall | ⟨_, _, _, _, _, _, rfl, rfl⟩ := of_mem_requests h
  · cases hread with
    | hint | comment | code => cases hcall
    | rawHtml | literal =>
        cases List.mem_singleton.mp hcall
        exact .span (by decide) _
    | math hname =>
        obtain hlabel | hbody := List.mem_append.mp hcall
        · obtain ⟨name, -, rfl⟩ := List.mem_map.mp hlabel
          exact .label name
        · cases List.mem_singleton.mp hbody
          exact .delimited (List.mem_cons_of_mem _ (List.mem_cons_of_mem _ hname)) _
    | prose =>
        obtain ⟨i, -, hi⟩ := List.mem_filterMap.mp hcall
        exact Item.isScanned_of_call? hi
  · exact .code _ (hnamed _ rfl)

/-- The store is asked for a block whose language a line can name. -/
theorem Passage.exists_block_of_mem_requests {p : Passage} (hnamed : p.IsNamed) {s : Highlight.Store} {key : Text}
    (h : .lookUp key ∈ p.requests highlighter format s) :
    ∃ b : Highlight.Block, b.language.all isLanguageCharacter = true ∧ b.key = key := by
  cases p with
  | code first body last requested isInListing =>
      refine ⟨⟨Text.unlines body, requested.language, format⟩, hnamed requested rfl, ?_⟩
      obtain hcode | hcache := List.mem_append.mp h
      · unfold codeRequests at hcode
        dsimp only at hcode
        split at hcode
        · split at hcode <;> simp at hcode <;> exact hcode.symm
        · simp at hcode
      · simp at hcache
  | _ => simp [requests] at h

/-- A request that is made for some passages is made for one of them. -/
theorem exists_of_mem_requests {s : Highlight.Store} {ps : List Passage} {request : Request}
    (h : request ∈ requests highlighter format s ps) : ∃ p ∈ ps, ∃ s', request ∈ p.requests highlighter format s' := by
  induction ps generalizing s with
  | nil => cases h
  | cons p ps ih =>
      obtain hfirst | hlater := List.mem_append.mp h
      · exact ⟨p, List.mem_cons_self, s, hfirst⟩
      · obtain ⟨q, hq, s', hs'⟩ := ih hlater
        exact ⟨q, List.mem_cons_of_mem p hq, s', hs'⟩

/-- All that is cached while tokens are written is digested from bytes of its own, and so is all that the store is asked
for: two tokens by one salt, or two keys, are the same only if different bytes have the same digest. -/
theorem isSeparated (highlighter : Highlighter) (format : Format) (s : Highlight.Store) (source salt : Text) :
    (∀ call, .cache call ∈ requests highlighter format s (passagesOf source) → call.cacheable.IsScanned) ∧
      (∀ key, .lookUp key ∈ requests highlighter format s (passagesOf source) →
        ∃ b : Highlight.Block, b.language.all isLanguageCharacter = true ∧ b.key = key) ∧
      (∀ a b : Cacheable, a.IsScanned → b.IsScanned →
        (digestInput (a.parts salt) = digestInput (b.parts salt) → a = b) ∧
          (a.token salt = b.token salt → a = b ∨ Collide (a.parts salt) (b.parts salt))) ∧
      ∀ b b' : Highlight.Block, b.language.all isLanguageCharacter = true → b'.language.all isLanguageCharacter = true →
        (digestInput b.parts = digestInput b'.parts → b = b') ∧
          (b.key = b'.key → b = b' ∨ Collide b.parts b'.parts) := by
  have hnamed : ∀ p ∈ passagesOf source, p.IsNamed := isNamed_of_mem_passages (by nofun)
  refine ⟨fun call hcall => ?_, fun key hkey => ?_, fun a b ha hb => ⟨ha.eq hb, fun htoken => ?_⟩,
    fun b b' hb hb' => ⟨Highlight.Block.eq_of_digestInput hb hb', fun hkey => ?_⟩⟩
  · obtain ⟨p, hp, s', hcache⟩ := exists_of_mem_requests hcall
    exact Passage.isScanned_of_mem_requests (isRead_of_mem_passages p hp) (hnamed p hp) hcache
  · obtain ⟨p, hp, s', hlookUp⟩ := exists_of_mem_requests hkey
    exact Passage.exists_block_of_mem_requests (hnamed p hp) hlookUp
  · by_cases hbytes : digestInput (a.parts salt) = digestInput (b.parts salt)
    · exact .inl (ha.eq hb hbytes)
    · exact .inr ⟨hbytes, htoken⟩
  · by_cases hbytes : digestInput b.parts = digestInput b'.parts
    · exact .inl (Highlight.Block.eq_of_digestInput hb hb' hbytes)
    · exact .inr ⟨hbytes, hkey⟩

namespace Imitation

/-- Code that holds the beginning of another block's parts, null characters included. -/
def first : Cacheable := .code "x\x00ruby" ⟨"html", .html, false, .default⟩

/-- A block whose language and format the other imitates. -/
def second : Cacheable := .code "x" ⟨"ruby", .html, false, .default⟩

theorem digestInput_ne : first.IsScanned ∧ second.IsScanned ∧
    digestInput (first.parts "s") ≠ digestInput (second.parts "s") := by
  have hfirst : first.IsScanned := .code _ (by decide)
  have hsecond : second.IsScanned := .code _ (by decide)
  refine ⟨hfirst, hsecond, fun h => ?_⟩
  have heq := ((isSeparated Highlight.plain .html .inMemory [] "s").2.2.1 first second hfirst hsecond).1 h
  cases heq

end Imitation

end Source

end Manuscript
