import Manuscript.Proofs.Source.Names
import Manuscript.Proofs.Source.Requests
import Manuscript.Proofs.Source.RoundTrip

/-!
How much of a manuscript is left in the text with tokens for its spans.

Main statement: comments and the markers of environments are copied, and of all other lines no character beyond ASCII is
left but for the delimiters of `\verb` spans (`isShielded_iff`).
-/

namespace Manuscript.Source

/-- The delimiters that are written for an item as they are. -/
def Item.delimiters : Item → List Char
  | .verb _ delimiter _ => [delimiter]
  | .escaped _ | .math _ _ | .link _ _ | .beyondAscii _ _ | .character _ => []

/-- The character that an item is, if it is a single one or a protected one. -/
def Item.single? : Item → Option Char
  | .escaped c | .character c => some c
  | .verb _ _ _ | .math _ _ | .link _ _ | .beyondAscii _ _ => none

/-- Are single characters ASCII, and runs of others beyond ASCII? -/
def Item.IsSorted : Item → Prop
  | .escaped c | .character c => isAscii c = true
  | .beyondAscii first others => ∀ c ∈ first :: others, isAscii c = false
  | .verb _ _ _ | .math _ _ | .link _ _ => True

theorem isSorted_of_item? {t rest : Text} {i : Item} (h : item? t = some (i, rest)) : i.IsSorted := by
  simp only [item?, link?, Option.orElse_eq_orElse, Option.orElse_eq_or, Option.or_eq_some_iff] at h
  rcases h with h | ⟨-, h | ⟨-, h | ⟨-, h | ⟨-, h⟩⟩⟩⟩
  · unfold escaped? at h
    split at h
    · split at h
      · rename_i hprotected
        cases h
        rcases hprotected with rfl | rfl <;> rfl
      · cases h
    · cases h
  · simp only [verb?, Option.bind_eq_bind, Option.bind_eq_some_iff] at h
    obtain ⟨_, -, h⟩ := h
    split at h
    · cases h
    · split at h
      · cases h
      · obtain ⟨_, -, h⟩ := Option.bind_eq_some_iff.mp h
        cases h
        trivial
  · simp only [math?, Option.bind_eq_bind, Option.bind_eq_some_iff] at h
    obtain ⟨_, -, _, -, _, -, h⟩ := h
    cases h
    trivial
  · have hwith : ∀ command, linkWith? command t = some (i, rest) → i.IsSorted := by
      intro command hlink
      simp only [linkWith?, Option.bind_eq_bind, Option.bind_eq_some_iff] at hlink
      obtain ⟨_, -, _, -, hlink⟩ := hlink
      cases hlink
      trivial
    rcases h with h | ⟨-, h⟩ <;> exact hwith _ h
  · cases t with
    | nil => cases h
    | cons first t =>
        rw [character?] at h
        split at h
        · rename_i hascii
          cases h
          exact hascii
        · rename_i hascii
          cases h
          refine List.forall_mem_cons.mpr ⟨(Bool.not_eq_true _).mp hascii, fun c hc => ?_⟩
          simpa using List.mem_takeWhile_imp hc

theorem isSorted_of_mem_items {t : Text} {i : Item} (hi : i ∈ items t) : i.IsSorted := by
  fun_induction items t with
  | case1 => cases hi
  | case2 t first rest hfirst _ ih =>
      rcases List.mem_cons.mp hi with rfl | hmem
      · exact isSorted_of_item? hfirst
      · exact ih hmem

theorem isAscii_of_mem_items {t : Text} {i : Item} (hi : i ∈ items t) {c : Char} (hc : i.single? = some c) :
    isAscii c = true := by
  have hsorted := isSorted_of_mem_items hi
  cases i with
  | escaped | character =>
      obtain rfl := Option.some.inj hc
      exact hsorted
  | _ => cases hc

section BeyondAscii

variable {c : Char} (hc : isAscii c = false)

include hc

theorem notMem_of_all_isAscii {t : Text} (h : t.all isAscii = true) : c ∉ t := by
  intro hmem
  rw [List.all_eq_true.mp h c hmem] at hc
  cases hc

theorem notMem_token (salt : Text) (span : Cacheable) : c ∉ span.token salt :=
  notMem_of_all_isAscii hc (List.all_eq_true.mpr fun _ => isAscii_of_mem_digest)

/-- Around the token of an item only its delimiters can be beyond ASCII. -/
theorem Item.mem_text_draft_iff {t : Text} {i : Item} (hi : i ∈ items t) (salt : Text) :
    c ∈ Draft.text (i.draft salt) ↔ c ∈ i.delimiters := by
  have htoken : ∀ call : Call, c ∉ call.token salt := fun call => notMem_token hc salt call.cacheable
  cases i with
  | escaped d =>
      have hall : (['\\', d] : Text).all isAscii = true := by
        simp [isAscii_of_mem_items hi rfl, show isAscii '\\' = true from rfl]
      exact iff_of_false (notMem_of_all_isAscii hc hall) List.not_mem_nil
  | character d =>
      have hall : ([d] : Text).all isAscii = true := by simp [isAscii_of_mem_items hi rfl]
      exact iff_of_false (notMem_of_all_isAscii hc hall) List.not_mem_nil
  | verb isStarred delimiter body =>
      have hcommand : c ∉ verbCommand := notMem_of_all_isAscii hc rfl
      rw [Item.text_draft rfl]
      simp [frame, delimiters, hcommand, htoken]
  | math fence body =>
      have hopening : c ∉ fence.opening := notMem_of_all_isAscii hc (by cases fence <;> rfl)
      have hclosing : c ∉ fence.closing := notMem_of_all_isAscii hc (by cases fence <;> rfl)
      rw [Item.text_draft rfl]
      simp [frame, delimiters, hopening, hclosing, htoken]
  | link command target =>
      have hopening : c ∉ command.opening := notMem_of_all_isAscii hc (by cases command <;> rfl)
      have hclosing : c ∉ linkClosing := notMem_of_all_isAscii hc rfl
      rw [Item.text_draft rfl]
      simp [frame, delimiters, hopening, hclosing, htoken]
  | beyondAscii first others =>
      rw [Item.text_draft rfl]
      simp [frame, delimiters, htoken]

end BeyondAscii

/-- The lines of a passage that are copied: those before the others and those after them. -/
def Passage.copied : Passage → List Text × List Text
  | .literal first _ last | .math _ first _ last => ([first], [last])
  | .comment line => ([line], [])
  | .hint _ | .rawHtml _ _ | .code _ _ _ _ _ | .prose _ => ([], [])

/-- The lines that are written for a passage besides those that are copied. -/
def Passage.shielded (format : Format) (salt : Text) : Passage → List Text
  | .code _ body _ requested isInListing =>
    (codeTokens Highlight.plain format ⟨.empty salt, .inMemory⟩ (Text.unlines body) requested isInListing).1
  | .prose line => [tokenized salt line]
  | p => (p.call?.toList ++ p.labels.map Call.label).map (Call.token salt)

/-- The delimiters that are written for a passage as they are. -/
def Passage.delimiters : Passage → List Char
  | .prose line => (items line).flatMap Item.delimiters
  | .hint _ | .rawHtml _ _ | .literal _ _ _ | .code _ _ _ _ _ | .math _ _ _ _ | .comment _ => []

/-- All that is not copied is ASCII. -/
def IsShielded (format : Format) (salt source : Text) : Prop :=
  ∀ p ∈ passagesOf source, ∀ line ∈ p.shielded format salt, ∀ c ∈ line, isAscii c = true

variable {highlighter : Highlighter} {format : Format}

/-- What is written for a passage. -/
theorem Passage.tokens_fst (g : Gathered) (p : Passage) :
    (p.tokens highlighter format g).1 = p.copied.1 ++ p.shielded format g.cache.salt ++ p.copied.2 := by
  cases p with
  | code first body last requested isInListing =>
      simp only [tokens, copied, shielded, codeTokens, Cache.addCode, Cache.empty, List.nil_append, List.append_nil]
  | prose line =>
      rw [tokens_eq highlighter format g rfl]
      simp only [drafts, copied, shielded, tokenized_eq, List.map_cons, List.map_nil, List.nil_append, List.append_nil]
  | hint | comment | rawHtml | literal | math =>
      rw [tokens_eq highlighter format g rfl]
      simp [drafts, copied, shielded, Passage.call?, Passage.labels, Draft.text_plain, Part.text, Function.comp_def]

theorem fst_passageTokens (g : Gathered) (ps : List Passage) :
    (passageTokens highlighter format g ps).1 =
      ps.flatMap fun p => p.copied.1 ++ p.shielded format g.cache.salt ++ p.copied.2 := by
  induction ps generalizing g with
  | nil => rfl
  | cons p ps ih => simp only [passageTokens, ih, p.tokens_fst, p.salt_tokens, List.flatMap_cons]

/-- Of a passage no character beyond ASCII is left but for the delimiters of `\verb` spans. -/
theorem Passage.exists_mem_shielded_iff (p : Passage) (salt : Text) {c : Char} (hc : isAscii c = false) :
    (∃ line ∈ p.shielded format salt, c ∈ line) ↔ c ∈ p.delimiters := by
  have htokens : ∀ calls : List Call, ¬ ∃ line ∈ calls.map (Call.token salt), c ∈ line := by
    rintro calls ⟨line, hline, hmem⟩
    obtain ⟨call, -, rfl⟩ := List.mem_map.mp hline
    exact notMem_token hc salt call.cacheable hmem
  cases p with
  | prose line =>
      have hitems : c ∈ tokenized salt line ↔ ∃ i ∈ items line, c ∈ Draft.text (i.draft salt) := by
        rw [tokenized_eq, Draft.text, List.flatMap_assoc, List.mem_flatMap]
        rfl
      rw [shielded, delimiters, List.mem_flatMap]
      simp only [List.mem_singleton, exists_eq_left, hitems]
      exact exists_congr fun i => and_congr_right fun hi => Item.mem_text_draft_iff hc hi salt
  | code first body last requested isInListing =>
      have hbegin : c ∉ ("\\begin\x7bcode\x7d" : Text) := notMem_of_all_isAscii hc rfl
      have hend : c ∉ ("\\end\x7bcode\x7d" : Text) := notMem_of_all_isAscii hc rfl
      have hlines : ∀ line ∈ (code first body last requested isInListing).shielded format salt, c ∉ line := by
        cases format with
        | html =>
            exact List.forall_mem_cons.mpr
              ⟨hbegin, List.forall_mem_cons.mpr ⟨notMem_token hc _ _, List.forall_mem_singleton.mpr hend⟩⟩
        | markup => exact List.forall_mem_singleton.mpr (notMem_token hc _ _)
      refine iff_of_false ?_ List.not_mem_nil
      rintro ⟨line, hline, hmem⟩
      exact hlines line hline hmem
  | _ => exact iff_of_false (htokens _) List.not_mem_nil

/-- The text with tokens for its spans is written passage by passage.  Beyond ASCII it has, besides the lines that are
copied, the delimiters of `\verb` spans and nothing else; so all else is ASCII just when these delimiters are. -/
theorem isShielded_iff {g : Gathered} {source text : Text} (h : (tokenize highlighter format g source).1 = .ok text) :
    text = Text.unlines ((passagesOf source).flatMap fun p =>
        p.copied.1 ++ p.shielded format g.cache.salt ++ p.copied.2) ∧
      (∀ p ∈ passagesOf source, ∀ c, isAscii c = false →
        ((∃ line ∈ p.shielded format g.cache.salt, c ∈ line) ↔ c ∈ p.delimiters)) ∧
      (IsShielded format g.cache.salt source ↔ ∀ p ∈ passagesOf source, ∀ c ∈ p.delimiters, isAscii c = true) := by
  have hlines : ∀ (p : Passage) (c : Char), isAscii c = false →
      ((∃ line ∈ p.shielded format g.cache.salt, c ∈ line) ↔ c ∈ p.delimiters) :=
    fun p c hc => p.exists_mem_shielded_iff g.cache.salt hc
  refine ⟨?_, fun p _ => hlines p, fun hshielded p hp c hc => ?_, fun hdelimiters p hp line hline c hc => ?_⟩
  · rw [tokenize_eq] at h
    simp only [fst_passageTokens] at h
    split at h
    · cases h
    · exact (Except.ok.inj h).symm
  · by_contra hbeyond
    obtain ⟨line, hline, hmem⟩ := (hlines p c ((Bool.not_eq_true _).mp hbeyond)).mpr hc
    exact hbeyond (hshielded p hp line hline c hmem)
  · by_contra hbeyond
    exact hbeyond (hdelimiters p hp c ((hlines p c ((Bool.not_eq_true _).mp hbeyond)).mp ⟨line, hline, hc⟩))

namespace SectionSigns

/-- A `\verb` span between section signs, and a word with a letter beyond ASCII. -/
def source : Text := "\\verb§x§ é"

/-- Nothing is gathered yet. -/
def gathered : Gathered := ⟨.empty "s", .inMemory⟩

/-- The manuscript with tokens for its spans: the delimiters are left. -/
def text : Text :=
  "\\verb§" ++ (Cacheable.span .literal "x").token "s" ++ "§ " ++ (Cacheable.span .unicode "é").token "s"

theorem tokenize_source : (tokenize Highlight.plain .markup gathered source).1 = .ok text := by
  decide +kernel

/-- The delimiters stay in the text for the parser. -/
theorem not_isShielded : (tokenize Highlight.plain .markup gathered source).1 = .ok text ∧
    ¬ IsShielded .markup "s" source := by
  have hprose : Passage.prose source ∈ passagesOf source := by decide +kernel
  have htext : text ∈ (Passage.prose source).shielded .markup "s" := by decide +kernel
  have hsign : '§' ∈ text := by decide +kernel
  refine ⟨tokenize_source, fun hshielded => ?_⟩
  have hascii := hshielded (.prose source) hprose text htext '§' hsign
  revert hascii
  decide

theorem isShielded_source_iff : (tokenize Highlight.plain .markup gathered source).1 = .ok text ∧
    (IsShielded .markup "s" source ↔ ∀ p ∈ passagesOf source, ∀ c ∈ p.delimiters, isAscii c = true) :=
  ⟨tokenize_source, (isShielded_iff tokenize_source).2.2⟩

end SectionSigns

end Manuscript.Source
