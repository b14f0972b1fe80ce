import Manuscript.Proofs.Highlight.Sharing
import Manuscript.Proofs.Source.Settled

/-!
Markup converted to markup again.

Main statement: it stays as it is, and every code block ends where it was ended, if and only if the code is balanced in
`Verbatim` environments, no star is left to lose, and no directive is left for the inclusions (`isFixpoint_iff_isSettled`).
-/

namespace Manuscript

open Source (Passage)

namespace Conversion

open Source (IsSettled rewritten writtenCode)
open Highlight (markupOpening markupClosing)

/-- A conversion to markup with a highlighter that sets code as a `Verbatim` environment.  The tokens are assumed to be
markers: different things have different tokens, and they occur only where they were put. -/
structure IsOrderly (c : Conversion) (w : Workspace) (source : Text) : Prop where
  format_eq : c.format = .markup
  writesVerbatim : WritesVerbatim c.highlighter
  isFaithful : w.store.IsFaithful c.highlighter (· ∈ c.blocks w.sources source)
  /-- No two blocks share a digest. -/
  eq_of_key_eq : ∀ b ∈ c.blocks w.sources source, ∀ b' ∈ c.blocks w.sources source, b.key = b'.key → b = b'
  distinct : Call.Distinct c.salt ((w.passages source).flatMap Passage.markupCalls)
  marks : (Call.meaning c.salt ((w.passages source).flatMap Passage.markupCalls) .markup).Marks
    (((w.passages source).flatMap Passage.markupCalls).map (Call.token c.salt))
    (Draft.unlines ((w.passages source).flatMap (Passage.markupDrafts c.salt)))

/-- The markup converts to itself, and every code block that it was made from ends where it was ended. -/
structure IsFixpoint (c : Conversion) (w : Workspace) (ps : List Passage) (markup : Text) : Prop where
  run_eq : (c.run w markup).1.map Converted.body = .ok markup
  ends : ∀ before first body last requested isInListing after,
    ps = before ++ .code first body last requested isInListing :: after →
    ∃ before' after', w.passages markup =
        before' ++ .literal (markupOpening requested.options) (writtenCode body) markupClosing :: after' ∧
      before'.flatMap Passage.lines = (before.filterMap Passage.rewritten?).flatMap Passage.lines

variable {c : Conversion} {w : Workspace} {source markup : Text}

theorem passages_eq (w : Workspace) (source : Text) :
    w.passages source = (Source.passages .start (Inclusion.becomes w.sources.provider none (source.splitOn '\n'))).1 := by
  rw [Workspace.passages, Inclusion.splitOn_expand_eq, Inclusion.becomes]

theorem isRead_of_mem_passages : ∀ p ∈ w.passages source, p.IsRead := Source.isRead_of_mem_passages

theorem lineFeed_notMem_of_mem_passages
    (hread : (Source.passages .start (Inclusion.becomes w.sources.provider none (source.splitOn '\n'))).2 = none) :
    ∀ p ∈ w.passages source, ∀ line ∈ p.lines, '\n' ∉ line := by
  intro p hp line hline
  have hmem : line ∈ (w.passages source).flatMap Passage.lines := List.mem_flatMap.mpr ⟨p, hp, hline⟩
  rw [passages_eq, Source.flatMap_lines_passages hread] at hmem
  exact Inclusion.lineFeed_notMem_expandLines (fun _ => Text.notMem_of_mem_splitOn) none 1 line hmem

theorem map_body_run (c : Conversion) (w : Workspace) (source : Text) :
    (c.run w source).1.map Converted.body =
      (c.outcome [] (c.gather w source).1 (c.gather w source).2.cache).map Converted.body := by
  have hpage := congrArg (Except.map Prod.fst) (page_run c w source)
  generalize (c.run w source).1 = result, c.outcome [] (c.gather w source).1 (c.gather w source).2.cache = result'
    at hpage ⊢
  cases result <;> cases result' <;> exact hpage

theorem map_body_outcome (hformat : c.format = .markup) (tokens : Text) (cache : Cache) :
    (c.outcome [] (.ok tokens) cache).map Converted.body = .ok (cache.restore tokens .markup) := by
  simp only [outcome, finish, hformat]
  rfl

/-- The tokens that a conversion to markup gathers stand for the passages. -/
theorem gather_eq (h : c.IsOrderly w source)
    (hread : (Source.passages .start (Inclusion.becomes w.sources.provider none (source.splitOn '\n'))).2 = none) :
    (c.gather w source).1 =
        .ok (Text.unlines (((w.passages source).flatMap (Passage.markupDrafts c.salt)).map Draft.text)) ∧
      (c.gather w source).2.cache = .build c.salt ((w.passages source).flatMap Passage.markupCalls) := by
  have hblocks : c.blocks w.sources source = (w.passages source).filterMap (Passage.block? .markup) := by
    rw [blocks, h.format_eq]
    rfl
  have hknown : ∀ b ∈ (w.passages source).filterMap (Passage.block? .markup), b ∈ c.blocks w.sources source :=
    fun b hb => hblocks ▸ hb
  obtain ⟨hlines, hcache⟩ := Source.passageTokens_markup h.writesVerbatim (g := ⟨.empty c.salt, w.store⟩) h.isFaithful
    hknown fun b hb => h.eq_of_key_eq b (hknown b hb)
  rw [Inclusion.becomes, ← Inclusion.splitOn_expand_eq] at hread
  rw [gather, h.format_eq, Source.tokenize_eq]
  simp only [hread]
  exact ⟨congrArg (fun lines => Except.ok (Text.unlines lines)) hlines, hcache⟩

/-- A conversion to markup writes the passages that it has read, and nothing else keeps it from doing so. -/
theorem map_body_run_eq_ok_iff (h : c.IsOrderly w source) :
    (c.run w source).1.map Converted.body = .ok markup ↔
      (Source.passages .start (Inclusion.becomes w.sources.provider none (source.splitOn '\n'))).2 = none ∧
        markup = Text.unlines ((rewritten (w.passages source)).flatMap Passage.lines) := by
  cases hread : (Source.passages .start (Inclusion.becomes w.sources.provider none (source.splitOn '\n'))).2 with
  | some e =>
      rw [run_eq_error_iff.mpr hread]
      exact iff_of_false nofun fun hnone => nomatch hnone.1
  | none =>
      obtain ⟨htokens, hcache⟩ := gather_eq h hread
      have hrestore := Source.restore_unlines_markupDrafts h.distinct h.marks
      rw [Source.unlines_rendered (lineFeed_notMem_of_mem_passages hread)] at hrestore
      rw [map_body_run, htokens, hcache, map_body_outcome h.format_eq, hrestore, Except.ok.injEq, eq_comm]
      exact ⟨fun hmarkup => ⟨rfl, hmarkup⟩, And.right⟩

theorem splitOn_markup
    (hread : (Source.passages .start (Inclusion.becomes w.sources.provider none (source.splitOn '\n'))).2 = none)
    (hmarkup : markup = Text.unlines ((rewritten (w.passages source)).flatMap Passage.lines)) :
    markup.splitOn '\n' = (rewritten (w.passages source)).flatMap Passage.lines := by
  rw [hmarkup, Source.splitOn_rewritten isRead_of_mem_passages (lineFeed_notMem_of_mem_passages hread)]

section Again

variable {c' : Conversion} {w' : Workspace}
  (hread : (Source.passages .start (Inclusion.becomes w.sources.provider none (source.splitOn '\n'))).2 = none)
  (hmarkup : markup = Text.unlines ((rewritten (w.passages source)).flatMap Passage.lines))
  (h' : c'.IsOrderly w' markup)

include hread hmarkup

/-- What has been written is read as it was written if the code is balanced and there are no directives. -/
theorem passages_markup (provider : Inclusion.Provider)
    (hbalanced : ∀ first body last requested isInListing, .code first body last requested isInListing ∈ w.passages source →
      Source.Balanced "Verbatim" body)
    (hfree : Inclusion.IsFree none ((rewritten (w.passages source)).flatMap Passage.lines)) :
    Source.passages .start (Inclusion.becomes provider none (markup.splitOn '\n')) =
        (rewritten (w.passages source), none) ∧
      rewritten (rewritten (w.passages source)) = (rewritten (w.passages source)).map Passage.unstarred := by
  have hagain := Source.passages_rewritten isRead_of_mem_passages (lineFeed_notMem_of_mem_passages hread) hbalanced
  rw [splitOn_markup hread hmarkup, Inclusion.becomes_eq_self _ hfree]
  exact ⟨hagain, Source.rewritten_rewritten isRead_of_mem_passages⟩

include h'

theorem isFixpoint_of_isSettled (hsettled : IsSettled (w.passages source)) :
    c'.IsFixpoint w' (w.passages source) markup := by
  obtain ⟨hagain, htwice⟩ := passages_markup hread hmarkup w'.sources.provider hsettled.balanced hsettled.isFree
  have hpassages : w'.passages markup = rewritten (w.passages source) := by
    rw [passages_eq, hagain]
  have hunstarred : (rewritten (w.passages source)).map Passage.unstarred = rewritten (w.passages source) := by
    have hall : ∀ q ∈ rewritten (w.passages source), q.unstarred = id q :=
      fun q hq => Source.Passage.unstarred_eq_iff.mpr (hsettled.starsLost_eq q hq)
    rw [List.map_congr_left hall, List.map_id]
  constructor
  · rw [map_body_run_eq_ok_iff h', hagain, hpassages, htwice, hunstarred]
    exact ⟨rfl, hmarkup⟩
  · intro before first body last requested isInListing after hps
    have hq : (Passage.code first body last requested isInListing).rewritten? =
        some (.literal (markupOpening requested.options) (writtenCode body) markupClosing) := rfl
    refine ⟨before.filterMap Passage.rewritten?, after.filterMap Passage.rewritten?, ?_, rfl⟩
    rw [hpassages, hps, Source.rewritten_append hq]

/-- Markup that converts to itself holds no directive, since an inclusion would have added lines for good. -/
theorem isFree_of_isFixpoint (hfixed : c'.IsFixpoint w' (w.passages source) markup) :
    Inclusion.IsFree none ((rewritten (w.passages source)).flatMap Passage.lines) := by
  obtain ⟨hread', hmarkup'⟩ := (map_body_run_eq_ok_iff h').mp hfixed.run_eq
  have hlines := splitOn_markup hread' hmarkup'
  have hle := Source.countP_rewritten isRead_of_mem_passages (lineFeed_notMem_of_mem_passages hread')
  rw [← hlines, passages_eq, Source.flatMap_lines_passages hread'] at hle
  rw [← splitOn_markup hread hmarkup]
  exact (Inclusion.countP_becomes w'.sources.provider none _).2 hle

/-- Markup that converts to itself is settled if the code in it ends where it was ended. -/
theorem isSettled_of_isFixpoint (hfixed : c'.IsFixpoint w' (w.passages source) markup) : IsSettled (w.passages source) := by
  have hfree := isFree_of_isFixpoint hread hmarkup h' hfixed
  have hbalanced : ∀ first body last requested isInListing, .code first body last requested isInListing ∈ w.passages source →
      Source.Balanced "Verbatim" body := by
    intro first body last requested isInListing hmem
    have hbody : ∀ line ∈ body, '\n' ∉ line :=
      (Source.forall_mem_block.mp (lineFeed_notMem_of_mem_passages hread _ hmem)).2.1
    obtain ⟨before, after, hps⟩ := List.append_of_mem hmem
    obtain ⟨before', after', hps', -⟩ := hfixed.ends _ _ _ _ _ _ _ hps
    have hliteral := isRead_of_mem_passages _ (hps'.symm ▸ List.mem_append_right before' List.mem_cons_self)
    exact (Source.balanced_congr (Source.markers_writtenCode "Verbatim" hbody)).mp (Source.balanced_of_isRead hliteral rfl)
  obtain ⟨hagain, htwice⟩ := passages_markup hread hmarkup w'.sources.provider hbalanced hfree
  obtain ⟨hread', hmarkup'⟩ := (map_body_run_eq_ok_iff h').mp hfixed.run_eq
  have hlines := splitOn_markup hread' hmarkup'
  rw [passages_eq, hagain, htwice, splitOn_markup hread hmarkup] at hlines
  refine ⟨hbalanced, fun q hq => ?_, hfree⟩
  exact Source.Passage.unstarred_eq_iff.mp (Source.eq_of_flatMap_lines_unstarred hlines.symm q hq)

end Again

/-- Markup converts to itself, with its code where it was, if and only if this code is balanced, no star of a `\verb*`
span is left to lose, and no directive is left where an inclusion would look at it. -/
theorem isFixpoint_iff_isSettled {c c' : Conversion} {w w' : Workspace} {source : Text} {r : Converted}
    (h : c.IsOrderly w source) (hrun : (c.run w source).1 = .ok r) (h' : c'.IsOrderly w' r.body) :
    r.body = Text.unlines ((rewritten (w.passages source)).flatMap Passage.lines) ∧
      (c'.IsFixpoint w' (w.passages source) r.body ↔ IsSettled (w.passages source)) := by
  have hbody : (c.run w source).1.map Converted.body = .ok r.body := by
    rw [hrun]
    rfl
  obtain ⟨hread, hmarkup⟩ := (map_body_run_eq_ok_iff h).mp hbody
  exact ⟨hmarkup, isSettled_of_isFixpoint hread hmarkup h', isFixpoint_of_isSettled hread hmarkup h'⟩

/-- Markup always converts to itself, with its code where it was. -/
def MarkupIsFixpoint : Prop :=
  ∀ (c c' : Conversion) (w w' : Workspace) (source : Text) (r : Converted), w'.sources = w.sources →
    c.IsOrderly w source → (c.run w source).1 = .ok r → c'.IsOrderly w' r.body →
    c'.IsFixpoint w' (w.passages source) r.body

/-- The drafts that come of a draft when tokens are replaced, each once or not at all. -/
def draftsOf (salt : Text) (calls : List Call) (d : Draft) : List Draft :=
  (calls.map (Call.token salt)).foldl
    (fun drafts token => drafts ++ drafts.map fun e => (Call.meaning salt calls .markup).unfold e token) [d]

/-- What there is to look at in an orderly conversion: no two blocks share a digest, no two calls share a token, and
tokens stand only where they were put, in the text with tokens and in all that comes of it when they are replaced. -/
def LooksOrderly (c : Conversion) (w : Workspace) (source : Text) : Prop :=
  let calls := (w.passages source).flatMap Passage.markupCalls
  let d := Draft.unlines ((w.passages source).flatMap (Passage.markupDrafts c.salt))
  let drafts := draftsOf c.salt calls d
  (∀ b ∈ c.blocks w.sources source, ∀ b' ∈ c.blocks w.sources source, b.key = b'.key → b = b') ∧
    (calls.map (Call.token c.salt)).Nodup ∧ d ∈ drafts ∧
    ∀ e ∈ drafts, ∀ token ∈ calls.map (Call.token c.salt),
      (Call.meaning c.salt calls .markup).unfold e token ∈ drafts ∧
        ∀ place < (Draft.text e).length,
          Text.startsWith token ((Draft.text e).drop place) → place ∈ Draft.places token 0 e

instance : Decidable (c.LooksOrderly w source) :=
  inferInstanceAs (Decidable (_ ∧ _))

/-- Whether a conversion with the plain highlighter and an empty store is orderly can be found out by looking. -/
theorem LooksOrderly.isOrderly (h : c.LooksOrderly w source) (hformat : c.format = .markup)
    (hhighlighter : c.highlighter = Highlight.plain) (hstore : w.store = .inMemory) : c.IsOrderly w source := by
  obtain ⟨hkeys, hnodup, hmem, hdrafts⟩ := h
  refine ⟨hformat, ?writesVerbatim, ?isFaithful, hkeys, Call.distinct_of_nodup hnodup, ?marks⟩
  case writesVerbatim =>
    rw [hhighlighter]
    exact fun _ _ _ => rfl
  case isFaithful =>
    rw [hstore]
    exact Highlight.Store.isFaithful_inMemory
  case marks =>
    refine Meaning.marks_of_forall_mem _ (fun _ => Call.draft?_meaning_eq_none) ?_
      (fun e he token htoken => (hdrafts e he token htoken).1) (fun e he token htoken => (hdrafts e he token htoken).2) hmem
    intro token htoken
    obtain ⟨call, -, rfl⟩ := List.mem_map.mp htoken
    exact call.token_ne_nil c.salt

theorem exists_run_eq_ok (h : c.IsOrderly w source)
    (hread : (Source.passages .start (Inclusion.becomes w.sources.provider none (source.splitOn '\n'))).2 = none) :
    ∃ r, (c.run w source).1 = .ok r ∧
      r.body = Text.unlines ((rewritten (w.passages source)).flatMap Passage.lines) := by
  have hbody := (map_body_run_eq_ok_iff h).mpr ⟨hread, rfl⟩
  generalize (c.run w source).1 = result at hbody ⊢
  cases result with
  | error e => cases hbody
  | ok r => exact ⟨r, rfl, Except.ok.inj hbody⟩

end Conversion

namespace RubyListing

/-- A `\verb*` span, and a code block with a hint. -/
def source : Text :=
  Text.unlines ["\\verb*|x|", "%= lang: ruby", "\\begin\x7bcode\x7d", "puts 1", "\\end\x7bcode\x7d"]

def markup : Text :=
  Text.unlines ["\\verb|x|", "\\begin\x7bVerbatim\x7d", "puts 1", "\\end\x7bVerbatim\x7d"]

def conversion : Conversion :=
  ⟨.markup, false, .numbered, false, .default, Highlight.plain, Document.ofXmlText, "s"⟩

def workspace : Workspace := ⟨⟨.empty, [], []⟩, .inMemory⟩

/-- What there is to look at in the manuscript and its markup. -/
theorem looked :
    conversion.LooksOrderly workspace source ∧ conversion.LooksOrderly workspace markup ∧
      (Source.passages .start (Inclusion.becomes workspace.sources.provider none (source.splitOn '\n'))).2 = none ∧
      Text.unlines ((Source.rewritten (workspace.passages source)).flatMap Source.Passage.lines) = markup ∧
      (∀ p ∈ workspace.passages source, p.isMarkup = true ∨ p = .code "\\begin\x7bcode\x7d" ["puts 1"]
        "\\end\x7bcode\x7d" ⟨"ruby", .default⟩ false ∨ p = .hint "%= lang: ruby") ∧
      (∀ q ∈ Source.rewritten (workspace.passages source), q.starsLost = 0) ∧
      ∀ line ∈ (Source.rewritten (workspace.passages source)).flatMap Source.Passage.lines,
        Inclusion.directive? line = none := by
  decide +kernel

/-- The star is lost once, and then nothing more. -/
theorem isSettled : Source.IsSettled (workspace.passages source) := by
  obtain ⟨-, -, -, -, hcode, hstars, hnone⟩ := looked
  refine ⟨fun first body last requested isInListing hmem => ?balanced, hstars, fun before line rest hlines _ => ?isFree⟩
  case balanced =>
    obtain hmarkup | hruby | hhint := hcode _ hmem
    · cases hmarkup
    · cases hruby
      exact (Source.closes_cons_of_ne (by decide) (by decide)).mpr (Source.closes_nil_iff.mpr rfl)
    · cases hhint
  case isFree => exact hnone line (hlines ▸ List.mem_append_right before List.mem_cons_self)

theorem isFixpoint : ∃ r, conversion.IsOrderly workspace source ∧ (conversion.run workspace source).1 = .ok r ∧
    conversion.IsOrderly workspace r.body ∧ r.body = markup ∧
    conversion.IsFixpoint workspace (workspace.passages source) r.body := by
  obtain ⟨hsource, hwritten, hread, hlines, -⟩ := looked
  have hsource : conversion.IsOrderly workspace source := hsource.isOrderly rfl rfl rfl
  obtain ⟨r, hrun, hbody⟩ := Conversion.exists_run_eq_ok hsource hread
  have hmarkup : r.body = markup := hbody.trans hlines
  have horderly : conversion.IsOrderly workspace r.body := hmarkup ▸ hwritten.isOrderly rfl rfl rfl
  obtain ⟨-, hiff⟩ := Conversion.isFixpoint_iff_isSettled hsource hrun horderly
  exact ⟨r, hsource, hrun, horderly, hmarkup, hiff.mpr isSettled⟩

end RubyListing

namespace EndInCode

open RubyListing (conversion workspace)

/-- The second line is code. -/
def source : Text :=
  Text.unlines ["\\begin\x7bcode\x7d", "\\end\x7bVerbatim\x7d", "\\end\x7bcode\x7d"]

/-- The second line ends the environment. -/
def markup : Text :=
  Text.unlines ["\\begin\x7bVerbatim\x7d", "\\end\x7bVerbatim\x7d", "\\end\x7bVerbatim\x7d"]

/-- What there is to look at in the manuscript and its markup. -/
theorem looked :
    conversion.LooksOrderly workspace source ∧ conversion.LooksOrderly workspace markup ∧
      (Source.passages .start (Inclusion.becomes workspace.sources.provider none (source.splitOn '\n'))).2 = none ∧
      Text.unlines ((Source.rewritten (workspace.passages source)).flatMap Source.Passage.lines) = markup ∧
      (Source.passages .start (Inclusion.becomes workspace.sources.provider none (markup.splitOn '\n'))).2 =
        some (.unbalanced "Verbatim" 3) := by
  decide +kernel

/-- The markup of this manuscript is not even read. -/
theorem not_markupIsFixpoint : ¬Conversion.MarkupIsFixpoint := by
  intro hall
  obtain ⟨hsource, hwritten, hread, hlines, hunbalanced⟩ := looked
  have hsource : conversion.IsOrderly workspace source := hsource.isOrderly rfl rfl rfl
  obtain ⟨r, hrun, hbody⟩ := Conversion.exists_run_eq_ok hsource hread
  have hmarkup : r.body = markup := hbody.trans hlines
  have hfixed := hall conversion conversion workspace workspace source r rfl hsource hrun
    (hmarkup ▸ hwritten.isOrderly rfl rfl rfl)
  have hagain := hfixed.run_eq
  rw [hmarkup, Conversion.run_eq_error_iff.mpr hunbalanced] at hagain
  cases hagain

end EndInCode

end Manuscript
