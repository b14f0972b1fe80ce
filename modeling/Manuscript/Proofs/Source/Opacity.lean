import Manuscript.Proofs.Source.Reading
import Manuscript.Proofs.Source.Requests
import Manuscript.Proofs.Source.RoundTrip
import Manuscript.Proofs.Text.Lines

/-!
The bodies of literal blocks are opaque.

Main statement: a literal block's body can be replaced by any other in which the markers of the block's own name are
balanced, and nothing changes but the one token that stands for it (`isOpaque_of_literal`).
-/

namespace Manuscript.Source

/-- The call that caches the body of a literal block. -/
def literalCall (body : List Text) : Call := .span .literal (Draft.plain (Text.unlines body))

/-- What comes of tokenizing a manuscript: the passages that it is read as, the lines that are written, and the
requests that are made. -/
structure Tokenizes (highlighter : Highlighter) (format : Format) (g : Gathered) (source : Text) (ps : List Passage)
    (lines : List Text) (asked : List Request) : Prop where
  passages_eq : passages .start (source.splitOn '\n') = (ps, none)
  result_eq : (tokenize highlighter format g source).1 = .ok (Text.unlines lines)
  requests_eq : requests highlighter format g.store ps = asked
  gathered_eq : (tokenize highlighter format g source).2 = asked.foldl Gathered.answer g

/-- A body that can stand in a literal block with the given first line. -/
structure Fits (first : Text) (body : List Text) : Prop where
  lineFeed_notMem : ∀ line ∈ body, '\n' ∉ line
  balanced : ∀ name, begin? first = some name → Balanced name body

/-- The literal block between some passages is opaque: whatever fits into it, the passages around it are read as they
were, the same lines are written above and below its token, and the same requests are made before and after the one that
caches its body. -/
def IsOpaque (highlighter : Highlighter) (format : Format) (g : Gathered) (before : List Passage) (first last : Text)
    (after : List Passage) : Prop :=
  ∃ above below earlier later, ∀ body, Fits first body →
    let ps := before ++ .literal first body last :: after
    Tokenizes highlighter format g (Text.unlines (ps.flatMap Passage.lines)) ps
      (above ++ [first, (literalCall body).token g.cache.salt, last] ++ below)
      (earlier ++ .cache (literalCall body) :: later)

variable {highlighter : Highlighter} {format : Format} {g : Gathered}

theorem tokenizes_of_passages {source : Text} {ps : List Passage}
    (h : passages .start (source.splitOn '\n') = (ps, none)) :
    Tokenizes highlighter format g source ps (passageTokens highlighter format g ps).1
      (requests highlighter format g.store ps) := by
  constructor
  case passages_eq => exact h
  case result_eq => rw [tokenize_eq, h]
  case requests_eq => rfl
  case gathered_eq => rw [tokenize_eq, h, gathered_passageTokens]

/-- Without a hint, `verbatim` and `Verbatim` are the environments whose bodies are kept as they are. -/
theorem eq_verbatim_of_literal {name : Text} {isHinted : Bool} (h : category? name isHinted = some .literal) :
    name = "verbatim" ∨ name = "Verbatim" := by
  unfold category? at h
  split at h
  · cases h
  · rename_i hcode
    split at h
    · rename_i hmem
      simp only [literalEnvironments, List.mem_cons, List.not_mem_nil, or_false] at hmem
      rcases hmem with rfl | rfl | rfl
      · exact Or.inl rfl
      · exact Or.inr rfl
      · exact absurd (Or.inl rfl) hcode
    · split at h <;> cases h

/-- What is read as a literal block is one with any other balanced body, too. -/
theorem literal_of_next {c c' : Context} {line first last : Text} {rest rest' body : List Text}
    (h : next c line rest = .ok (.literal first body last, c', rest')) :
    ∃ name : Text, (name = "verbatim" ∨ name = "Verbatim") ∧ begin? first = some name ∧ end? last = some name ∧
      Balanced name body ∧ c' = c.advance (body.length + 2) ∧ ∀ body' more, Balanced name body' →
        next c first (body' ++ last :: more) = .ok (.literal first body' last, c.advance (body'.length + 2), more) := by
  rcases block_of_next h (by simp [Passage.lines]) with
    ⟨name, last', category, body₁, hhint, hhtml, hopened, -, hbalanced, hend, hblock, rfl⟩
  cases category with
  | math => cases hblock
  | code =>
      simp only [readBlock] at hblock
      split at hblock <;> cases hblock
  | literal =>
      obtain ⟨rfl, rfl, rfl⟩ := by simpa [readBlock] using hblock
      obtain ⟨hbegin, -, hcategory⟩ := of_opened?_eq_some hopened
      refine ⟨name, eq_verbatim_of_literal hcategory, hbegin, hend, hbalanced, rfl, fun body' more hbody' => ?_⟩
      simp only [next, hhint, hhtml, hopened, body?_append hbody' hend more, readBlock, Except.map]

/-- The passages around a literal block are read as they are whatever fits into the block. -/
theorem passages_of_fits {lines : List Text} {before after : List Passage} {first last : Text} {body : List Text}
    (hread : (passages .start lines).2 = none)
    (hblock : (passages .start lines).1 = before ++ .literal first body last :: after) {body' : List Text}
    (hfits : Fits first body') :
    passages .start ((before ++ .literal first body' last :: after).flatMap Passage.lines) =
      (before ++ .literal first body' last :: after, none) := by
  rcases exists_next hblock with ⟨c, line, rest, c₁, rest₁, hbefore, hnext, hafter⟩
  rcases literal_of_next hnext with ⟨name, -, hbegin, -, -, rfl, hreplace⟩
  have hnone : (passages (c.advance (body.length + 2)) rest₁).2 = none := by rw [hafter, hread]
  have hlines : after.flatMap Passage.lines = rest₁ := by
    rw [← flatMap_lines_passages hnone, hafter]
  -- The contexts after the two bodies differ in the number of the line alone.
  have hafter' : passages (c.advance (body'.length + 2)) rest₁ = (after, none) := by
    rw [← hread, ← hafter]
    exact passages_relocate hnone (c.line + (body'.length + 2))
  have hnext' := hreplace body' rest₁ (hfits.balanced name hbegin)
  rw [List.flatMap_append, passages_append hbefore, List.flatMap_cons, hlines, Passage.lines, List.append_assoc,
    List.singleton_append, List.cons_append, passages_cons_ok hnext', hafter']

theorem lineFeed_notMem_of_fits {before after : List Passage} {first last : Text} {body body' : List Text}
    (h : ∀ p ∈ before ++ .literal first body last :: after, ∀ line ∈ p.lines, '\n' ∉ line)
    (hfits : Fits first body') :
    ∀ p ∈ before ++ .literal first body' last :: after, ∀ line ∈ p.lines, '\n' ∉ line := by
  intro p hp
  rcases List.mem_append.mp hp with hp | hp
  · exact h p (List.mem_append_left _ hp)
  · rcases List.mem_cons.mp hp with rfl | hp
    · have hblock := h (.literal first body last) (by simp)
      intro line hline
      simp only [Passage.lines, List.cons_append, List.mem_cons, List.mem_append, List.not_mem_nil, or_false] at hline
      rcases hline with rfl | hline | rfl
      · exact hblock line (by simp [Passage.lines])
      · exact hfits.lineFeed_notMem line hline
      · exact hblock line (by simp [Passage.lines])
    · exact h p (List.mem_append_right _ (List.mem_cons_of_mem _ hp))

/-- The requests after a literal block do not depend on its body, nor do the lines that are written. -/
theorem tokens_around_literal (before : List Passage) (first last : Text) (after : List Passage) :
    ∃ above below earlier later, ∀ body,
      (passageTokens highlighter format g (before ++ .literal first body last :: after)).1 =
          above ++ [first, (literalCall body).token g.cache.salt, last] ++ below ∧
        requests highlighter format g.store (before ++ .literal first body last :: after) =
          earlier ++ .cache (literalCall body) :: later := by
  refine ⟨(passageTokens highlighter format g before).1, (passageTokens highlighter format g after).1,
    requests highlighter format g.store before,
    requests highlighter format (storeAfter highlighter format g.store before) after, fun body => ⟨?_, ?_⟩⟩
  · have hliteral := Passage.tokens_eq highlighter format g (p := .literal first body last) rfl
    have hsalt : (Passage.tokens highlighter format g (.literal first body last)).2.cache.salt = g.cache.salt :=
      Passage.salt_tokens g _
    rw [passageTokens_append, List.append_assoc]
    simp only [passageTokens, passageTokens_of_salt hsalt after]
    rw [hliteral]
    simp [Passage.drafts, Passage.call?, Passage.labels, literalCall, Part.text]
  · rw [requests_append]
    simp only [requests, Passage.requests, Passage.calls, Passage.labels, Passage.call?, List.map_nil,
      Option.toList_some, List.nil_append, List.map_cons, List.foldl_cons, List.foldl_nil, Request.store,
      List.singleton_append, literalCall]

/-- Every literal block in a manuscript that can be read is opaque: it is a `verbatim` or `Verbatim` environment with a
balanced body, and every other balanced body, whatever it looks like, is tokenized in its place with the rest of the
manuscript as it was. -/
theorem isOpaque_of_literal {source scanned : Text} {before after : List Passage} {first last : Text}
    {body : List Text} (hscan : (tokenize highlighter format g source).1 = .ok scanned)
    (hblock : passagesOf source = before ++ .literal first body last :: after) :
    (∃ name : Text, (name = "verbatim" ∨ name = "Verbatim") ∧ begin? first = some name ∧ end? last = some name) ∧
      Fits first body ∧
      source = Text.unlines ((before ++ .literal first body last :: after).flatMap Passage.lines) ∧
      IsOpaque highlighter format g before first last after := by
  have hread : (passages .start (source.splitOn '\n')).2 = none := by
    rcases fst_tokenize highlighter format g source with ⟨hnone, -⟩ | ⟨e, -, herror⟩
    · exact hnone
    · rw [hscan] at herror
      cases herror
  have hlines : (before ++ .literal first body last :: after).flatMap Passage.lines = source.splitOn '\n' := by
    rw [← hblock]
    exact flatMap_lines_passages hread
  have hbreaks : ∀ p ∈ before ++ .literal first body last :: after, ∀ line ∈ p.lines, '\n' ∉ line := by
    intro p hp line hline
    apply Text.notMem_of_mem_splitOn (t := source)
    rw [← hlines]
    exact List.mem_flatMap.mpr ⟨p, hp, hline⟩
  have hliteral := hbreaks (.literal first body last) (by simp)
  rcases exists_next hblock with ⟨c, line, rest, c₁, rest₁, -, hnext, -⟩
  rcases literal_of_next hnext with ⟨name, hname, hbegin, hend, hbalanced, -⟩
  refine ⟨⟨name, hname, hbegin, hend⟩, ⟨fun line hline => ?_, fun name' hbegin' => ?_⟩, ?_, ?_⟩
  · exact hliteral line (by simp [Passage.lines, hline])
  · obtain rfl := Option.some.inj (hbegin.symm.trans hbegin')
    exact hbalanced
  · rw [hlines, Text.unlines_splitOn]
  · obtain ⟨above, below, earlier, later, haround⟩ :=
      @tokens_around_literal highlighter format g before first last after
    refine ⟨above, below, earlier, later, fun body' hfits => ?_⟩
    have hbreaks' := lineFeed_notMem_of_fits hbreaks hfits
    have hsplit : (Text.unlines ((before ++ .literal first body' last :: after).flatMap Passage.lines)).splitOn '\n' =
        (before ++ .literal first body' last :: after).flatMap Passage.lines := by
      refine Text.splitOn_unlines (fun line hline => ?_) (by simp [Passage.lines])
      obtain ⟨p, hp, hline⟩ := List.mem_flatMap.mp hline
      exact hbreaks' p hp line hline
    have hpassages := passages_of_fits hread hblock hfits
    obtain ⟨hwritten, hasked⟩ := haround body'
    rw [← hwritten, ← hasked]
    exact tokenizes_of_passages (hsplit.symm ▸ hpassages)

namespace Unruly

def before : List Passage := [.prose "Text"]

def first : Text := "\\begin\x7bverbatim\x7d"

def last : Text := "\\end\x7bverbatim\x7d"

def after : List Passage :=
  [.hint "%= lang: ruby",
    .code "\\begin\x7bcode\x7d" ["puts 1"] "\\end\x7bcode\x7d" ⟨"ruby", .default⟩ false]

def gathered : Gathered := ⟨Cache.empty "s", .inMemory⟩

def tame : List Text := ["tame"]

/-- A literal block before a code block. -/
def source (body : List Text) : Text :=
  Text.unlines ((before ++ .literal first body last :: after).flatMap Passage.lines)

/-- Markers, an annotation and mathematics that would each change how the rest is read. -/
def body : List Text :=
  ["\\end\x7bcode\x7d", "\\begin\x7bcodelisting\x7d", "\\begin\x7bverbatim\x7d", "$x", "\\end\x7bverbatim\x7d",
    "%= lang: python, options: \"linenos\": true"]

theorem fits : Fits first body := by
  have hfound : body? "verbatim" 0 (body ++ last :: []) = some (body, last, []) := by decide +kernel
  constructor
  · decide +kernel
  · intro name hname
    have hbegin : begin? first = some ("verbatim" : Text) := by decide +kernel
    obtain rfl := Option.some.inj (hbegin.symm.trans hname)
    exact (body?_eq_some_iff.mp hfound).2.1

/-- The unruly body is tokenized where a tame one was. -/
theorem tokenizes_unruly :
    ∃ lines asked, Tokenizes Highlight.plain .html gathered (source body)
      (before ++ .literal first body last :: after) lines asked := by
  have hread : (passages .start ((source tame).splitOn '\n')).2 = none := by decide +kernel
  have hblock : passagesOf (source tame) = before ++ .literal first tame last :: after := by decide +kernel
  have hscan : ∃ scanned, (tokenize Highlight.plain .html gathered (source tame)).1 = .ok scanned := by
    rcases fst_tokenize Highlight.plain .html gathered (source tame) with ⟨-, hok⟩ | ⟨e, he, -⟩
    · exact hok
    · rw [hread] at he
      cases he
  obtain ⟨scanned, hscan⟩ := hscan
  obtain ⟨-, -, -, above, below, earlier, later, hopaque⟩ := isOpaque_of_literal hscan hblock
  exact ⟨_, _, hopaque body fits⟩

end Unruly

end Manuscript.Source
