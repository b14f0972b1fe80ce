import Manuscript.Proofs.Files
import Manuscript.Proofs.Inclusion.Annotation
import Manuscript.Proofs.Source.Reading
import Manuscript.Proofs.Source.Requests
import Manuscript.Proofs.Source.RoundTrip

/-!
Included lines in the scan of the expanded manuscript.

Main statement: the lines that a directive includes are captured as one code block with the language and the options of
the directive if and only if no literal environment seems to be open before it, the language is made of language
characters, and the markers of `code` environments in the lines are balanced (`isCaptured_iff_balanced`).
-/

namespace Manuscript.Inclusion

open Source

theorem selectRange_subset (lines : List Text) (spec : Text) : selectRange lines spec ⊆ lines := by
  have hrange : ∀ first last, lineRange lines first last ⊆ lines := by
    intro first last
    exact List.Subset.trans (List.drop_subset _ _) (List.take_subset _ _)
  unfold selectRange
  split
  · split
    · split
      · exact List.nil_subset lines
      · exact hrange _ _
    · exact List.nil_subset lines
  · split
    · split
      · exact hrange _ _
      · exact List.reverse_subset.mpr (hrange _ _)
    · exact List.nil_subset lines

theorem partBody_subset (inner : Nat) (lines : List Text) : partBody inner lines ⊆ lines := by
  induction lines generalizing inner with
  | nil => exact List.nil_subset []
  | cons line lines ih =>
      unfold partBody
      split
      · exact List.cons_subset_cons line (ih _)
      · exact List.nil_subset _
      · exact List.cons_subset_cons line (ih _)
      · exact List.cons_subset_cons line (ih _)

theorem selectPart?_subset {lines selected : List Text} {name : Text} (h : selectPart? lines name = some selected) :
    selected ⊆ lines := by
  unfold selectPart? at h
  split at h
  · cases h
  · rename_i first rest hdrop
    obtain rfl := Option.some.inj h
    have hrest : first :: rest ⊆ lines := hdrop ▸ List.dropWhile_subset _
    exact List.Subset.trans (partBody_subset 0 rest) fun line hline => hrest (List.mem_cons_of_mem first hline)

/-- The lines of a text that a directive selects. -/
def Directive.select (d : Directive) (t : Text) : Except Failure (List Text) :=
  match d.subset with
  | .whole => .ok (Text.lines t)
  | .lines spec => .ok (selectLines (Text.lines t) spec)
  | .part name =>
    match selectPart? (Text.lines t) name with
    | some selected => .ok selected
    | none => .error (.missingPart name d.path)

theorem resolve_eq_bind (provider : Provider) (d : Directive) :
    resolve provider d = (match d.revision with
      | some revision => provider.readAt d.path revision
      | none => provider.read d.path) >>= d.select := by
  unfold resolve
  cases d.revision <;> rfl

theorem subset_lines_of_select {d : Directive} {t : Text} {lines : List Text} (h : d.select t = .ok lines) :
    lines ⊆ Text.lines t := by
  unfold Directive.select at h
  split at h
  case h_1 =>
    cases h
    exact List.Subset.refl _
  case h_2 spec =>
    cases h
    intro line hline
    obtain ⟨part, -, hpart⟩ := List.mem_flatMap.mp hline
    exact selectRange_subset _ part hpart
  case h_3 name =>
    split at h
    · rename_i hselected
      cases h
      exact selectPart?_subset hselected
    · cases h

/-- Included lines hold no line feeds. -/
theorem lineFeed_notMem_of_resolve {provider : Provider} {d : Directive} {lines : List Text}
    (h : resolve provider d = .ok lines) : ∀ line ∈ lines, '\n' ∉ line := by
  rw [resolve_eq_bind] at h
  obtain ⟨t, -, hselected⟩ := exists_of_bind_eq_ok h
  exact fun line hline => Text.lineFeed_notMem_of_mem_lines (subset_lines_of_select hselected hline)

/-- The literal environment that is open after some lines. -/
def openAfter : OpenLiteral → List Text → OpenLiteral
  | o, [] => o
  | some (name, inner), line :: rest => openAfter (afterLiteralLine name inner line) rest
  | none, line :: rest =>
    openAfter (((begin? line).filter (· ∈ literalEnvironments)).map fun name => (name, 0)) rest

theorem expandLines_append (provider : Provider) (o : OpenLiteral) (number : Nat) (before rest : List Text) :
    (expandLines provider o number (before ++ rest)).1 = (expandLines provider o number before).1 ++
      (expandLines provider (openAfter o before) (number + before.length) rest).1 := by
  induction before generalizing o number with
  | nil => simp [expandLines, openAfter]
  | cons line before ih =>
      have hnumber : number + 1 + before.length = number + (line :: before).length := by
        rw [List.length_cons]
        omega
      rcases o with _ | ⟨name, inner⟩
      · simp only [List.cons_append, expandLines, openAfter]
        cases hliteral : (begin? line).filter (· ∈ literalEnvironments) with
        | some name => simp only [ih, hnumber, Option.map_some, List.cons_append]
        | none => simp only [ih, hnumber, Option.map_none, List.append_assoc]
      · simp only [List.cons_append, expandLines, openAfter, ih, hnumber]

/-- The first and the last line of included code. -/
def blockMarkers : Text × Text := ("\\begin\x7bcode\x7d", "\\end\x7bcode\x7d")

theorem codeBlock_append (d : Directive) (lines after : List Text) :
    codeBlock d lines ++ after = hintLine d :: blockMarkers.1 :: (lines ++ blockMarkers.2 :: after) := by
  rw [codeBlock, List.append_assoc]
  rfl

theorem expandLines_ne_nil (provider : Provider) (o : OpenLiteral) (number : Nat) {lines : List Text} (h : lines ≠ []) :
    (expandLines provider o number lines).1 ≠ [] := by
  cases lines with
  | nil => exact absurd rfl h
  | cons line rest =>
      rcases o with _ | ⟨name, inner⟩
      · simp only [expandLines]
        split
        · exact List.cons_ne_nil _ _
        · refine List.append_ne_nil_of_left_ne_nil ?_ _
          unfold expandLine
          split
          · exact List.cons_ne_nil _ _
          · split
            · rw [← List.append_nil (codeBlock _ _), codeBlock_append]
              exact List.cons_ne_nil _ _
            · exact List.cons_ne_nil _ _
      · exact List.cons_ne_nil _ _

/-- A directive outside of literal environments is replaced by the code block of its lines. -/
theorem expandLines_directive {provider : Provider} {number : Nat} {line : Text} {d : Directive} {lines : List Text}
    (hdirective : directive? line = some (.ok d)) (hresolve : resolve provider d = .ok lines) (rest : List Text) :
    (expandLines provider none number (line :: rest)).1 =
      codeBlock d lines ++ (expandLines provider none (number + 1) rest).1 := by
  obtain ⟨hbegin, -⟩ := begin?_eq_none_of_annotation (startsWith_of_directive? hdirective).1
  simp only [expandLines, hbegin, Option.filter_none, expandLine, hdirective, Except.bind, hresolve, Except.map]

/-- After what becomes of the lines `pre`, which are read as the passages `before`, the scan is outside of environments
with opaque bodies. -/
structure IsOutside (provider : Provider) (pre : List Text) (before : List Passage) (c : Context) : Prop where
  readOff : ReadOff .start before c
  lines_eq : before.flatMap Passage.lines = (expandLines provider none 1 pre).1.flatMap (List.splitOn '\n')

/-- The passages that included lines should be read as. -/
def intended (d : Directive) (lines : List Text) (o : Highlight.Options) (c : Context) : List Passage :=
  [.hint (hintLine d), .code blockMarkers.1 lines blockMarkers.2 ⟨d.tag, o⟩ (0 < c.listings)]

/-- The call that caches included lines, once they are rendered. -/
def intendedCall (format : Format) (d : Directive) (lines : List Text) (o : Highlight.Options) (c : Context)
    (rendered : Text) : Call :=
  .code (Text.unlines lines) (Draft.plain rendered) ⟨d.tag, format, 0 < c.listings, o⟩

/-- The lines that are written for a code block with a token. -/
def blockLines (format : Format) (token : Text) : List Text :=
  match format with
  | .markup => [token]
  | .html => [blockMarkers.1, token, blockMarkers.2]

/-- The lines that a directive includes are captured as one code block. -/
structure IsCaptured (highlighter : Highlighter) (format : Format) (g : Gathered) (expanded : Text)
    (before : List Passage) (c : Context) (d : Directive) (lines : List Text) (o : Highlight.Options)
    (after : List Text) : Prop where
  /-- They are one passage with their annotation, and what follows is read as after any block of that length. -/
  passages_eq : passages .start (expanded.splitOn '\n') =
    (before ++ (intended d lines o c ++ (passages (c.advance (lines.length + 3)) after).1),
      (passages (c.advance (lines.length + 3)) after).2)
  /-- The highlighter, or the store, is asked for the lines as code of the language with the options. -/
  asked :
    let s := storeAfter highlighter format g.store before
    ∃ later, requests highlighter format g.store (passagesOf expanded) = requests highlighter format g.store before ++
      (codeRequests highlighter format s (Text.unlines lines) ⟨d.tag, o⟩ ++
        .cache (intendedCall format d lines o c
          (renderCode highlighter format s (Text.unlines lines) ⟨d.tag, o⟩).1) :: later)
  /-- Nothing is written for them but the token, in HTML between the markers of an environment. -/
  written : (passageTokens highlighter format g (passagesOf expanded)).1 =
    (passageTokens highlighter format g before).1 ++
      (blockLines format ((intendedCall format d lines o c []).token g.cache.salt) ++
        (passageTokens highlighter format g (passages (c.advance (lines.length + 3)) after).1).1)

theorem parse?_trim (t : Text) : Highlight.Options.parse? (Text.trim t) = Highlight.Options.parse? t := by
  simp only [Highlight.Options.parse?, Text.trim_trim]

/-- The markers around included code are those of a `code` environment. -/
theorem opened?_blockMarkers (c : Context) :
    hint? blockMarkers.1 = none ∧ rawHtml? blockMarkers.1 = none ∧
      opened? c blockMarkers.1 = some (("code" : Text), Category.code) ∧ end? blockMarkers.2 = some ("code" : Text) := by
  have hstart : Text.startsWith "%=" (Text.trimStart blockMarkers.1) = false := by decide
  have hbegin : begin? blockMarkers.1 = some ("code" : Text) := by decide
  have hopened : opened? c blockMarkers.1 = some (("code" : Text), Category.code) := by
    simp [opened?, hbegin, category?]
  exact ⟨hint?_eq_none hstart, rawHtml?_eq_none hstart, hopened, by decide⟩

theorem tag_ne_nil {line : Text} {d : Directive} (h : directive? line = some (.ok d)) : d.tag ≠ [] := by
  unfold Directive.tag
  cases hd : d.language with
  | some l => exact ((of_directive? h).1 l hd).1
  | none => exact (languageOfPath_ne_nil d.path).1

theorem requests_intended (highlighter : Highlighter) (format : Format) (s : Highlight.Store) (d : Directive)
    (lines : List Text) (o : Highlight.Options) (c : Context) :
    requests highlighter format s (intended d lines o c) =
      codeRequests highlighter format s (Text.unlines lines) ⟨d.tag, o⟩ ++
        [.cache (intendedCall format d lines o c
          (renderCode highlighter format s (Text.unlines lines) ⟨d.tag, o⟩).1)] := by
  simp only [intended, requests, Passage.requests, Passage.calls, Passage.labels, Passage.call?, List.map_nil,
    Option.toList_none, List.append_nil, List.nil_append, List.foldl_nil]
  rfl

theorem tokens_intended (highlighter : Highlighter) (format : Format) (g : Gathered) (d : Directive)
    (lines : List Text) (o : Highlight.Options) (c : Context) :
    (passageTokens highlighter format g (intended d lines o c)).1 =
      blockLines format ((intendedCall format d lines o c []).token g.cache.salt) := by
  simp only [intended, passageTokens, Passage.tokens, codeTokens, List.nil_append, List.append_nil]
  cases format <;> rfl

section Block

variable {c : Context} {d : Directive} {lines after : List Text} {o : Highlight.Options}

/-- The annotation is read as a hint with the language and the options of the directive. -/
theorem next_hintLine (hne : d.tag ≠ []) (hall : d.tag.all isLanguageCharacter = true)
    (hoptions : Highlight.Options.parse? (d.options.getD []) = some o) (c : Context) (rest : List Text) :
    next c (hintLine d) rest =
      .ok (.hint (hintLine d), { c.advance 1 with hint := some ⟨d.tag, o⟩ }, rest) := by
  simp only [next, hint?_hintLine hne hall, readHint, parse?_trim, hoptions, Except.map]

/-- After a hint the block is read as code up to its own end marker. -/
theorem next_block {hint : Hint} (hhint : c.hint = some hint) (hbalanced : Balanced "code" lines)
    (hrange : hint.options.outOfRange? (Text.lines (Text.unlines lines)).length = none) (after : List Text) :
    next c blockMarkers.1 (lines ++ blockMarkers.2 :: after) =
      .ok (.code blockMarkers.1 lines blockMarkers.2 hint (0 < c.listings), c.advance (lines.length + 2), after) := by
  obtain ⟨hnone, hhtml, hopened, hend⟩ := opened?_blockMarkers c
  have hbody := body?_append hbalanced hend after
  simp only [next, hnone, hhtml, hopened, hbody, readBlock, hhint, Option.getD_some, hrange, Except.map]

/-- Included lines are read as intended if the language is made of language characters and the lines are balanced. -/
theorem passages_codeBlock (hne : d.tag ≠ []) (hall : d.tag.all isLanguageCharacter = true)
    (hbalanced : Balanced "code" lines) (hoptions : Highlight.Options.parse? (d.options.getD []) = some o)
    (hrange : o.outOfRange? (Text.lines (Text.unlines lines)).length = none) :
    passages c (codeBlock d lines ++ after) =
      (intended d lines o c ++ (passages (c.advance (lines.length + 3)) after).1,
        (passages (c.advance (lines.length + 3)) after).2) := by
  have hfirst := next_hintLine hne hall hoptions c (blockMarkers.1 :: (lines ++ blockMarkers.2 :: after))
  have hsecond := next_block (c := { c.advance 1 with hint := some ⟨d.tag, o⟩ }) rfl hbalanced hrange after
  have hcontext : Context.advance { c.advance 1 with hint := some ⟨d.tag, o⟩ } (lines.length + 2) =
      c.advance (lines.length + 3) := by
    simp only [Context.advance, Context.mk.injEq, and_self, and_true]
    omega
  rw [hcontext] at hsecond
  rw [codeBlock_append, passages_cons_ok hfirst, passages_cons_ok hsecond]
  rfl

/-- Included lines are read as intended only if the language is made of language characters and the lines are
balanced. -/
theorem of_passages_codeBlock {more : List Passage}
    (h : (passages c (codeBlock d lines ++ after)).1 = intended d lines o c ++ more) :
    d.tag.all isLanguageCharacter = true ∧ Balanced "code" lines := by
  rw [codeBlock_append, intended, List.cons_append, List.singleton_append] at h
  obtain ⟨c₁, rest₁, hfirst, hrest₁⟩ := next_of_passages_eq_cons h
  obtain ⟨language, options, o', hhint, -, rfl, rfl⟩ := of_next_hint hfirst
  obtain ⟨c₂, rest₂, hsecond, -⟩ := next_of_passages_eq_cons (congrArg Prod.fst hrest₁)
  obtain ⟨name, hbegin, hbalanced, hlanguage⟩ := of_next_code hsecond
  have hcode : begin? blockMarkers.1 = some ("code" : Text) := by decide
  obtain rfl := Option.some.inj (hbegin.symm.trans hcode)
  obtain ⟨rfl, rfl⟩ := by simpa using hlanguage
  exact ⟨all_of_hint? hhint, hbalanced⟩

end Block

section Directive

variable {highlighter : Highlighter} {format : Format} {g : Gathered} {provider : Provider} {source : Text}
  {pre post : List Text} {line : Text} {before : List Passage} {c : Context} {d : Directive} {lines : List Text}
  {o : Highlight.Options}

/-- The lines of an expanded manuscript go on after those that its start has become. -/
theorem splitOn_expand (hsource : source.splitOn '\n' = pre ++ line :: post) (houtside : IsOutside provider pre before c) :
    (expand provider source).1.splitOn '\n' = before.flatMap Passage.lines ++
      (expandLines provider (openAfter none pre) (pre.length + 1) (line :: post)).1.flatMap (List.splitOn '\n') := by
  have hexpanded : (expandLines provider none 1 (source.splitOn '\n')).1 = (expandLines provider none 1 pre).1 ++
      (expandLines provider (openAfter none pre) (pre.length + 1) (line :: post)).1 := by
    rw [hsource, expandLines_append, Nat.add_comm 1]
  have hne := expandLines_ne_nil provider none 1 (List.splitOn_ne_nil '\n' source)
  rw [expand]
  simp only
  rw [Text.splitOn_unlines_eq_flatMap hne, hexpanded, List.flatMap_append, houtside.lines_eq]

theorem lineFeed_notMem_codeBlock (hdirective : directive? line = some (.ok d))
    (hresolve : resolve provider d = .ok lines) : ∀ l ∈ codeBlock d lines, '\n' ∉ l := by
  intro l hl
  rw [← List.append_nil (codeBlock d lines), codeBlock_append] at hl
  rcases List.mem_cons.mp hl with rfl | hl
  · exact lineFeed_notMem_hintLine hdirective
  · rcases List.mem_cons.mp hl with rfl | hl
    · decide
    · rcases List.mem_append.mp hl with hl | hl
      · exact lineFeed_notMem_of_resolve hresolve l hl
      · obtain rfl := List.mem_singleton.mp hl
        decide

/-- The lines that stand for a directive, if no literal environment seems to be open. -/
theorem flatMap_splitOn_expandLines (hdirective : directive? line = some (.ok d))
    (hresolve : resolve provider d = .ok lines) (number : Nat) (post : List Text) :
    (expandLines provider none number (line :: post)).1.flatMap (List.splitOn '\n') =
      codeBlock d lines ++ (expandLines provider none (number + 1) post).1.flatMap (List.splitOn '\n') := by
  rw [expandLines_directive hdirective hresolve, List.flatMap_append,
    Text.flatMap_splitOn_eq_self (lineFeed_notMem_codeBlock hdirective hresolve)]

/-- Included lines are captured only if the inclusions see no literal environment open before the directive, its language
is made of language characters, and the lines are balanced. -/
theorem of_isCaptured (hsource : source.splitOn '\n' = pre ++ line :: post) (houtside : IsOutside provider pre before c)
    (hdirective : directive? line = some (.ok d)) (hresolve : resolve provider d = .ok lines) {after : List Text}
    (hcaptured : IsCaptured highlighter format g (expand provider source).1 before c d lines o after) :
    openAfter none pre = none ∧ d.tag.all isLanguageCharacter = true ∧ Balanced "code" lines := by
  have hpassages := congrArg Prod.fst hcaptured.passages_eq
  rw [splitOn_expand hsource houtside, passages_append houtside.readOff] at hpassages
  have hread := List.append_cancel_left hpassages
  cases hopen : openAfter none pre with
  | none =>
      rw [hopen, flatMap_splitOn_expandLines hdirective hresolve] at hread
      exact ⟨rfl, of_passages_codeBlock hread⟩
  | some inside =>
      -- The directive is left alone, and is read as prose.
      obtain ⟨name, inner⟩ := inside
      have hline : line.splitOn '\n' = [line] :=
        List.splitOn_eq_singleton (Text.notMem_of_mem_splitOn (t := source) (by simp [hsource]))
      rw [hopen, expandLines, List.flatMap_cons, hline, List.singleton_append, intended, List.cons_append] at hread
      obtain ⟨c', rest', hnext, -⟩ := next_of_passages_eq_cons hread
      obtain ⟨language, options, o', hhint, -⟩ := of_next_hint hnext
      rw [(startsWith_of_directive? hdirective).2] at hhint
      cases hhint

/-- The lines that a directive outside of environments includes are captured as one code block with the language and the
options of the directive if and only if the inclusions see no literal environment open before the directive, the
language, where one is named, is made of language characters, and the markers of `code` environments in the lines are
balanced. -/
theorem isCaptured_iff_balanced (hsource : source.splitOn '\n' = pre ++ line :: post)
    (houtside : IsOutside provider pre before c) (hdirective : directive? line = some (.ok d))
    (hresolve : resolve provider d = .ok lines) (hoptions : Highlight.Options.parse? (d.options.getD []) = some o)
    (hrange : o.outOfRange? (Text.lines (Text.unlines lines)).length = none) :
    IsCaptured highlighter format g (expand provider source).1 before c d lines o
        ((expandLines provider none (pre.length + 2) post).1.flatMap (List.splitOn '\n')) ↔
      openAfter none pre = none ∧ (∀ l, d.language = some l → l.all isLanguageCharacter = true) ∧
        Balanced "code" lines := by
  have htag : (∀ l, d.language = some l → l.all isLanguageCharacter = true) ↔
      d.tag.all isLanguageCharacter = true := by
    unfold Directive.tag
    cases d.language with
    | some l => simp
    | none => simpa using (languageOfPath_ne_nil d.path).2
  rw [htag]
  constructor
  · exact of_isCaptured hsource houtside hdirective hresolve
  · rintro ⟨hopen, hall, hbalanced⟩
    have hpassages := passages_append houtside.readOff
      ((expandLines provider (openAfter none pre) (pre.length + 1) (line :: post)).1.flatMap (List.splitOn '\n'))
    rw [← splitOn_expand hsource houtside, hopen, flatMap_splitOn_expandLines hdirective hresolve,
      passages_codeBlock (tag_ne_nil hdirective) hall hbalanced hoptions hrange] at hpassages
    have hof := congrArg Prod.fst hpassages
    rw [← passagesOf] at hof
    constructor
    case passages_eq => exact hpassages
    case asked =>
      rw [hof, requests_append, requests_append, requests_intended, List.append_assoc]
      exact ⟨_, rfl⟩
    case written => rw [hof, passageTokens_append, passageTokens_append, tokens_intended]

end Directive

/-- Where the scan of what a part of a manuscript becomes ends without an error, the next line is outside of
environments. -/
theorem exists_isOutside {provider : Provider} {pre : List Text} {before : List Passage}
    (hread : passages .start ((expandLines provider none 1 pre).1.flatMap (List.splitOn '\n')) = (before, none)) :
    ∃ c, IsOutside provider pre before c := by
  have hbefore : (passages .start ((expandLines provider none 1 pre).1.flatMap (List.splitOn '\n'))).1 = before ++ [] := by
    rw [hread, List.append_nil]
  rcases exists_readOff hbefore with ⟨c, rest, hps, -, -⟩
  refine ⟨c, hps, ?_⟩
  have hlines := flatMap_lines_passages (congrArg Prod.snd hread)
  rwa [hread] at hlines

namespace TwoInclusions

/-- A file, and a file with the markers of two environments. -/
def files : List (Place × Bytes) :=
  [(["a.rb"], Utf8.encode "puts 1\n"), (["b.tex"], Utf8.encode "a\n\\end\x7bcode\x7d\nb\n\\begin\x7bcode\x7d\nc\n")]

def provider : Provider := Sources.provider ⟨⟨files, [], []⟩, [], []⟩

/-- A directive with a blank in the name of the language. -/
def first : Directive := ⟨"a.rb", .whole, some "C sharp", none, none⟩

def firstLine : Text := "%= <<(a.rb, lang: C sharp)"

def second : Directive := ⟨"b.tex", .whole, none, none, none⟩

def secondLine : Text := "%= <<(b.tex)"

def secondLines : List Text := ["a", "\\end\x7bcode\x7d", "b", "\\begin\x7bcode\x7d", "c"]

def source : Text := Text.unlines [firstLine, secondLine]

/-- The first directive leaves its annotation as prose, and a block without a hint. -/
def before : List Passage :=
  [.prose "%= lang:C sharp", .code blockMarkers.1 ["puts 1"] blockMarkers.2 .default false]

def gathered : Gathered := ⟨Cache.empty "s", .inMemory⟩

/-- Neither of the two files is captured: the language of the first is written but cannot be read back, and the lines of
the second end the block. -/
theorem not_isCaptured :
    (source.splitOn '\n' = [] ++ firstLine :: [secondLine] ∧ directive? firstLine = some (.ok first) ∧
      resolve provider first = .ok ["puts 1"] ∧ IsOutside provider [] [] .start ∧
      ¬IsCaptured Highlight.plain .markup gathered (expand provider source).1 [] .start first ["puts 1"] .default
        ((expandLines provider none 2 [secondLine]).1.flatMap (List.splitOn '\n'))) ∧
    (source.splitOn '\n' = [firstLine] ++ secondLine :: [] ∧ directive? secondLine = some (.ok second) ∧
      resolve provider second = .ok secondLines ∧ ∃ c, IsOutside provider [firstLine] before c ∧
      ¬IsCaptured Highlight.plain .markup gathered (expand provider source).1 before c second secondLines .default
        ((expandLines provider none 3 []).1.flatMap (List.splitOn '\n'))) := by
  have hsource : source.splitOn '\n' = [] ++ firstLine :: [secondLine] := by decide +kernel
  have hsource' : source.splitOn '\n' = [firstLine] ++ secondLine :: [] := by decide +kernel
  have hfirst : directive? firstLine = some (.ok first) := by decide +kernel
  have hsecond : directive? secondLine = some (.ok second) := by decide +kernel
  have hlines : resolve provider first = .ok ["puts 1"] := by decide +kernel
  have hlines' : resolve provider second = .ok secondLines := by decide +kernel
  have houtside : IsOutside provider [] [] .start := ⟨.nil _, rfl⟩
  have hread : passages .start ((expandLines provider none 1 [firstLine]).1.flatMap (List.splitOn '\n')) = (before, none) := by
    decide +kernel
  refine ⟨⟨hsource, hfirst, hlines, houtside, fun hcaptured => ?_⟩, ⟨hsource', hsecond, hlines', ?_⟩⟩
  · have hall := (of_isCaptured hsource houtside hfirst hlines hcaptured).2.1
    exact absurd hall (by decide +kernel)
  · obtain ⟨c, hc⟩ := exists_isOutside hread
    refine ⟨c, hc, fun hcaptured => ?_⟩
    have hbalanced := (of_isCaptured hsource' hc hsecond hlines' hcaptured).2.2
    have hsane := hbalanced.sane ["a", "\\end\x7bcode\x7d"] (by decide +kernel)
    exact absurd hsane (by decide +kernel)

end TwoInclusions

namespace MarkedLine

def provider : Provider := Sources.provider ⟨⟨[(["a.rb"], Utf8.encode "puts 1\nputs 2\n")], [], []⟩, [], []⟩

def directive : Directive := ⟨"a.rb", .whole, some "c++", some "\"hl_lines\": [2]", none⟩

def line : Text := "%= <<(a.rb, lang: c++, options: \"hl_lines\": [2])"

def source : Text := Text.unlines ["Text", line, "More"]

def lines : List Text := ["puts 1", "puts 2"]

/-- Lines with a language of letters and signs and with options. -/
theorem isCaptured : ∃ c, IsOutside provider ["Text"] [.prose "Text"] c ∧
    IsCaptured Highlight.plain .html TwoInclusions.gathered (expand provider source).1 [.prose "Text"] c directive
      lines ⟨[2], false⟩ ((expandLines provider none 3 ["More"]).1.flatMap (List.splitOn '\n')) := by
  have hread : passages .start ((expandLines provider none 1 ["Text"]).1.flatMap (List.splitOn '\n')) =
      ([.prose "Text"], none) := by
    decide +kernel
  have hfound : Source.body? "code" 0 (lines ++ blockMarkers.2 :: []) =
      some (lines, blockMarkers.2, []) := by
    decide +kernel
  have hbalanced : Balanced "code" lines := (body?_eq_some_iff.mp hfound).2.1
  have hlanguage : ∀ l, directive.language = some l → l.all isLanguageCharacter = true := by
    rintro l hl
    obtain rfl := Option.some.inj hl
    decide +kernel
  have hsource : source.splitOn '\n' = (["Text"] : List Text) ++ line :: ["More"] := by decide +kernel
  have hdirective : directive? line = some (.ok directive) := by decide +kernel
  have hresolve : resolve provider directive = .ok lines := by decide +kernel
  have hoptions : Highlight.Options.parse? (directive.options.getD []) = some ⟨[2], false⟩ := by decide +kernel
  obtain ⟨c, hc⟩ := exists_isOutside hread
  exact ⟨c, hc, (isCaptured_iff_balanced hsource hc hdirective hresolve hoptions (by decide +kernel)).mpr
    ⟨by decide +kernel, hlanguage, hbalanced⟩⟩

end MarkedLine

end Manuscript.Inclusion
