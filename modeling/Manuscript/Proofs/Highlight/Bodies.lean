import Manuscript.Proofs.Highlight.Faithful
import Manuscript.Proofs.Highlight.Rows
import Manuscript.Proofs.Source.Rewritten

/-!
The lines of code blocks, from the manuscript to the block that is rendered.

Main statement: a block keeps its lines in both formats just if it has lines and the last one is not empty
(`keepsLines_iff`).
-/

namespace Manuscript

namespace Text

/-- Lines that are joined and split again, an empty one at the end being lost. -/
theorem lines_unlines {lines : List Text} (hfeed : ∀ line ∈ lines, '\n' ∉ line)
    (hreturn : ∀ line ∈ lines, '\r' ∉ line) :
    Text.lines (unlines lines) = if lines.getLast? = some [] then lines.dropLast else lines := by
  obtain rfl | ⟨init, last, rfl⟩ := List.eq_nil_or_concat' lines
  · rfl
  · have hinit : init.map dropReturn = init := by
      refine (List.map_congr_left fun line hline => ?_).trans (List.map_id init)
      refine Html.dropReturn_eq_self fun hlast => ?_
      exact hreturn line (List.mem_append_left _ hline) (List.mem_of_getLast? hlast)
    rw [Text.lines, splitOn_unlines hfeed (by simp)]
    simp only [List.dropLast_concat, hinit, List.getLast?_concat, Option.some_inj]
    by_cases hlast : last = []
    · rw [hlast, if_pos rfl]
      exact List.append_nil init
    · rw [if_neg hlast, Option.filter_some_pos (by simpa using hlast)]
      rfl

end Text

namespace Source

open Highlight (Block Options Store markupOpening markupClosing plain readBlock?)

/-- The lines of a passage are lines of the manuscript. -/
theorem mem_of_mem_passages {c : Context} {lines : List Text} {p : Passage} (hp : p ∈ (passages c lines).1) :
    ∀ line ∈ p.lines, line ∈ lines := by
  induction c, lines using passages_induction with
  | nil c => simp [passages] at hp
  | error c line rest e hnext => simp [passages_cons_error hnext] at hp
  | ok c line rest q c' rest' hnext ih =>
      rw [passages_cons_ok hnext] at hp
      rw [eq_append_of_next hnext]
      intro other hother
      rcases List.mem_cons.mp hp with rfl | hlater
      · exact List.mem_append_left _ hother
      · exact List.mem_append_right _ (ih hlater other hother)

/-- The lines of code that a rendered block shows: in markup those between its first and its last line, in HTML what its
rows read as. -/
def shownLines? (format : Format) (rendered : Text) : Option (List Text) :=
  match format with
  | .markup =>
    let lines := rendered.splitOn '\n'
    if lines.head?.any (Text.startsWith "\\begin\x7bVerbatim\x7d") && lines.getLast? = some markupClosing then
      some lines.tail.dropLast
    else none
  | .html => (readBlock? rendered).map fun rows => rows.map fun row => Html.resolve false row.line

/-- The lines of code that HTML has: an empty one at the end is lost. -/
def htmlLines (body : List Text) : List Text := if body.getLast? = some [] then body.dropLast else body

/-- Both formats of a block have the lines of its body. -/
def KeepsLines (body : List Text) (rendered : Format → Text) : Prop :=
  ∀ format, shownLines? format (rendered format) = some body

theorem splitOn_markupBlock {body : List Text} (hbody : ∀ line ∈ body, '\n' ∉ line) (o : Options) :
    (Highlight.markupBlock (Text.unlines body) o).splitOn '\n' =
      markupOpening o :: writtenCode body ++ [markupClosing] := by
  have hwritten : ∀ line ∈ writtenCode body, '\n' ∉ line := by
    intro line hline
    obtain rfl | hline := mem_of_mem_writtenCode hline
    · exact List.not_mem_nil
    · exact hbody line hline
  have hclosing : '\n' ∉ markupClosing := by decide
  have hlines := forall_mem_block.mpr ⟨lineFeed_notMem_markupOpening o, hwritten, hclosing⟩
  have hsplit := congrArg (List.splitOn '\n') (ended_markupBlock hbody o)
  rw [Text.ended, List.flatMap_singleton, List.splitOn_append_cons_self, Text.ended,
    Text.splitOn_flatMap hlines] at hsplit
  exact List.append_cancel_right hsplit

/-- Markup shows the lines that are written in it. -/
theorem shownLines?_markup {body : List Text} (hbody : ∀ line ∈ body, '\n' ∉ line) (language : Text) (o : Options) :
    shownLines? .markup (plain (Text.unlines body) language .markup o) = some (writtenCode body) := by
  have hopening : Text.startsWith "\\begin\x7bVerbatim\x7d" (markupOpening o) = true := by
    obtain ⟨bracketed, hbracketed⟩ : ∃ bracketed, markupOpening o = "\\begin\x7bVerbatim\x7d" ++ bracketed := ⟨_, rfl⟩
    rw [hbracketed, Text.startsWith, Text.after?_append, Option.isSome_some]
  have hlast : (markupOpening o :: (writtenCode body ++ [markupClosing])).getLast? = some markupClosing :=
    List.getLast?_concat (l := markupOpening o :: writtenCode body)
  have hshown : (plain (Text.unlines body) language .markup o).splitOn '\n' =
      markupOpening o :: writtenCode body ++ [markupClosing] := splitOn_markupBlock hbody o
  rw [shownLines?, hshown]
  simp only [hlast, List.cons_append, List.head?_cons, Option.any_some, hopening, decide_true, Bool.and_self, if_true,
    List.tail_cons, List.dropLast_concat]

/-- HTML shows the lines that the code is cut into. -/
theorem shownLines?_html {body : List Text} (hbody : ∀ line ∈ body, '\n' ∉ line) (hreturn : ∀ line ∈ body, '\r' ∉ line)
    (language : Text) (o : Options) :
    shownLines? .html (plain (Text.unlines body) language .html o) = some (htmlLines body) := by
  have hbare : ∀ line ∈ (Text.lines (Text.unlines body)).map Html.escapeText, Highlight.IsBare line := by
    intro line hline
    obtain ⟨raw, hraw, rfl⟩ := List.mem_map.mp hline
    exact Highlight.isBare_escapeText (Text.lineFeed_notMem_of_mem_lines hraw)
  have hread : ∀ lines : List Text, ((lines.map Html.escapeText).map (Html.resolve false)) = lines := by
    intro lines
    rw [List.map_map]
    exact (List.map_congr_left fun line _ => Html.resolve_escapeText line).trans (List.map_id lines)
  have hrows : ∀ rows : List Highlight.Row,
      rows.map (fun row => Html.resolve false row.line) = (rows.map Highlight.Row.line).map (Html.resolve false) :=
    fun rows => List.map_map.symm
  rw [plain, shownLines?, Highlight.readBlock?_htmlBlock hbare, Option.map_some, hrows, Highlight.map_line_placedRows,
    hread, Text.lines_unlines hbody hreturn, htmlLines]

/-- A line is left out of the markup just if an empty one is the last of several lines. -/
theorem writtenCode_eq_self_iff {body : List Text} (hbody : ∀ line ∈ body, '\n' ∉ line) :
    writtenCode body = body ↔ body ≠ [] ∧ (body.getLast? = some [] → body = [[]]) := by
  unfold writtenCode
  split
  · rename_i hends
    obtain ⟨init, hne, rfl, -⟩ := exists_of_endsWith hbody hends
    rw [List.dropLast_concat, written, if_neg hne, List.getLast?_concat]
    simp [hne]
  · rename_i hends
    have hlast : body.getLast? = some [] → body = [[]] := by
      intro hlast
      obtain ⟨init, rfl⟩ := List.getLast?_eq_some_iff.mp hlast
      obtain rfl | ⟨more, line, rfl⟩ := List.eq_nil_or_concat' init
      · rfl
      · rw [Text.unlines_concat, List.append_nil, Text.ended_append] at hends
        exact absurd (by simp [Text.endsWith, Text.before?, Text.ended, Text.after?]) hends
    rw [and_iff_left hlast, written]
    split
    · rename_i hempty
      simp [hempty]
    · rename_i hne
      exact iff_of_true rfl hne

theorem htmlLines_eq_self_iff (body : List Text) : htmlLines body = body ↔ body.getLast? ≠ some [] := by
  unfold htmlLines
  split
  · rename_i hlast
    obtain ⟨init, rfl⟩ := List.getLast?_eq_some_iff.mp hlast
    simp
  · rename_i hlast
    exact iff_of_true rfl hlast

/-- With a store that holds nothing else than what the highlighter makes of the blocks of a manuscript, both formats of
a code block have the lines of its body just if it has lines and the last one is not empty.  Otherwise an empty line at
the end is missing, and markup has an empty line where there is none. -/
theorem keepsLines_iff {source first last : Text} {body : List Text} {hint : Hint} {isInListing : Bool}
    (hblock : .code first body last hint isInListing ∈ (passages .start (source.splitOn '\n')).1)
    (hreturn : ∀ line ∈ body, '\r' ∉ line) {store : Store}
    (hstore : store.IsFaithful plain fun b => ∃ format, b ∈ blocks format source) :
    (KeepsLines body (fun format => (renderCode plain format store (Text.unlines body) hint).1) ↔
        ∃ line, body.getLast? = some line ∧ line ≠ []) ∧
      shownLines? .markup (renderCode plain .markup store (Text.unlines body) hint).1 = some (writtenCode body) ∧
      shownLines? .html (renderCode plain .html store (Text.unlines body) hint).1 = some (htmlLines body) := by
  have hbody : ∀ line ∈ body, '\n' ∉ line := by
    intro line hline
    have hlines := mem_of_mem_passages hblock line (by simp [Passage.lines, hline])
    exact Text.notMem_of_mem_splitOn hlines
  have hrendered : ∀ format, (renderCode plain format store (Text.unlines body) hint).1 =
      plain (Text.unlines body) hint.language format hint.options := by
    intro format
    exact renderCode_eq hstore fun b hb => ⟨format, List.mem_filterMap.mpr ⟨_, hblock, hb⟩⟩
  have hmarkup := shownLines?_markup hbody hint.language hint.options
  have hhtml := shownLines?_html hbody hreturn hint.language hint.options
  simp only [KeepsLines, hrendered]
  refine ⟨?_, hmarkup, hhtml⟩
  have hboth :
      (∀ format, shownLines? format (plain (Text.unlines body) hint.language format hint.options) = some body) ↔
        writtenCode body = body ∧ htmlLines body = body := by
    constructor
    · exact fun h => ⟨Option.some.inj (hmarkup.symm.trans (h .markup)), Option.some.inj (hhtml.symm.trans (h .html))⟩
    · rintro ⟨hwritten, hlines⟩ format
      cases format with
      | html => rw [hhtml, hlines]
      | markup => rw [hmarkup, hwritten]
  rw [hboth, writtenCode_eq_self_iff hbody, htmlLines_eq_self_iff]
  obtain rfl | ⟨init, line, rfl⟩ := List.eq_nil_or_concat' body
  · simp
  · simp only [List.getLast?_concat, Option.some_inj]
    constructor
    · rintro ⟨-, hline⟩
      exact ⟨line, rfl, fun hempty => hline (by rw [hempty])⟩
    · rintro ⟨line', rfl, hline⟩
      exact ⟨⟨by simp, fun hempty => absurd hempty hline⟩, fun hempty => hline (Option.some.inj hempty)⟩

namespace BlankLine

/-- Code with empty lines, but not at its end. -/
def kept : Text := Text.unlines ["\\begin\x7bcode\x7d", "", "a", "", "b", "\\end\x7bcode\x7d"]

/-- Code with an empty line at its end. -/
def lost : Text := Text.unlines ["\\begin\x7bcode\x7d", "a", "", "\\end\x7bcode\x7d"]

theorem keepsLines_kept :
    .code "\\begin\x7bcode\x7d" ["", "a", "", "b"] "\\end\x7bcode\x7d" .default false ∈
        (passages .start (kept.splitOn '\n')).1 ∧
      (∀ line ∈ (["", "a", "", "b"] : List Text), '\r' ∉ line) ∧
      Store.inMemory.IsFaithful plain (fun b => ∃ format, b ∈ blocks format kept) ∧
      KeepsLines ["", "a", "", "b"] fun format =>
        (renderCode plain format .inMemory (Text.unlines ["", "a", "", "b"]) .default).1 := by
  have hblock : .code "\\begin\x7bcode\x7d" ["", "a", "", "b"] "\\end\x7bcode\x7d" .default false ∈
      (passages .start (kept.splitOn '\n')).1 := by
    decide +kernel
  have hreturn : ∀ line ∈ (["", "a", "", "b"] : List Text), '\r' ∉ line := by decide
  have hstore : Store.inMemory.IsFaithful plain (fun b => ∃ format, b ∈ blocks format kept) :=
    Highlight.Store.isFaithful_inMemory
  exact ⟨hblock, hreturn, hstore, (keepsLines_iff hblock hreturn hstore).1.mpr ⟨"b", rfl, by decide⟩⟩

theorem mem_passages_lost :
    .code "\\begin\x7bcode\x7d" ["a", ""] "\\end\x7bcode\x7d" .default false ∈
      (passages .start (lost.splitOn '\n')).1 := by
  decide +kernel

/-- The last line is in neither format. -/
theorem not_keepsLines :
    ¬ ∀ (source first last : Text) (body : List Text) (hint : Hint) (isInListing : Bool),
      .code first body last hint isInListing ∈ (passages .start (source.splitOn '\n')).1 →
        (∀ line ∈ body, '\r' ∉ line) →
          KeepsLines body fun format => (renderCode plain format .inMemory (Text.unlines body) hint).1 := by
  intro h
  have hmarkup := h lost _ _ _ _ _ mem_passages_lost (by decide) .markup
  revert hmarkup
  decide +kernel

end BlankLine

end Source

end Manuscript
