import Manuscript.Proofs.Source.Markup
import Manuscript.Proofs.Source.Unstarred
import Manuscript.Proofs.Text.Numeral

/-!
The passages that a manuscript in markup is made of, and how they are read.  Code blocks have become `Verbatim`
environments, hints are gone, labels have moved, and stars are lost.

Main statements: the markup of a manuscript is the lines of these passages (`unlines_rendered`), and it is read as these
passages if the code is balanced (`passages_rewritten`).
-/

namespace Manuscript

namespace Highlight

/-- The first line of a code block in markup. -/
def markupOpening (o : Options) : Text :=
  let bracketed : Text := if (settings o).isEmpty then [] else "[" ++ Text.join "," (settings o) ++ "]"
  "\\begin\x7bVerbatim\x7d" ++ bracketed

/-- The last line of a code block in markup. -/
def markupClosing : Text := "\\end\x7bVerbatim\x7d"

end Highlight

namespace Source

open Highlight (markupOpening markupClosing)

/-- The lines of a body as they are written: at least one. -/
def written (body : List Text) : List Text := if body = [] then [[]] else body

/-- The lines of code as they are written: an empty one at the end is left out. -/
def writtenCode (body : List Text) : List Text :=
  written (if Text.endsWith "\n" (Text.unlines body) then body.dropLast else body)

/-- The passage as it is written in markup.  A hint is not written. -/
def Passage.rewritten? : Passage → Option Passage
  | .hint _ => none
  | .rawHtml _ html => some (.rawHtml ("%= " ++ html) html)
  | .literal first body last => some (.literal first (written body) last)
  | .code _ body _ requested _ =>
    some (.literal (markupOpening requested.options) (writtenCode body) markupClosing)
  | .math environment first body last =>
    let labels := (body.filterMap loneLabel?).map (Cache.renderLabel .markup)
    some (.math environment first (written (body.filter fun line => (loneLabel? line).isNone) ++ labels) last)
  | .comment line => some (.comment line)
  | .prose line => some (.prose ((items line).flatMap Item.restored))

/-- The passages of a manuscript as they are written in markup.  There is always a line. -/
def rewritten (ps : List Passage) : List Passage :=
  if ps.filterMap Passage.rewritten? = [] then [.prose []] else ps.filterMap Passage.rewritten?

section Ended

theorem ended_written (body : List Text) : Text.ended (written body) = Text.unlines body ++ ['\n'] := by
  unfold written
  split
  · rename_i hempty
    rw [hempty]
    rfl
  · rename_i hne
    exact (Text.unlines_append_lineFeed hne).symm

/-- Code that ends with a line feed has an empty line at its end. -/
theorem exists_of_endsWith {body : List Text} (hbody : ∀ line ∈ body, '\n' ∉ line)
    (h : Text.endsWith "\n" (Text.unlines body) = true) :
    ∃ init, init ≠ [] ∧ body = init ++ [[]] ∧ Text.ended init = Text.unlines body := by
  obtain ⟨head, hhead⟩ := Option.isSome_iff_exists.mp h
  have hsplit : Text.unlines body = head ++ ['\n'] := Text.eq_append_of_before? hhead
  obtain rfl | ⟨init, last, rfl⟩ := List.eq_nil_or_concat' body
  · cases head <;> cases hsplit
  · have hlines := Text.unlines_concat init last
    obtain rfl | ⟨most, c, rfl⟩ := List.eq_nil_or_concat' last
    · rw [List.append_nil] at hlines
      refine ⟨init, ?_, rfl, hlines.symm⟩
      rintro rfl
      rw [hlines] at hsplit
      cases head <;> cases hsplit
    · -- The last line would hold the line feed.
      rw [hlines, ← List.append_assoc] at hsplit
      obtain rfl := List.singleton_inj.mp (List.append_inj_right' hsplit rfl)
      exact absurd (List.mem_append_right most List.mem_cons_self) (hbody (most ++ ['\n']) (by simp))

theorem markupBlock_eq (code : Text) (o : Highlight.Options) :
    Highlight.markupBlock code o = markupOpening o ++ ['\n'] ++ code ++
      (if Text.endsWith "\n" code then [] else ['\n']) ++ markupClosing := rfl

theorem ended_markupBlock {body : List Text} (hbody : ∀ line ∈ body, '\n' ∉ line) (o : Highlight.Options) :
    Text.ended [Highlight.markupBlock (Text.unlines body) o] =
      Text.ended (markupOpening o :: writtenCode body ++ [markupClosing]) := by
  have hcode : Text.ended (writtenCode body) =
      Text.unlines body ++ if Text.endsWith "\n" (Text.unlines body) then [] else ['\n'] := by
    unfold writtenCode
    split
    · rename_i hends
      obtain ⟨init, hne, rfl, hended⟩ := exists_of_endsWith hbody hends
      rw [List.dropLast_concat, written, if_neg hne, hended, List.append_nil]
    · exact ended_written body
  simp only [markupBlock_eq, List.cons_append, Text.ended_cons, Text.ended_append, hcode, List.append_assoc,
    List.nil_append]

/-- What is rendered for a passage are the lines of the passage that is written. -/
theorem Passage.ended_rendered {p : Passage} (h : ∀ line ∈ p.lines, '\n' ∉ line) :
    Text.ended p.rendered = Text.ended (p.rewritten?.toList.flatMap Passage.lines) := by
  have hblock : ∀ first body last, Text.ended [first, Text.unlines body, last] =
      Text.ended (first :: written body ++ [last]) := by
    intro first body last
    have hbody := ended_written body
    simp only [List.cons_append, Text.ended_cons, Text.ended_append, hbody]
    simp [Text.ended]
  cases p with
  | hint line => rfl
  | rawHtml line html | comment line | prose line => simp [rendered, restored, rewritten?, lines]
  | literal first body last => simpa [rendered, restored, rewritten?, lines] using hblock first body last
  | code first body last requested isInListing =>
      have hbody : ∀ line ∈ body, '\n' ∉ line := fun line hline => h line (by simp [lines, hline])
      simpa [rendered, rewritten?, lines] using ended_markupBlock hbody requested.options
  | math environment first body last =>
      have hbody := ended_written (body.filter fun line => (loneLabel? line).isNone)
      simp only [rendered, restored, rewritten?, Option.toList_some, List.flatMap_singleton, lines, List.cons_append,
        Text.ended_cons, Text.ended_append, hbody]
      simp [Text.ended]

/-- The markup of a manuscript is made of the lines of the passages that are written. -/
theorem unlines_rendered {ps : List Passage} (h : ∀ p ∈ ps, ∀ line ∈ p.lines, '\n' ∉ line) :
    Text.unlines (ps.flatMap Passage.rendered) = Text.unlines ((rewritten ps).flatMap Passage.lines) := by
  have hended : ∀ qs : List Passage, (∀ q ∈ qs, ∀ line ∈ q.lines, '\n' ∉ line) →
      Text.ended (qs.flatMap Passage.rendered) =
        Text.ended ((qs.filterMap Passage.rewritten?).flatMap Passage.lines) := by
    intro qs hqs
    induction qs with
    | nil => rfl
    | cons q qs ih =>
        obtain ⟨hq, hqs⟩ := List.forall_mem_cons.mp hqs
        rw [List.flatMap_cons, Text.ended_append, Passage.ended_rendered hq, ih hqs]
        cases hq : q.rewritten? <;> simp [hq, Text.ended]
  have hempty : ∀ lines : List Text, Text.ended lines = [] → lines = [] := by
    intro lines hlines
    cases lines with
    | nil => rfl
    | cons line lines => simp [Text.ended] at hlines
  unfold rewritten
  split
  · rename_i hnone
    have hnil := hended ps h
    rw [hnone] at hnil
    rw [hempty _ hnil]
    rfl
  · rename_i hsome
    have hne : (ps.filterMap Passage.rewritten?).flatMap Passage.lines ≠ [] :=
      flatMap_ne_nil hsome fun q _ => q.lines_ne_nil
    refine (eq_of_ended_eq (fun hnil => hne (hempty _ ?_)) hne).mpr (hended ps h)
    rw [← hended ps h, hnil]
    rfl

end Ended

section Rewritten

variable {p q : Passage}

/-- A line that defines a label is no marker. -/
theorem marker_eq_none_of_loneLabel? {line label : Text} (h : loneLabel? line = some label) :
    begin? line = none ∧ end? line = none ∧ Text.startsWith "%" (Text.trimStart line) = false := by
  simp only [loneLabel?, Option.bind_eq_bind, Option.bind_eq_some_iff] at h
  obtain ⟨rest, hrest, -⟩ := h
  unfold begin? end? marker?
  rw [Text.eq_append_of_after? hrest]
  exact ⟨rfl, rfl, rfl⟩

/-- A label is written so that it is read again. -/
theorem loneLabel?_renderLabel {line label : Text} (h : loneLabel? line = some label) :
    loneLabel? (Cache.renderLabel .markup label) = some label := by
  simp only [loneLabel?, Option.bind_eq_bind, Option.bind_eq_some_iff] at h
  obtain ⟨rest, -, ⟨label', rest'⟩, hcut, h⟩ := h
  split at h
  · obtain rfl := Option.some.inj h
    have hlabel : '\x7d' ∉ label' := Text.notMem_of_cut? hcut
    have hcut' : Text.cut? "\x7d" (label' ++ ['\x7d']) = some (label', []) := by
      refine (Text.cut?_append_of_notMem hlabel ['\x7d']).trans ?_
      simp [Text.cut?, Text.after?]
    have hafter : Text.after? "\\label\x7b" (Text.trimStart (Cache.renderLabel .markup label')) =
        some (label' ++ ['\x7d']) := by
      exact Text.after?_append "\\label\x7b" (label' ++ ['\x7d'])
    simp only [loneLabel?, hafter, Option.bind_eq_bind, Option.bind_some, hcut']
    rfl
  · cases h

theorem valid_block {name first last : Text} {body body' : List Text} (h : (Segment.block name first body last).Valid)
    (hmarkers : markers name body' = markers name body) : (Segment.block name first body' last).Valid :=
  ⟨h.1, h.2.1, (balanced_congr hmarkers).mpr h.2.2.1, h.2.2.2⟩

theorem markers_written (name : Text) (body : List Text) : markers name (written body) = markers name body := by
  unfold written
  split
  · rename_i hempty
    rw [hempty]
    rfl
  · rfl

theorem markers_math (name : Text) (body : List Text) :
    markers name (written (body.filter fun line => (loneLabel? line).isNone) ++
      (body.filterMap loneLabel?).map (Cache.renderLabel .markup)) = markers name body := by
  have hlabels : markers name ((body.filterMap loneLabel?).map (Cache.renderLabel .markup)) = [] := by
    refine markers_eq_nil fun line hline => ?_
    obtain ⟨label, hlabel, rfl⟩ := List.mem_map.mp hline
    obtain ⟨line, -, hlone⟩ := List.mem_filterMap.mp hlabel
    obtain ⟨hbegin, hend, -⟩ := marker_eq_none_of_loneLabel? (loneLabel?_renderLabel hlone)
    exact ⟨hbegin, hend⟩
  rw [markers_append, hlabels, markers_written, List.append_nil, markers, markers, List.filter_filter]
  refine List.filter_congr fun line _ => ?_
  cases hlone : loneLabel? line with
  | none => simp
  | some label =>
      obtain ⟨hbegin, hend, -⟩ := marker_eq_none_of_loneLabel? hlone
      simp [begins, ends, hbegin, hend]

theorem markers_writtenCode (name : Text) {body : List Text} (hbody : ∀ line ∈ body, '\n' ∉ line) :
    markers name (writtenCode body) = markers name body := by
  rw [writtenCode, markers_written]
  split
  · rename_i hends
    obtain ⟨init, -, rfl, -⟩ := exists_of_endsWith hbody hends
    have hlast : markers name [[]] = [] := markers_eq_nil fun line hline => List.mem_singleton.mp hline ▸ ⟨rfl, rfl⟩
    rw [List.dropLast_concat, markers_append, hlast, List.append_nil]
  · rfl

theorem rawHtml_annotation {line html : Text} (h : rawHtml? line = some html) :
    hint? (("%= " : Text) ++ html) = none ∧ rawHtml? (("%= " : Text) ++ html) = some html := by
  simp only [rawHtml?, Option.bind_eq_bind, Option.bind_eq_some_iff] at h
  obtain ⟨rest, -, h⟩ := h
  split at h
  · cases h
  · rename_i hhtml
    obtain rfl := Option.some.inj h
    have hstart : Text.trimStart (("%= " : Text) ++ Text.trim rest) = ("%=" : Text) ++ ' ' :: Text.trim rest := rfl
    have hblank : Text.trim (' ' :: Text.trim rest) = Text.trim rest := by
      rw [Text.trim_cons_blank rfl, Text.trim_trim]
    have hrest : Text.trimStart (' ' :: Text.trim rest) = Text.trim rest := Text.trimStart_trimEnd_trimStart rest
    have hlang : Text.after? "lang:" (Text.trim rest) = none := by
      rw [← Option.not_isSome_iff_eq_none]
      exact fun hstarts => hhtml (.inr (.inl hstarts))
    constructor
    · simp only [hint?, hstart, Text.after?_append, Option.bind_eq_bind, Option.bind_some, hrest, hlang, Option.bind_none]
    · simp only [rawHtml?, hstart, Text.after?_append, Option.bind_eq_bind, Option.bind_some, hblank, if_neg hhtml]

/-- The passage that is written for a passage is read as it is, if it is code only if the code is balanced. -/
theorem Passage.IsRead.rewritten (h : p.IsRead) (hfeeds : ∀ line ∈ p.lines, '\n' ∉ line) (hq : p.rewritten? = some q)
    (hcode : ∀ first body last requested isInListing, p = .code first body last requested isInListing →
      Balanced "Verbatim" body) : q.IsRead ∧ q.isMarkup = true := by
  cases h with
  | hint => cases hq
  | rawHtml hhint hhtml =>
      obtain rfl := Option.some.inj hq
      obtain ⟨hhint', hhtml'⟩ := rawHtml_annotation hhtml
      exact ⟨.rawHtml hhint' hhtml', rfl⟩
  | literal hname hblock =>
      obtain rfl := Option.some.inj hq
      exact ⟨.literal hname (valid_block hblock (markers_written _ _)), rfl⟩
  | @code name first last body requested isInListing hname hblock =>
      obtain rfl := Option.some.inj hq
      have hbody : ∀ line ∈ body, '\n' ∉ line := fun line hline => hfeeds line (by simp [lines, hline])
      have hbalanced := (balanced_congr (markers_writtenCode "Verbatim" hbody)).mpr (hcode _ _ _ _ _ rfl)
      exact ⟨.literal (.inr rfl) ⟨by decide, rfl, hbalanced, by decide⟩, rfl⟩
  | math hname hblock =>
      obtain rfl := Option.some.inj hq
      exact ⟨.math hname (valid_block hblock (markers_math _ _)), rfl⟩
  | comment hline hcomment =>
      obtain rfl := Option.some.inj hq
      exact ⟨.comment hline hcomment, rfl⟩
  | @prose line hline hcomment =>
      obtain rfl := Option.some.inj hq
      have hunstars := Unstars.flatMap_restored line
      exact ⟨.prose (hunstars.isOrdinary hline) (hunstars.isComment_eq ▸ hcomment), rfl⟩

theorem sublist_of_rawHtml? {line html : Text} (h : rawHtml? line = some html) : html.Sublist line := by
  simp only [rawHtml?, Option.bind_eq_bind, Option.bind_eq_some_iff] at h
  obtain ⟨rest, hrest, h⟩ := h
  split at h
  · cases h
  · obtain rfl := Option.some.inj h
    exact ((Text.trim_sublist rest).trans (Text.sublist_of_after? hrest)).trans (Text.trimStart_sublist line)

theorem sublist_of_loneLabel? {line label : Text} (h : loneLabel? line = some label) : label.Sublist line := by
  simp only [loneLabel?, Option.bind_eq_bind, Option.bind_eq_some_iff] at h
  obtain ⟨rest, hrest, ⟨label', rest'⟩, hcut, h⟩ := h
  split at h
  · obtain rfl := Option.some.inj h
    exact ((Text.sublist_of_cut? hcut).1.trans (Text.sublist_of_after? hrest)).trans (Text.trimStart_sublist line)
  · cases h

theorem lineFeed_notMem_markupOpening (o : Highlight.Options) : '\n' ∉ markupOpening o := by
  have hnumerals : '\n' ∉ Text.join "," (o.markedLines.map fun n => Text.ofNat n.toNat) := by
    intro hmem
    obtain hcomma | ⟨numeral, hnumeral, hmem⟩ := Text.mem_of_mem_join hmem
    · exact absurd hcomma (by decide)
    · obtain ⟨n, -, rfl⟩ := List.mem_map.mp hnumeral
      exact absurd (Text.isDigit_of_mem_ofNat hmem) (by decide)
  have hsettings : ∀ setting ∈ Highlight.settings o, '\n' ∉ setting := by
    intro setting hsetting
    obtain hnumbers | hmarked := List.mem_append.mp hsetting
    · split at hnumbers
      · obtain rfl := List.mem_singleton.mp hnumbers
        decide
      · cases hnumbers
    · split at hmarked
      · cases hmarked
      · obtain rfl := List.mem_singleton.mp hmarked
        exact List.not_mem_append (List.not_mem_append (by decide +kernel) hnumerals) (by decide +kernel)
  refine List.not_mem_append (by decide +kernel) ?_
  split
  · exact List.not_mem_nil
  · refine List.not_mem_append (List.not_mem_append (by decide) fun hmem => ?_) (by decide)
    obtain hcomma | ⟨setting, hsetting, hmem⟩ := Text.mem_of_mem_join hmem
    · exact absurd hcomma (by decide)
    · exact hsettings setting hsetting hmem

theorem mem_of_mem_written {body : List Text} {line : Text} (h : line ∈ written body) : line = [] ∨ line ∈ body := by
  unfold written at h
  split at h
  · exact .inl (List.mem_singleton.mp h)
  · exact .inr h

theorem mem_of_mem_writtenCode {body : List Text} {line : Text} (h : line ∈ writtenCode body) :
    line = [] ∨ line ∈ body := by
  obtain hempty | hmem := mem_of_mem_written h
  · exact .inl hempty
  · split at hmem
    · exact .inr (List.dropLast_subset body hmem)
    · exact .inr hmem

theorem forall_mem_block {P : Text → Prop} {first last : Text} {body : List Text} :
    (∀ line ∈ first :: body ++ [last], P line) ↔ P first ∧ (∀ line ∈ body, P line) ∧ P last := by
  rw [List.cons_append, List.forall_mem_cons, List.forall_mem_append, List.forall_mem_singleton]

/-- No line feed is written into a line. -/
theorem Passage.IsRead.lineFeed_notMem (h : p.IsRead) (hfeeds : ∀ line ∈ p.lines, '\n' ∉ line)
    (hq : p.rewritten? = some q) : ∀ line ∈ q.lines, '\n' ∉ line := by
  have hbody {body : List Text} (hfeeds : ∀ line ∈ body, '\n' ∉ line) {line : Text} (hline : line = [] ∨ line ∈ body) :
      '\n' ∉ line := by
    obtain rfl | hline := hline
    · exact List.not_mem_nil
    · exact hfeeds line hline
  cases h with
  | hint => cases hq
  | rawHtml hhint hhtml =>
      obtain rfl := Option.some.inj hq
      intro line hline hmem
      obtain rfl := List.mem_singleton.mp hline
      obtain hlead | hmem := List.mem_append.mp hmem
      · exact absurd hlead (by decide)
      · exact hfeeds _ List.mem_cons_self ((sublist_of_rawHtml? hhtml).subset hmem)
  | literal hname hblock =>
      obtain rfl := Option.some.inj hq
      obtain ⟨hfirst, hfeeds, hlast⟩ := forall_mem_block.mp hfeeds
      exact forall_mem_block.mpr ⟨hfirst, fun line hline => hbody hfeeds (mem_of_mem_written hline), hlast⟩
  | code hname hblock =>
      obtain rfl := Option.some.inj hq
      obtain ⟨-, hfeeds, -⟩ := forall_mem_block.mp hfeeds
      exact forall_mem_block.mpr ⟨lineFeed_notMem_markupOpening _,
        fun line hline => hbody hfeeds (mem_of_mem_writtenCode hline), by decide⟩
  | math hname hblock =>
      obtain rfl := Option.some.inj hq
      obtain ⟨hfirst, hfeeds, hlast⟩ := forall_mem_block.mp hfeeds
      refine forall_mem_block.mpr ⟨hfirst, fun line hline => ?_, hlast⟩
      obtain hline | hline := List.mem_append.mp hline
      · exact hbody hfeeds ((mem_of_mem_written hline).imp_right fun hmem => (List.mem_filter.mp hmem).1)
      · obtain ⟨label, hlabel, rfl⟩ := List.mem_map.mp hline
        obtain ⟨line, hline, hlone⟩ := List.mem_filterMap.mp hlabel
        refine List.not_mem_append (List.not_mem_append (by decide) fun hmem => ?_) (by decide)
        exact hfeeds line hline ((sublist_of_loneLabel? hlone).subset hmem)
  | comment =>
      obtain rfl := Option.some.inj hq
      exact hfeeds
  | @prose line =>
      obtain rfl := Option.some.inj hq
      intro line' hline hmem
      obtain rfl := List.mem_singleton.mp hline
      exact hfeeds line List.mem_cons_self ((perm_restored_items line).subset (List.mem_append_left _ hmem))

/-- The passage without the stars of its `\verb*` spans. -/
def Passage.unstarred : Passage → Passage
  | .prose line => .prose ((items line).flatMap Item.restored)
  | p => p

theorem written_written (body : List Text) : written (written body) = written body := by
  unfold written
  split <;> rfl

/-- Labels that stand after other lines are told apart from them. -/
theorem separate_labels {lines labels : List Text} (hlines : ∀ line ∈ lines, loneLabel? line = none)
    (hlabels : ∀ label ∈ labels, loneLabel? (Cache.renderLabel .markup label) = some label) :
    (lines ++ labels.map (Cache.renderLabel .markup)).filter (fun line => (loneLabel? line).isNone) = lines ∧
      (lines ++ labels.map (Cache.renderLabel .markup)).filterMap loneLabel? = labels := by
  have hkept : lines.filter (fun line => (loneLabel? line).isNone) = lines :=
    List.filter_eq_self.mpr fun line hline => Option.isNone_iff_eq_none.mpr (hlines line hline)
  have hnone : lines.filterMap loneLabel? = [] := List.filterMap_eq_nil_iff.mpr hlines
  have hdropped : (labels.map (Cache.renderLabel .markup)).filter (fun line => (loneLabel? line).isNone) = [] := by
    refine List.filter_eq_nil_iff.mpr fun line hline => ?_
    obtain ⟨label, hlabel, rfl⟩ := List.mem_map.mp hline
    simp [hlabels label hlabel]
  have hmoved : (labels.map (Cache.renderLabel .markup)).filterMap loneLabel? = labels := by
    rw [List.filterMap_map]
    exact (List.filterMap_congr hlabels).trans List.filterMap_some
  rw [List.filter_append, List.filterMap_append, hkept, hnone, hdropped, hmoved, List.append_nil]
  exact ⟨rfl, rfl⟩

/-- When it is written again, nothing but stars is lost. -/
theorem Passage.IsRead.rewritten_twice (h : p.IsRead) (hq : p.rewritten? = some q) :
    q.rewritten? = some q.unstarred := by
  cases h with
  | hint => cases hq
  | rawHtml | comment | prose =>
      obtain rfl := Option.some.inj hq
      rfl
  | literal | code =>
      obtain rfl := Option.some.inj hq
      simp only [rewritten?, unstarred, writtenCode, written_written]
  | @math environment first last body =>
      obtain rfl := Option.some.inj hq
      have hlabels : ∀ label ∈ body.filterMap loneLabel?, loneLabel? (Cache.renderLabel .markup label) = some label := by
        intro label hlabel
        obtain ⟨line, -, hlone⟩ := List.mem_filterMap.mp hlabel
        exact loneLabel?_renderLabel hlone
      have hlines : ∀ line ∈ written (body.filter fun line => (loneLabel? line).isNone), loneLabel? line = none := by
        intro line hline
        obtain rfl | hmem := mem_of_mem_written hline
        · rfl
        · simpa using (List.mem_filter.mp hmem).2
      obtain ⟨hkept, hmoved⟩ := separate_labels hlines hlabels
      simp only [rewritten?, unstarred, hkept, hmoved, written_written]

theorem Passage.unstarred_eq_iff : p.unstarred = p ↔ p.starsLost = 0 := by
  cases p with
  | prose line =>
      simp only [unstarred, starsLost, Passage.prose.injEq]
      constructor
      · intro heq
        have hlength := (perm_restored_items line).length_eq
        rw [heq, List.length_append, List.length_replicate] at hlength
        omega
      · intro hstars
        have hitems : ∀ i ∈ items line, i.restored = i.source := by
          intro i hi
          apply Item.restored_of_starsLost
          exact List.sum_eq_zero_iff_forall_eq_nat.mp hstars _ (List.mem_map_of_mem hi)
        rw [List.flatMap_congr hitems, flatMap_source_items]
  | _ => exact iff_of_true rfl rfl

theorem Passage.length_lines_unstarred (p : Passage) : p.unstarred.lines.length = p.lines.length := by
  cases p <;> rfl

theorem Passage.eq_of_lines_unstarred (h : p.unstarred.lines = p.lines) : p.unstarred = p := by
  cases p with
  | prose line => exact congrArg Passage.prose (List.singleton_inj.mp h)
  | _ => rfl

end Rewritten

section Manuscript

variable {ps : List Passage}

theorem forall_mem_rewritten {P : Passage → Prop} (hempty : P (.prose []))
    (h : ∀ p ∈ ps, ∀ q, p.rewritten? = some q → P q) : ∀ q ∈ rewritten ps, P q := by
  unfold rewritten
  split
  · exact List.forall_mem_singleton.mpr hempty
  · intro q hq
    obtain ⟨p, hp, hpq⟩ := List.mem_filterMap.mp hq
    exact h p hp q hpq

/-- An empty line is prose. -/
theorem isOrdinary_nil : IsOrdinary [] :=
  ⟨rfl, rfl, fun _ _ => ⟨nofun, nofun⟩⟩

theorem rewritten_ne_nil (ps : List Passage) : rewritten ps ≠ [] := by
  unfold rewritten
  split
  · exact List.cons_ne_nil _ _
  · assumption

/-- The markup of a manuscript splits into the lines of the passages that are written. -/
theorem splitOn_rewritten (hread : ∀ p ∈ ps, p.IsRead) (hfeeds : ∀ p ∈ ps, ∀ line ∈ p.lines, '\n' ∉ line) :
    (Text.unlines ((rewritten ps).flatMap Passage.lines)).splitOn '\n' = (rewritten ps).flatMap Passage.lines := by
  refine Text.splitOn_unlines (fun line hline => ?_) (flatMap_ne_nil (rewritten_ne_nil ps) fun q _ => q.lines_ne_nil)
  obtain ⟨q, hq, hline⟩ := List.mem_flatMap.mp hline
  refine forall_mem_rewritten (P := fun q => ∀ line ∈ q.lines, '\n' ∉ line) ?_ (fun p hp q hpq => ?_) q hq line hline
  · simp [Passage.lines]
  · exact (hread p hp).lineFeed_notMem (hfeeds p hp) hpq

/-- If all code is balanced, the passages that are written are those that are read. -/
theorem passages_rewritten (hread : ∀ p ∈ ps, p.IsRead) (hfeeds : ∀ p ∈ ps, ∀ line ∈ p.lines, '\n' ∉ line)
    (hcode : ∀ first body last requested isInListing, .code first body last requested isInListing ∈ ps →
      Balanced "Verbatim" body) :
    passages .start ((rewritten ps).flatMap Passage.lines) = (rewritten ps, none) := by
  refine passages_of_isRead (forall_mem_rewritten ⟨.prose isOrdinary_nil rfl, rfl⟩ fun p hp q hpq => ?_) rfl
  refine (hread p hp).rewritten (hfeeds p hp) hpq ?_
  rintro first body last requested isInListing rfl
  exact hcode _ _ _ _ _ hp

/-- When the passages are written again, nothing but stars is lost. -/
theorem rewritten_rewritten (hread : ∀ p ∈ ps, p.IsRead) :
    rewritten (rewritten ps) = (rewritten ps).map Passage.unstarred := by
  have htwice : ∀ q ∈ rewritten ps, q.rewritten? = some q.unstarred := by
    refine forall_mem_rewritten ?_ fun p hp q hpq => (hread p hp).rewritten_twice hpq
    rfl
  have hall : (rewritten ps).filterMap Passage.rewritten? = (rewritten ps).map Passage.unstarred := by
    rw [List.filterMap_congr htwice, List.filterMap_eq_map']
  rw [rewritten, hall, if_neg]
  exact fun hnil => rewritten_ne_nil ps (List.map_eq_nil_iff.mp hnil)

end Manuscript

end Source

end Manuscript
