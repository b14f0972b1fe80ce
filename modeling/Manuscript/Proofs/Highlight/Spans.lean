import Manuscript.Document.OfXml
import Manuscript.Highlight.Block
import Manuscript.Proofs.Html.Vocabulary

/-!
The spans of coloured code, and what is left of them when font weights are dropped.

Main statements: coloured lines are listed, wherever a font weight is dropped from them (`addsListed_dropFontWeight`), and
so is all that documents, outlines and code blocks are written as (`isListed_output`).
-/

namespace Manuscript

theorem Text.exists_of_append_eq {c : Char} {lead t head rest : Text} (hlead : c ∉ lead)
    (h : lead ++ t = head ++ c :: rest) : ∃ more, head = lead ++ more ∧ t = more ++ c :: rest := by
  rcases List.append_eq_append_iff.mp h with ⟨more, hhead, ht⟩ | ⟨more, heq, hrest⟩
  · exact ⟨more, hhead, ht⟩
  · cases more with
    | nil => exact ⟨[], by rw [heq, List.append_nil, List.append_nil], hrest.symm⟩
    | cons d more =>
        rw [heq, (List.cons.inj hrest).1] at hlead
        simp at hlead

namespace Highlight

open Html

/-! Font weights -/

theorem dropFontWeight_of_none {t : Text} (h : Text.cut? "font-weight:" t = none) : dropFontWeight t = t := by
  rw [dropFontWeight]
  split
  · rfl
  · rename_i heq
    rw [h] at heq
    cases heq

theorem dropFontWeight_of_some {t head tail : Text} (h : Text.cut? "font-weight:" t = some (head, tail)) :
    dropFontWeight t = head ++ ((Text.cut? ";" tail).map fun found => dropFontWeight found.2).getD [] := by
  rw [dropFontWeight]
  split
  · rename_i heq
    rw [h] at heq
    cases heq
  · rename_i heq
    rw [h] at heq
    cases heq
    split
    · rename_i hnone
      rw [hnone]
      exact (List.append_nil _).symm
    · rename_i rest hsome
      have hrest : ((Text.cut? ";" tail).map fun found => dropFontWeight found.2).getD [] = dropFontWeight rest := by
        rw [hsome]
        rfl
      exact congrArg (head ++ ·) hrest.symm

theorem dropFontWeight_nil : dropFontWeight [] = [] := dropFontWeight_of_none rfl

/-- Where no font weight begins, the text is kept. -/
theorem dropFontWeight_cons {c : Char} {t : Text} (h : Text.after? "font-weight:" (c :: t) = none) :
    dropFontWeight (c :: t) = c :: dropFontWeight t := by
  have hcut : Text.cut? "font-weight:" (c :: t) =
      (Text.cut? "font-weight:" t).map fun found => (c :: found.1, found.2) := by
    rw [Text.cut?.eq_def]
    dsimp only
    rw [h]
  cases hrest : Text.cut? "font-weight:" t with
  | none =>
      rw [hrest] at hcut
      rw [dropFontWeight_of_none hcut, dropFontWeight_of_none hrest]
  | some found =>
      obtain ⟨head, tail⟩ := found
      rw [hrest] at hcut
      rw [dropFontWeight_of_some hcut, dropFontWeight_of_some hrest]
      rfl

/-- Where a font weight begins, the text up to its semicolon is dropped. -/
theorem dropFontWeight_of_after? {c : Char} {t tail : Text} (h : Text.after? "font-weight:" (c :: t) = some tail) :
    dropFontWeight (c :: t) = ((Text.cut? ";" tail).map fun found => dropFontWeight found.2).getD [] := by
  have hcut : Text.cut? "font-weight:" (c :: t) = some ([], tail) := by
    rw [Text.cut?.eq_def]
    dsimp only
    rw [h]
  rw [dropFontWeight_of_some hcut]
  rfl

theorem dropFontWeight_append {s : Text} (hs : 'f' ∉ s) (t : Text) :
    dropFontWeight (s ++ t) = s ++ dropFontWeight t := by
  induction s with
  | nil => rfl
  | cons c s ih =>
      obtain ⟨hc, hs⟩ : 'f' ≠ c ∧ 'f' ∉ s := by simpa using hs
      have hnone : Text.after? "font-weight:" (c :: (s ++ t)) = none := if_neg hc
      rw [List.cons_append, dropFontWeight_cons hnone, ih hs, List.cons_append]

/-! Coloured lines -/

/-- The declarations of a style: none of them is markup, and each ends with a semicolon. -/
def IsStyle (style : Text) : Prop := style.any isSpecial = false ∧ (style = [] ∨ ∃ init, style = init ++ [';'])

/-- A line with spans for its colours.  Angle brackets of the code are escaped. -/
inductive IsColoured : Text → Prop
  | nil : IsColoured []
  | char {c : Char} {t : Text} (hc : c ≠ '<') (h : IsColoured t) : IsColoured (c :: t)
  | opens {style t : Text} (hstyle : IsStyle style) (h : IsColoured t) :
    IsColoured ("<span style=\"" ++ (style ++ ("\">" ++ t)))
  | closes {t : Text} (h : IsColoured t) : IsColoured ("</span>" ++ t)

theorem IsColoured.text {s t : Text} (hs : '<' ∉ s) (h : IsColoured t) : IsColoured (s ++ t) := by
  induction s with
  | nil => exact h
  | cons c s ih =>
      obtain ⟨hc, hs⟩ : '<' ≠ c ∧ '<' ∉ s := by simpa using hs
      exact .char hc.symm (ih hs)

/-- A span of a style around some code. -/
def span (style code rest : Text) : Text := "<span style=\"" ++ (style ++ ("\">" ++ (code ++ ("</span>" ++ rest))))

theorem IsColoured.span {style code rest : Text} (hstyle : IsStyle style) (hcode : '<' ∉ code) (h : IsColoured rest) :
    IsColoured (span style code rest) :=
  .opens hstyle (.text hcode (.closes h))

theorem IsStyle.of_append {lead style : Text} (h : IsStyle (lead ++ style)) : IsStyle style := by
  obtain ⟨hplain, hend⟩ := h
  rw [List.any_append, Bool.or_eq_false_iff] at hplain
  refine ⟨hplain.2, ?_⟩
  rcases List.eq_nil_or_concat style with rfl | ⟨init, c, rfl⟩
  · exact .inl rfl
  · right
    rcases hend with hnil | ⟨more, heq⟩
    · simp at hnil
    · rw [List.concat_eq_append, ← List.append_assoc] at heq
      obtain ⟨-, hlast⟩ := List.append_inj' heq rfl
      exact ⟨init, by rw [List.concat_eq_append, hlast]⟩

/-- The name of a declaration is not all that there is, since a style ends with a semicolon. -/
theorem IsStyle.semicolon_mem {value : Text} (h : IsStyle ("font-weight:" ++ value)) : ';' ∈ value := by
  rcases h.2 with hnil | ⟨init, hinit⟩
  · simp at hnil
  · rcases List.eq_nil_or_concat value with rfl | ⟨more, d, rfl⟩
    · rw [List.append_nil] at hinit
      have hlast := congrArg List.getLast? hinit
      rw [List.getLast?_concat] at hlast
      exact absurd hlast (by decide)
    · rw [List.concat_eq_append, ← List.append_assoc] at hinit
      obtain ⟨-, hlast⟩ := List.append_inj' hinit rfl
      rw [List.concat_eq_append, hlast]
      simp

/-- What follows a semicolon is in a coloured line or in the style of a span. -/
theorem IsColoured.after_semicolon {t head rest : Text} (h : IsColoured t) (heq : t = head ++ ';' :: rest) :
    IsColoured rest ∨ ∃ style more, IsStyle style ∧ IsColoured more ∧ rest = style ++ ("\">" ++ more) := by
  induction h generalizing head with
  | nil => simp at heq
  | char hc h ih =>
      cases head with
      | nil =>
          rw [← (List.cons.inj heq).2]
          exact .inl h
      | cons d head => exact ih (List.cons.inj heq).2
  | opens hstyle h ih =>
      obtain ⟨inside, -, hinside⟩ := Text.exists_of_append_eq (by decide) heq
      rcases List.append_eq_append_iff.mp hinside with ⟨more, -, hmore⟩ | ⟨more, rfl, hmore⟩
      · obtain ⟨later, -, hlater⟩ := Text.exists_of_append_eq (by decide) hmore
        exact ih hlater
      · cases more with
        | nil => exact absurd (List.cons.inj hmore).1 (by decide)
        | cons d more =>
            obtain ⟨rfl, rfl⟩ := List.cons.inj hmore
            rw [List.append_cons] at hstyle
            exact .inr ⟨more, _, hstyle.of_append, h, rfl⟩
  | closes h ih =>
      obtain ⟨later, -, hlater⟩ := Text.exists_of_append_eq (by decide) heq
      exact ih hlater

/-- A font weight that begins in a style ends in it. -/
theorem exists_dropFontWeight_style {style : Text} (h : IsStyle style) (t : Text) :
    ∃ left : Text, left.any isSpecial = false ∧
      dropFontWeight (style ++ ("\">" ++ t)) = left ++ ("\">" ++ dropFontWeight t) := by
  induction hlength : style.length using Nat.strongRecOn generalizing style with
  | ind length ih =>
      cases style with
      | nil => exact ⟨[], rfl, dropFontWeight_append (by decide) t⟩
      | cons c style =>
          rw [List.length_cons] at hlength
          cases hweight : Text.after? "font-weight:" (c :: (style ++ ("\">" ++ t))) with
          | none =>
              have hstyle : IsStyle ([c] ++ style) := h
              have hrest := hstyle.of_append
              obtain ⟨left, hleft, hdrop⟩ := ih style.length (by omega) hrest rfl
              refine ⟨c :: left, ?_, ?_⟩
              · have hplain := h.1
                rw [List.any_cons, Bool.or_eq_false_iff] at hplain
                rw [List.any_cons, hplain.1, hleft]
                rfl
              · rw [List.cons_append, dropFontWeight_cons hweight, hdrop]
                rfl
          | some tail =>
              have heq : ("font-weight:" ++ tail : Text) = (c :: style) ++ '"' :: '>' :: t :=
                (Text.eq_append_of_after? hweight).symm
              obtain ⟨value, hvalue, htail⟩ := Text.exists_of_append_eq (by decide) heq
              rw [hvalue] at h
              have hsemicolon : ';' ∈ value := h.semicolon_mem
              obtain ⟨head, rest, rfl, hhead⟩ := List.eq_append_cons_of_mem hsemicolon
              have hrest : IsStyle rest := by
                rw [List.append_cons, ← List.append_assoc] at h
                exact h.of_append
              have hless : rest.length < length := by
                have hcount := congrArg List.length hvalue
                simp only [List.length_cons, List.length_append] at hcount
                omega
              obtain ⟨left, hleft, hdrop⟩ := ih rest.length hless hrest rfl
              have hcut : Text.cut? ";" tail = some (head, rest ++ ("\">" ++ t)) := by
                rw [htail, List.append_assoc]
                exact Text.cut?_append_cons hhead _
              refine ⟨left, hleft, ?_⟩
              rw [List.cons_append, dropFontWeight_of_after? hweight, hcut]
              exact hdrop

/-- A coloured line without font weights is listed. -/
theorem addsListed_dropFontWeight {t : Text} (h : IsColoured t) : AddsListed (dropFontWeight t) := by
  induction hlength : t.length using Nat.strongRecOn generalizing t with
  | ind length ih =>
      have hmarkup {style more : Text} (hstyle : style.any isSpecial = false) (hmore : IsColoured more)
          (hless : more.length < length) : AddsListed (style ++ ("\">" ++ dropFontWeight more)) :=
        (AddsListed.of_plain hstyle).append ((AddsListed.of_notMem (by decide)).append (ih _ hless hmore rfl))
      cases h with
      | nil =>
          rw [dropFontWeight_nil]
          exact .of_notMem List.not_mem_nil
      | char hc h =>
          rename_i c t
          rw [List.length_cons] at hlength
          cases hweight : Text.after? "font-weight:" (c :: t) with
          | none =>
              rw [dropFontWeight_cons hweight]
              exact (AddsListed.of_notMem (t := [c]) (by simpa using hc.symm)).append (ih t.length (by omega) h rfl)
          | some tail =>
              rw [dropFontWeight_of_after? hweight]
              cases hcut : Text.cut? ";" tail with
              | none => exact .of_notMem List.not_mem_nil
              | some found =>
                  obtain ⟨head, rest⟩ := found
                  have heq : c :: t = ("font-weight:" ++ head) ++ ';' :: rest := by
                    rw [Text.eq_append_of_after? hweight, Text.eq_append_of_cut? hcut]
                    simp
                  have hcount := congrArg List.length heq
                  simp only [List.length_cons, List.length_append] at hcount
                  rcases (IsColoured.char hc h).after_semicolon heq with hrest | ⟨style, more, hstyle, hmore, rfl⟩
                  · exact ih rest.length (by omega) hrest rfl
                  · obtain ⟨left, hleft, hdrop⟩ := exists_dropFontWeight_style hstyle more
                    simp only [List.length_append] at hcount
                    change AddsListed (dropFontWeight _)
                    rw [hdrop]
                    exact hmarkup hleft hmore (by omega)
      | opens hstyle h =>
          rename_i style t
          obtain ⟨left, hleft, hdrop⟩ := exists_dropFontWeight_style hstyle t
          have hwrite : ("<span style=\"" ++ (left ++ ("\">" ++ dropFontWeight t)) : Text) =
              (Piece.opens false ⟨"span", [("style", left)], false⟩).write ++ dropFontWeight t := by
            simp only [Piece.write, List.flatMap_cons, List.flatMap_nil, writeAttribute_of_plain hleft, tagEnd]
            simp
          simp only [List.length_append] at hlength
          rw [dropFontWeight_append (by decide), hdrop, hwrite]
          exact (AddsListed.opens (by rfl) (by rfl)).append
            (ih t.length (by rw [← hlength]; change _ < 13 + (_ + (2 + _)); omega) h rfl)
      | closes h =>
          rename_i t
          rw [List.length_append] at hlength
          rw [dropFontWeight_append (by decide)]
          exact (AddsListed.closes (show isName "span" = true by decide) (by decide)).append
            (ih t.length (by rw [← hlength]; exact Nat.lt_add_of_pos_left (by decide)) h rfl)

/-! Lines of blocks -/

/-- A coloured line as it is set: without its line feed, and without font weights. -/
def colouredLine (html : Text) : Text := dropFontWeight (html.filter (· ≠ '\n'))

theorem IsStyle.filter {style : Text} (h : IsStyle style) : IsStyle (style.filter (· ≠ '\n')) := by
  obtain ⟨hplain, hend⟩ := h
  constructor
  · rw [List.any_eq_false] at hplain ⊢
    exact fun c hc => hplain c (List.mem_of_mem_filter hc)
  · rcases hend with rfl | ⟨init, rfl⟩
    · exact .inl rfl
    · rw [List.filter_append]
      exact .inr ⟨_, rfl⟩

theorem IsColoured.filter {t : Text} (h : IsColoured t) : IsColoured (t.filter (· ≠ '\n')) := by
  induction h with
  | nil => exact .nil
  | char hc h ih =>
      rw [List.filter_cons]
      split
      · exact .char hc ih
      · exact ih
  | opens hstyle h ih =>
      rw [List.filter_append, List.filter_append, List.filter_append]
      exact .opens hstyle.filter ih
  | closes h ih =>
      rw [List.filter_append]
      exact .closes ih

theorem addsListed_colouredLine {html : Text} (h : IsColoured html) : AddsListed (colouredLine html) :=
  addsListed_dropFontWeight h.filter

theorem lt_notMem_codeCharacter (c : Char) : '<' ∉ codeCharacter c := by
  unfold codeCharacter
  split
  · decide
  · unfold attributeCharacter
    split
    · decide
    · have hescaped := lt_notMem_escapeText [c]
      rwa [escapeText, List.flatMap_singleton] at hescaped

theorem lt_notMem_escapeCode (code : Text) : '<' ∉ escapeCode code := by
  intro hmem
  obtain ⟨c, -, hc⟩ := List.mem_flatMap.mp hmem
  exact lt_notMem_codeCharacter c hc

/-- A line in a single colour is one of the coloured lines. -/
theorem addsListed_tintLine (theme : Theme) (line : Text) : AddsListed (tintLine theme line) := by
  have hstyle : IsStyle ("color:" ++ foreground theme ++ ";") := by
    cases theme <;> exact ⟨by decide, .inr ⟨_, rfl⟩⟩
  have hspan : ("<span style=\"color:" ++ foreground theme ++ ";\">" ++ escapeCode line ++ "</span>" : Text) =
      span ("color:" ++ foreground theme ++ ";") (escapeCode line) [] := by
    unfold span
    simp only [List.append_assoc, List.append_nil]
    rfl
  unfold tintLine
  rw [hspan]
  exact addsListed_colouredLine (.span hstyle (lt_notMem_escapeCode line) .nil)

/-- A span of a class. -/
theorem addsListed_span {v t : Text} (hv : v.any isSpecial = false) (h : AddsListed t) :
    AddsListed ("<span class=\"" ++ v ++ "\">" ++ t ++ "</span>") := by
  have hwrite : ("<span class=\"" ++ v ++ "\">" ++ t ++ "</span>" : Text) =
      (Piece.opens false ⟨"span", [("class", v)], false⟩).write ++ t ++ (Piece.closes "span").write := by
    simp only [Piece.write, List.flatMap_cons, List.flatMap_nil, writeAttribute_of_plain hv, tagEnd]
    simp
  rw [hwrite]
  exact .wrap (by rfl) (by rfl) h

theorem addsListed_placeLine (o : Options) (number : UInt32) {line : Text} (h : AddsListed line) :
    AddsListed (placeLine o number line) := by
  have hfeed : AddsListed "\n" := .of_notMem (by decide)
  unfold placeLine
  apply AddsListed.append
  · split
    · have hnumeral := addsListed_span (v := "lineno") (by decide) (.of_plain (any_isSpecial_ofNat number.toNat))
      exact hnumeral
    · exact .of_notMem List.not_mem_nil
  · split
    · have hmarked := addsListed_span (v := "hll") (by decide) (h.append hfeed)
      simpa using hmarked
    · exact h.append hfeed

theorem addsListed_placeLines (o : Options) (number : Nat) {lines : List Text} (h : ∀ line ∈ lines, AddsListed line) :
    AddsListed (placeLines o number lines) := by
  induction lines generalizing number with
  | nil => exact .of_notMem List.not_mem_nil
  | cons line lines ih =>
      obtain ⟨hline, hlines⟩ := List.forall_mem_cons.mp h
      exact (addsListed_placeLine o _ hline).append (ih (number + 1) hlines)

/-- The HTML form of a code block is listed, if its lines are. -/
theorem addsListed_htmlBlock {lines : List Text} (hlines : ∀ line ∈ lines, AddsListed line) {language : Text}
    (hlanguage : language.any isSpecial = false) (o : Options) : AddsListed (htmlBlock lines language o) := by
  have hwrite : (Piece.opens false ⟨"div", [("class", "highlight"), ("data-lang", language)], false⟩).write =
      "<div class=\"highlight\" data-lang=\"" ++ language ++ "\">" := by
    simp only [Piece.write, List.flatMap_cons, List.flatMap_nil, writeAttribute_of_plain hlanguage,
      writeAttribute_of_plain (v := "highlight") (by decide), tagEnd]
    simp
  have hblock : htmlBlock lines language o =
      (Piece.opens false ⟨"div", [("class", "highlight"), ("data-lang", language)], false⟩).write ++
        ("<pre>" ++ placeLines o 1 lines ++ "</pre>") ++ "</div>" := by
    unfold htmlBlock
    generalize placeLines o 1 lines = placed
    rw [escapeText_of_plain hlanguage, hwrite]
    simp
  have hplaced : AddsListed ((Piece.opens false ⟨"pre", [], false⟩).write ++ placeLines o 1 lines ++
      (Piece.closes "pre").write) :=
    .wrap (by decide) (by decide) (addsListed_placeLines o 1 hlines)
  rw [hblock]
  apply AddsListed.wrap ?_ ?_ hplaced
  · exact isFormed_of_sublist (by decide) ["class", "data-lang"] (List.Sublist.refl _) (by decide)
  · exact isListed_of_general (by decide) (List.forall_mem_cons.mpr ⟨by rfl, List.forall_mem_singleton.mpr (by rfl)⟩) false

/-- A document without markup in its texts and numbers, its own outline or any without markup, and code blocks are written
with no elements and attributes but those that are let through: blocks of lines without markup or of coloured lines, and
all that the two highlighters make of code. -/
theorem isListed_output {d : Document} (htext : ∀ t ∈ Node.textsIn d.children, t.any isSpecial = false)
    (hnumber : Forest.HaveNumbers (fun t => t.any isSpecial = false) d.children) (words : Words) {outline : Option Outline}
    (houtline : ∀ o ∈ outline, IsOutlineFor d o) {lines coloured : List Text}
    (hlines : ∀ line ∈ lines, line.any isSpecial = false) (hcoloured : ∀ line ∈ coloured, IsColoured line)
    {language : Text} (hlanguage : language.any isSpecial = false) (options : Options) (theme : Theme) (code : Text) :
    IsListed (d.html ⟨words, outline⟩) ∧ (∀ o ∈ outline, IsListed o.html) ∧
      IsListed (htmlBlock lines language options) ∧
        IsListed (htmlBlock (coloured.map colouredLine) language options) ∧
          IsListed (plain code language .html options) ∧ IsListed (tinted theme code language .html options) := by
  have hblock {lines : List Text} (h : ∀ line ∈ lines, AddsListed line) : IsListed (htmlBlock lines language options) :=
    (addsListed_htmlBlock h hlanguage options).isListed
  refine ⟨isListed_html htext hnumber words houtline, fun o ho => isListed_outline htext hnumber (houtline o ho), ?_⟩
  refine ⟨hblock fun line hline => .of_plain (hlines line hline), hblock fun line hline => ?_, hblock fun line hline => ?_,
    hblock fun line hline => ?_⟩
  · obtain ⟨html, hhtml, rfl⟩ := List.mem_map.mp hline
    exact addsListed_colouredLine (hcoloured html hhtml)
  · obtain ⟨raw, -, rfl⟩ := List.mem_map.mp hline
    exact .escapeText raw
  · obtain ⟨raw, -, rfl⟩ := List.mem_map.mp hline
    exact addsListed_tintLine theme raw

end Highlight

namespace FontWeights

def source : Text :=
  "<document><tableofcontents/><chapter><title>On <em>spans</em></title><p>See <url>a.org</url><footnote>b</footnote>" ++
    "</p><section><title>C</title></section></chapter></document>"

def parsed : Document := (Document.parse? source).get (by decide +kernel)

def placed : Document := ((parsed.number (.empty "s") false).1.placeFootnotes .numbered).1

/-- A rule of a style sheet, whose own font weight is dropped up to the end of a style. -/
def rule : Text :=
  Highlight.span "font-weight:bold;color:#323232;" "p \x7b font-weight: bold" (Highlight.span "color:#a71d5d;" "\x7d\n" [])

theorem isColoured_rule : Highlight.IsColoured rule := by
  apply Highlight.IsColoured.span
  · exact ⟨by decide, .inr ⟨"font-weight:bold;color:#323232", by decide⟩⟩
  · decide
  · exact .span ⟨by decide, .inr ⟨"color:#a71d5d", by decide⟩⟩ (by decide) .nil

theorem isListed_rule :
    (∀ t ∈ Node.textsIn placed.children, t.any Html.isSpecial = false) ∧
      Forest.HaveNumbers (fun t => t.any Html.isSpecial = false) placed.children ∧ Highlight.IsColoured rule ∧
        Highlight.colouredLine rule = "<span style=\"color:#323232;\">p \x7b \">\x7d</span>" ∧
          Html.IsListed (placed.html ⟨.default, some (placed.outline false)⟩) ∧
            Html.IsListed (Highlight.htmlBlock ([rule].map Highlight.colouredLine) "css" ⟨[1], true⟩) := by
  have htext : ∀ t ∈ Node.textsIn placed.children, t.any Html.isSpecial = false := by
    have hall : (Node.textsIn placed.children).all (fun t => !t.any Html.isSpecial) = true := by decide +kernel
    exact fun t ht => by simpa using List.all_eq_true.mp hall t ht
  have hnumber : Forest.HaveNumbers (fun t => t.any Html.isSpecial = false) placed.children := by
    have hall : (Forest.preorder placed.children).all (fun n => n.number.all fun t => !t.any Html.isSpecial) = true := by
      decide +kernel
    intro n hn t ht
    have hplain := List.all_eq_true.mp hall n hn
    rw [ht, Option.all_some] at hplain
    simpa using hplain
  have hline : ("p" : Text).any Html.isSpecial = false := by decide
  have hlanguage : ("css" : Text).any Html.isSpecial = false := by decide
  obtain ⟨hdocument, -, -, hcoloured, -⟩ := Highlight.isListed_output htext hnumber .default
    (fun o ho => .inr ⟨false, (Option.some.inj ho).symm⟩) (List.forall_mem_singleton.mpr hline)
    (List.forall_mem_singleton.mpr isColoured_rule) hlanguage ⟨[1], true⟩ .light "p"
  exact ⟨htext, hnumber, isColoured_rule, by decide +kernel, hdocument, hcoloured⟩

end FontWeights

end Manuscript
