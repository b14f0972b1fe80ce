import Manuscript.Proofs.Highlight.Spans
import Manuscript.Proofs.Text.Lines

/-!
What a reader sees of highlighted code, without the tags and the line numbers.

Main statement: coloured code shows the lines of the code, and what the code shows that is only escaped, if and only if it
holds no `font-weight:` and no carriage return before a line feed (`keepsCode_iff`).
-/

namespace Manuscript

namespace Text

/-- The lines of a text as they are, without the line feeds. -/
def bareLines (t : Text) : List Text :=
  let pieces := t.splitOn '\n'
  pieces.dropLast ++ (pieces.getLast?.filter (· ≠ [])).toList

end Text

namespace Highlight

open Html

/-! Reading without tags -/

/-- The tag of a line number. -/
def numberTag : Text := "span class=\"lineno\""

/-- What is left of HTML without its tags, and without what follows the tag of a line number up to the next tag.  The
second argument holds what has been read of a tag. -/
def untagged (isInNumber : Bool) : (tag : Option Text) → Text → Text
  | _, [] => []
  | none, c :: t =>
    if c = '<' then untagged isInNumber (some []) t
    else if isInNumber then untagged isInNumber none t
    else c :: untagged isInNumber none t
  | some tag, c :: t =>
    if c = '>' then untagged (tag = numberTag) none t else untagged isInNumber (some (tag ++ [c])) t

/-- What HTML shows of code: no tags and no line numbers, and the characters that references stand for. -/
def shownCode (html : Text) : Text := resolve false (untagged false none html)

/-- HTML that reads as some text wherever it stands outside of tags. -/
def ReadsAs (html t : Text) : Prop :=
  ∀ rest, untagged false none (html ++ rest) = t ++ untagged false none rest

namespace ReadsAs

theorem nil : ReadsAs [] [] := fun _ => rfl

theorem append {html html' t t' : Text} (h : ReadsAs html t) (h' : ReadsAs html' t') :
    ReadsAs (html ++ html') (t ++ t') := by
  intro rest
  rw [List.append_assoc, h, h', List.append_assoc]

theorem of_notMem {t : Text} (h : '<' ∉ t) : ReadsAs t t := by
  intro rest
  induction t with
  | nil => rfl
  | cons c t ih =>
      obtain ⟨hc, ht⟩ : '<' ≠ c ∧ '<' ∉ t := by simpa using h
      rw [List.cons_append, untagged, if_neg hc.symm, if_neg Bool.false_ne_true, ih ht, List.cons_append]

end ReadsAs

theorem untagged_tag (isInNumber : Bool) {name : Text} (hname : '>' ∉ name) (before rest : Text) :
    untagged isInNumber (some before) (name ++ '>' :: rest) =
      untagged (before ++ name = numberTag) none rest := by
  induction name generalizing before with
  | nil => rw [List.nil_append, untagged, if_pos rfl, List.append_nil]
  | cons c name ih =>
      obtain ⟨hc, hname⟩ : '>' ≠ c ∧ '>' ∉ name := by simpa using hname
      rw [List.cons_append, untagged, if_neg hc.symm, ih hname, List.append_assoc, List.singleton_append]

/-- Nothing is read of a tag. -/
theorem ReadsAs.tag (name : Text) (hname : '>' ∉ name) (hnumber : name ≠ numberTag) :
    ReadsAs ('<' :: name ++ ['>']) [] := by
  intro rest
  rw [List.append_assoc, List.cons_append, List.singleton_append, untagged, if_pos rfl, untagged_tag false hname,
    List.nil_append, decide_eq_false hnumber, List.nil_append]

theorem untagged_number {numeral : Text} (h : '<' ∉ numeral) (rest : Text) :
    untagged true none (numeral ++ '<' :: rest) = untagged true (some []) rest := by
  induction numeral with
  | nil => rw [List.nil_append, untagged, if_pos rfl]
  | cons c numeral ih =>
      obtain ⟨hc, hnumeral⟩ : '<' ≠ c ∧ '<' ∉ numeral := by simpa using h
      rw [List.cons_append, untagged, if_neg hc.symm, if_pos rfl, ih hnumeral]

/-- Nothing is read of a line number. -/
theorem ReadsAs.number {numeral : Text} (h : '<' ∉ numeral) :
    ReadsAs ("<span class=\"lineno\">" ++ numeral ++ "</span>") [] := by
  intro rest
  have hopen : ("<span class=\"lineno\">" : Text) = '<' :: (numberTag ++ ['>']) := by decide
  have hclose : ("</span>" : Text) = '<' :: ("/span".toList ++ ['>']) := by decide
  rw [hopen, hclose]
  simp only [List.append_assoc, List.cons_append, List.nil_append]
  rw [untagged, if_pos rfl, untagged_tag false (by decide), List.nil_append, decide_eq_true rfl,
    untagged_number h, untagged_tag true (by decide), List.nil_append, decide_eq_false (by decide)]

theorem lt_notMem_of_any {t : Text} (h : t.any isSpecial = false) : '<' ∉ t := by
  intro hmem
  rw [List.any_eq_false] at h
  exact h '<' hmem (by decide)

theorem readsAs_placeLine (o : Options) (number : UInt32) {line t : Text} (h : ReadsAs line t) :
    ReadsAs (placeLine o number line) (t ++ ['\n']) := by
  have hfeed : ReadsAs ['\n'] ['\n'] := .of_notMem (by decide)
  unfold placeLine
  refine ReadsAs.append (t := []) ?_ ?_
  · split
    · exact .number (lt_notMem_of_any (any_isSpecial_ofNat number.toNat))
    · exact .nil
  · split
    · have hopen : ReadsAs "<span class=\"hll\">" [] :=
        .tag "span class=\"hll\"" (by decide) (by decide)
      have hclose : ReadsAs "</span>" [] := .tag "/span" (by decide) (by decide)
      have hmarked := ((hopen.append h).append hfeed).append hclose
      simpa using hmarked
    · exact h.append hfeed

theorem readsAs_placeLines (o : Options) (number : Nat) {lines ts : List Text} (h : List.Forall₂ ReadsAs lines ts) :
    ReadsAs (placeLines o number lines) (ts.flatMap (· ++ ['\n'])) := by
  induction h generalizing number with
  | nil => exact .nil
  | cons hfirst _ ih => exact (readsAs_placeLine o _ hfirst).append (ih (number + 1))

theorem gt_notMem_escapeText (t : Text) : '>' ∉ escapeText t := by
  intro hmem
  obtain ⟨c, -, hc⟩ := List.mem_flatMap.mp hmem
  obtain ⟨heq, -, -⟩ | ⟨hspecial, -⟩ := textCharacter_eq c
  · rw [heq, List.mem_singleton] at hc
    rw [← hc] at heq
    exact absurd heq (by decide)
  · simp only [isSpecial, Bool.or_eq_true, beq_iff_eq] at hspecial
    obtain ((rfl | rfl) | rfl) | rfl := hspecial <;> exact absurd hc (by decide)

/-- A block of lines reads as what the lines read as, with a line feed after each. -/
theorem untagged_htmlBlock {lines ts : List Text} (h : List.Forall₂ ReadsAs lines ts) (language : Text) (o : Options) :
    untagged false none (htmlBlock lines language o) = ts.flatMap (· ++ ['\n']) := by
  have hopen : ReadsAs ('<' :: ("div class=\"highlight\" data-lang=\"".toList ++ escapeText language ++ ['"']) ++ ['>']) [] := by
    refine .tag _ ?_ ?_
    · simp only [List.mem_append, not_or]
      exact ⟨⟨by decide, gt_notMem_escapeText language⟩, by decide⟩
    · intro heq
      have hfirst : some 'd' = some 's' := congrArg List.head? heq
      exact absurd hfirst (by decide)
  have hpre : ReadsAs "<pre>" [] := .tag "pre" (by decide) (by decide)
  have hend : ReadsAs "</pre></div>" [] :=
    ReadsAs.append (t := []) (.tag "/pre" (by decide) (by decide)) (.tag "/div" (by decide) (by decide))
  have hblock := ((hopen.append hpre).append (readsAs_placeLines o 1 h)).append hend []
  have hhtml : htmlBlock lines language o =
      '<' :: ("div class=\"highlight\" data-lang=\"".toList ++ escapeText language ++ ['"']) ++ ['>'] ++ "<pre>" ++
        placeLines o 1 lines ++ "</pre></div>" := by
    unfold htmlBlock
    generalize placeLines o 1 lines = placed
    have hlead : ("<div class=\"highlight\" data-lang=\"" : Text) =
        '<' :: "div class=\"highlight\" data-lang=\"".toList := by decide
    have hmiddle : ("\"><pre>" : Text) = ['"'] ++ ['>'] ++ "<pre>".toList := by decide
    rw [hlead, hmiddle]
    simp only [List.cons_append, List.append_assoc]
  rw [List.append_nil] at hblock
  rw [hhtml, hblock]
  simp only [untagged, List.append_nil, List.nil_append]

/-! What is kept of a line -/

/-- Does the character end a declaration, when it is written in coloured code?  References end with semicolons. -/
def endsDeclaration (c : Char) : Bool := c == ';' || isSpecial c || c == '\''

/-- What is kept of a line: font weights go, each with all up to the character that ends its declaration. -/
def keptFrom : (isDropping : Bool) → Text → Text
  | _, [] => []
  | true, c :: t => keptFrom (!endsDeclaration c) t
  | false, c :: t =>
    match Text.after? "font-weight:" (c :: t) with
    | some _ => keptFrom true t
    | none => c :: keptFrom false t

/-- What is kept of a line of code. -/
def kept (line : Text) : Text := keptFrom false line

/-- What is left of a text when it goes on after a declaration, all before being dropped. -/
def afterDeclaration (t : Text) : Text := ((Text.cut? ";" t).map fun found => dropFontWeight found.2).getD []

theorem afterDeclaration_append {s : Text} (hs : ';' ∉ s) (t : Text) :
    afterDeclaration (s ++ t) = afterDeclaration t := by
  induction s with
  | nil => rfl
  | cons c s ih =>
      obtain ⟨hc, hs⟩ : ';' ≠ c ∧ ';' ∉ s := by simpa using hs
      have hnone : Text.after? ";" (c :: (s ++ t)) = none := if_neg hc
      rw [← ih hs, afterDeclaration, afterDeclaration, List.cons_append, Text.cut?, hnone, Option.map_map]
      rfl

theorem codeCharacter_of_not {c : Char} (h : endsDeclaration c = false) : codeCharacter c = [c] := by
  simp only [endsDeclaration, Bool.or_eq_false_iff] at h
  unfold codeCharacter
  split
  · exact absurd h.2 (by decide)
  · exact (attributeCharacter_eq_iff c).mpr h.1.2

theorem exists_codeCharacter {c : Char} (h : endsDeclaration c = true) :
    ∃ init, codeCharacter c = init ++ [';'] ∧ ';' ∉ init ∧ 'f' ∉ init ∧ '\n' ∉ init ∧
      (codeCharacter c).head?.all endsDeclaration = true := by
  have hcases : c = ';' ∨ c = '&' ∨ c = '<' ∨ c = '>' ∨ c = '"' ∨ c = '\'' := by
    simpa [endsDeclaration, isSpecial, or_assoc] using h
  obtain rfl | rfl | rfl | rfl | rfl | rfl := hcases
  · exact ⟨[], by decide⟩
  · exact ⟨"&amp", by decide⟩
  · exact ⟨"&lt", by decide⟩
  · exact ⟨"&gt", by decide⟩
  · exact ⟨"&quot", by decide⟩
  · exact ⟨"&#39", by decide⟩

/-- In written code a wording is found where it stands in the code, if it needs no references. -/
theorem after?_escapeCode (mark : Text) (hmark : mark.any endsDeclaration = false) (t : Text) :
    Text.after? mark (escapeCode t ++ "</span>") = (Text.after? mark t).map fun tail => escapeCode tail ++ "</span>" := by
  induction mark generalizing t with
  | nil => rfl
  | cons l mark ih =>
      rw [List.any_cons, Bool.or_eq_false_iff] at hmark
      have hne : ∀ {d : Char}, endsDeclaration d = true → l ≠ d := by
        rintro d hd rfl
        rw [hmark.1] at hd
        cases hd
      cases t with
      | nil => exact if_neg (hne (by decide))
      | cons c t =>
          rw [escapeCode, List.flatMap_cons, List.append_assoc]
          cases hc : endsDeclaration c with
          | true =>
              obtain ⟨init, heq, -, -, -, hfirst⟩ := exists_codeCharacter hc
              have hnone : Text.after? (l :: mark) (c :: t) = none := if_neg (hne hc)
              rw [hnone]
              cases hcode : codeCharacter c with
              | nil => simp [hcode] at heq
              | cons d more =>
                  rw [hcode, List.head?_cons, Option.all_some] at hfirst
                  exact if_neg (hne hfirst)
          | false =>
              rw [codeCharacter_of_not hc, List.singleton_append, Text.after?, Text.after?]
              split
              · exact ih hmark.2 t
              · rfl

/-- The end of a span, unless it has gone with a declaration that does not end. -/
def IsEnd (t : Text) : Prop := t = [] ∨ t = "</span>"

/-- Font weights are dropped from written code as they are from the code. -/
theorem exists_dropFontWeight_escapeCode (t : Text) :
    (∃ rest, IsEnd rest ∧ dropFontWeight (escapeCode t ++ "</span>") = escapeCode (keptFrom false t) ++ rest) ∧
      ∃ rest, IsEnd rest ∧ afterDeclaration (escapeCode t ++ "</span>") = escapeCode (keptFrom true t) ++ rest := by
  induction t with
  | nil =>
      refine ⟨⟨"</span>", .inr rfl, ?_⟩, ⟨[], .inl rfl, rfl⟩⟩
      have hend := dropFontWeight_append (s := "</span>") (by decide) []
      rwa [List.append_nil, dropFontWeight_nil, List.append_nil] at hend
  | cons c t ih =>
      obtain ⟨⟨rest, hrest, hkept⟩, ⟨rest', hrest', hdropped⟩⟩ := ih
      have hwrite : escapeCode (c :: t) = codeCharacter c ++ escapeCode t := List.flatMap_cons
      rw [hwrite, List.append_assoc]
      constructor
      · cases hweight : Text.after? "font-weight:" (c :: t) with
        | none =>
            refine ⟨rest, hrest, ?_⟩
            have hnone := after?_escapeCode "font-weight:" (by decide) (c :: t)
            rw [hweight, Option.map_none, hwrite, List.append_assoc] at hnone
            have hfrom : escapeCode (keptFrom false (c :: t)) = codeCharacter c ++ escapeCode (keptFrom false t) := by
              rw [keptFrom, hweight]
              exact List.flatMap_cons
            rw [hfrom, List.append_assoc, ← hkept]
            cases hc : endsDeclaration c with
            | true =>
                obtain ⟨init, heq, -, hf, -, -⟩ := exists_codeCharacter hc
                refine dropFontWeight_append ?_ _
                simpa [heq] using hf
            | false =>
                rw [codeCharacter_of_not hc] at hnone ⊢
                exact dropFontWeight_cons hnone
        | some tail =>
            refine ⟨rest', hrest', ?_⟩
            have htext : c :: t = 'f' :: ("ont-weight:" ++ tail) := Text.eq_append_of_after? hweight
            obtain ⟨rfl, rfl⟩ := List.cons.inj htext
            have hsome := after?_escapeCode "font-weight:" (by decide) ('f' :: ("ont-weight:" ++ tail))
            rw [hweight, Option.map_some, hwrite, List.append_assoc] at hsome
            have hcode : escapeCode ("ont-weight:" ++ tail) = "ont-weight:" ++ escapeCode tail := List.flatMap_append
            rw [hcode, List.append_assoc, afterDeclaration_append (by decide)] at hdropped
            rw [keptFrom, hweight, ← hdropped]
            exact dropFontWeight_of_after? hsome
      · cases hc : endsDeclaration c with
        | true =>
            obtain ⟨init, heq, hinit, -, -, -⟩ := exists_codeCharacter hc
            refine ⟨rest, hrest, ?_⟩
            rw [heq, List.append_assoc, afterDeclaration_append hinit, keptFrom, hc]
            exact hkept
        | false =>
            have hne : ';' ≠ c := by
              rintro rfl
              cases hc
            refine ⟨rest', hrest', ?_⟩
            rw [codeCharacter_of_not hc, afterDeclaration_append (by simpa using hne), keptFrom, hc]
            exact hdropped

theorem filter_escapeCode {line : Text} (hline : '\n' ∉ line) :
    (escapeCode line).filter (· ≠ '\n') = escapeCode line := by
  rw [List.filter_eq_self]
  intro d hd
  obtain ⟨c, hc, hd⟩ := List.mem_flatMap.mp hd
  have hne : c ≠ '\n' := fun heq => hline (heq ▸ hc)
  rw [decide_eq_true_eq]
  rintro rfl
  cases hends : endsDeclaration c with
  | true =>
      obtain ⟨init, heq, -, -, hfeed, -⟩ := exists_codeCharacter hends
      rw [heq, List.mem_append] at hd
      exact hd.elim hfeed (by decide)
  | false =>
      rw [codeCharacter_of_not hends, List.mem_singleton] at hd
      exact hne hd.symm

/-- A coloured line reads as what is kept of it. -/
theorem readsAs_tintLine (theme : Theme) {line : Text} (hline : '\n' ∉ line) {ending : Text}
    (hending : ending = [] ∨ ending = ['\n']) : ReadsAs (tintLine theme (line ++ ending)) (escapeCode (kept line)) := by
  obtain ⟨rest, hrest, hkept⟩ := (exists_dropFontWeight_escapeCode line).1
  have hcode : (escapeCode (line ++ ending)).filter (· ≠ '\n') = escapeCode line := by
    rw [escapeCode, List.flatMap_append, List.filter_append]
    change (escapeCode line).filter _ ++ _ = _
    rw [filter_escapeCode hline]
    obtain rfl | rfl := hending
    · exact List.append_nil _
    · exact List.append_nil _
  have hlead : ∃ name : Text, ("<span style=\"color:" ++ foreground theme ++ ";\">" : Text) = '<' :: name ++ ['>'] ∧
      '>' ∉ name ∧ name ≠ numberTag ∧ 'f' ∉ '<' :: name ++ ['>'] ∧
        ('<' :: name ++ ['>']).filter (· ≠ '\n') = '<' :: name ++ ['>'] := by
    cases theme
    · exact ⟨"span style=\"color:#323232;\"", by decide⟩
    · exact ⟨"span style=\"color:#323232;\"", by decide⟩
    · exact ⟨"span style=\"color:#c0c5ce;\"", by decide⟩
  obtain ⟨name, hname, hgt, hnumber, hf, hfeed⟩ := hlead
  have htint : tintLine theme (line ++ ending) = '<' :: name ++ ['>'] ++ (escapeCode (kept line) ++ rest) := by
    have hclose : ("</span>" : Text).filter (· ≠ '\n') = "</span>" := by decide
    rw [tintLine, hname]
    change dropFontWeight (List.filter _ ('<' :: name ++ ['>'] ++ escapeCode (line ++ ending) ++ "</span>")) = _
    rw [List.filter_append, List.filter_append, hcode, hfeed, hclose, List.append_assoc, dropFontWeight_append hf,
      hkept]
    rfl
  have hend : ReadsAs rest [] := by
    obtain rfl | rfl := hrest
    · exact .nil
    · exact .tag "/span" (by decide) (by decide)
  rw [htint]
  have hreads := (ReadsAs.tag name hgt hnumber).append ((ReadsAs.of_notMem (lt_notMem_escapeCode (kept line))).append hend)
  rwa [List.append_nil, List.nil_append] at hreads

/-! What the two highlighters show -/

/-- Without the tags, coloured code is what is kept of its lines. -/
theorem untagged_tinted (theme : Theme) (code language : Text) (o : Options) :
    untagged false none (tinted theme code language .html o) =
      ((Text.bareLines code).map fun line => escapeCode (kept line)).flatMap (· ++ ['\n']) := by
  have hfeed : ∀ piece ∈ code.splitOn '\n', '\n' ∉ piece := fun piece hpiece => Text.notMem_of_mem_splitOn hpiece
  refine untagged_htmlBlock ?_ language o
  rw [Text.linesWithEnds, Text.bareLines, List.map_append, List.map_append, List.map_map]
  refine List.rel_append ?_ ?_ <;> rw [List.forall₂_map_left_iff, List.forall₂_map_right_iff, List.forall₂_same]
  · exact fun piece hpiece => readsAs_tintLine theme (hfeed piece (List.dropLast_subset _ hpiece)) (.inr rfl)
  · intro piece hpiece
    have hlast := List.mem_of_getLast? (Option.filter_eq_some_iff.mp (Option.mem_toList.mp hpiece)).1
    have hreads := readsAs_tintLine theme (hfeed piece hlast) (.inl rfl)
    rwa [List.append_nil] at hreads

theorem untagged_plain (code language : Text) (o : Options) :
    untagged false none (plain code language .html o) =
      ((Text.lines code).map escapeText).flatMap (· ++ ['\n']) := by
  refine untagged_htmlBlock ?_ language o
  exact List.forall₂_same.mpr fun line hline => by
    obtain ⟨raw, -, rfl⟩ := List.mem_map.mp hline
    exact .of_notMem (lt_notMem_escapeText raw)

theorem reference?_apostrophe (rest : Text) : reference? false ("#39;" ++ rest) = some (['\''], rest) := rfl

/-- A reader gets back a character of coloured code. -/
theorem resolve_codeCharacter (c : Char) (rest : Text) :
    resolve false (codeCharacter c ++ rest) = c :: resolve false rest := by
  unfold codeCharacter
  split
  · change resolve false ('&' :: ("#39;" ++ rest)) = _
    rw [resolve, if_pos rfl, reference?_apostrophe]
    exact if_pos (by simp only [List.length_append]; omega)
  · cases hc : isSpecial c with
    | true => exact resolve_escape false hc rest
    | false =>
        have hne : c ≠ '&' := fun heq => absurd (heq ▸ hc) (by decide)
        rw [(attributeCharacter_eq_iff c).mpr hc]
        exact resolve_cons false hne rest

theorem resolve_textCharacter (c : Char) (rest : Text) :
    resolve false (textCharacter c ++ rest) = c :: resolve false rest := by
  obtain ⟨heq, hamp, -⟩ | ⟨hspecial, heq⟩ := textCharacter_eq c
  · rw [heq]
    exact resolve_cons false hamp rest
  · rw [heq]
    exact resolve_escape false hspecial rest

/-- Lines that are written character by character are read back. -/
theorem resolve_lines {encode : Char → Text}
    (hencode : ∀ c rest, resolve false (encode c ++ rest) = c :: resolve false rest) (ts : List Text) :
    resolve false ((ts.map (List.flatMap encode)).flatMap (· ++ ['\n'])) = ts.flatMap (· ++ ['\n']) := by
  have hline : ∀ t rest : Text, resolve false (t.flatMap encode ++ rest) = t ++ resolve false rest := by
    intro t rest
    induction t with
    | nil => rfl
    | cons c t ih => rw [List.flatMap_cons, List.append_assoc, hencode, ih, List.cons_append]
  induction ts with
  | nil => rw [List.map_nil, List.flatMap_nil, resolve]
  | cons t ts ih =>
      rw [List.map_cons, List.flatMap_cons, List.flatMap_cons, List.append_assoc, hline, List.singleton_append,
        resolve_cons false (by decide), ih, List.append_assoc, List.singleton_append]

theorem shownCode_tinted (theme : Theme) (code language : Text) (o : Options) :
    shownCode (tinted theme code language .html o) = ((Text.bareLines code).map kept).flatMap (· ++ ['\n']) := by
  rw [shownCode, untagged_tinted, ← resolve_lines resolve_codeCharacter ((Text.bareLines code).map kept), List.map_map]
  rfl

theorem shownCode_plain (code language : Text) (o : Options) :
    shownCode (plain code language .html o) = (Text.lines code).flatMap (· ++ ['\n']) := by
  rw [shownCode, untagged_plain, ← resolve_lines resolve_textCharacter (Text.lines code)]
  rfl

/-! Code that is shown as it is -/

theorem keptFrom_sublist (isDropping : Bool) (t : Text) : (keptFrom isDropping t).Sublist t := by
  induction t generalizing isDropping with
  | nil => exact .slnil
  | cons c t ih =>
      cases isDropping with
      | true => exact (ih _).cons c
      | false =>
          rw [keptFrom]
          split
          · exact (ih true).cons c
          · exact (ih false).cons_cons c

theorem keptFrom_true_append {s : Text} (hs : s.any endsDeclaration = false) (t : Text) :
    keptFrom true (s ++ t) = keptFrom true t := by
  induction s with
  | nil => rfl
  | cons c s ih =>
      rw [List.any_cons, Bool.or_eq_false_iff] at hs
      rw [List.cons_append, keptFrom, hs.1]
      exact ih hs.2

/-- A line is kept as it is, or it is shorter than the line by a font weight at least. -/
theorem kept_eq_or_length_le (line : Text) :
    ¬ ("font-weight:" : Text) <:+: line ∧ kept line = line ∨
      ("font-weight:" : Text) <:+: line ∧ (kept line).length + 12 ≤ line.length := by
  unfold kept
  induction line with
  | nil => exact .inl ⟨fun h => absurd (List.infix_nil.mp h) (by decide), rfl⟩
  | cons c t ih =>
      rw [keptFrom]
      split
      · rename_i tail hweight
        have htext : c :: t = 'f' :: ("ont-weight:" ++ tail) := Text.eq_append_of_after? hweight
        obtain ⟨rfl, rfl⟩ := List.cons.inj htext
        refine .inr ⟨⟨[], tail, rfl⟩, ?_⟩
        have hlength := (keptFrom_sublist true tail).length_le
        rw [keptFrom_true_append (by decide), List.length_cons, List.length_append]
        change _ + 12 ≤ 11 + _ + 1
        omega
      · rename_i hnone
        have hprefix : ¬ ("font-weight:" : Text) <+: c :: t := by
          rintro ⟨tail, heq⟩
          rw [← heq, Text.after?_append] at hnone
          cases hnone
        rw [List.infix_cons_iff, or_iff_right hprefix, List.length_cons]
        exact ih.imp (And.imp_right (congrArg (c :: ·))) (And.imp_right fun hle => by rw [List.length_cons]; omega)

/-- Taking away a carriage return makes a line shorter by one. -/
theorem length_dropReturn {line : Text} (h : line.getLast? = some '\r') :
    (Text.dropReturn line).length + 1 = line.length := by
  obtain ⟨init, rfl⟩ := List.getLast?_eq_some_iff.mp h
  rw [dropReturn_concat, List.length_append, List.length_singleton]

theorem mem_splitOn_of_mem_bareLines {code line : Text} (h : line ∈ Text.bareLines code) : line ∈ code.splitOn '\n' := by
  rcases List.mem_append.mp h with hinner | hlast
  · exact List.dropLast_subset _ hinner
  · exact List.mem_of_getLast? (Option.filter_eq_some_iff.mp (Option.mem_toList.mp hlast)).1

theorem lineFeed_notMem_of_mem_bareLines {code line : Text} (h : line ∈ Text.bareLines code) : '\n' ∉ line :=
  Text.notMem_of_mem_splitOn (mem_splitOn_of_mem_bareLines h)

/-- A font weight in the code is one in a line. -/
theorem infix_fontWeight_iff (code : Text) :
    ("font-weight:" : Text) <:+: code ↔ ∃ line ∈ Text.bareLines code, ("font-weight:" : Text) <:+: line := by
  rw [Text.infix_iff_exists_mem_splitOn (by decide)]
  constructor
  · rintro ⟨piece, hpiece, hweight⟩
    have hne : piece ≠ [] := by
      rintro rfl
      exact absurd (List.infix_nil.mp hweight) (by decide)
    refine ⟨piece, ?_, hweight⟩
    rw [← List.dropLast_append_getLast (List.splitOn_ne_nil '\n' code)] at hpiece
    refine List.mem_append.mpr ((List.mem_append.mp hpiece).imp_right fun hlast => ?_)
    obtain rfl := List.mem_singleton.mp hlast
    exact Option.mem_toList.mpr (Option.filter_eq_some_iff.mpr ⟨List.getLast?_eq_some_getLast _, by simpa using hne⟩)
  · rintro ⟨line, hline, hweight⟩
    exact ⟨line, mem_splitOn_of_mem_bareLines hline, hweight⟩

theorem map_eq_self_iff {f : Text → Text} (lines : List Text) : lines.map f = lines ↔ ∀ line ∈ lines, f line = line := by
  have hmap := List.map_inj_left (f := f) (g := id) (l := lines)
  rwa [List.map_id] at hmap

/-- Lines are shown as they are if no font weight is dropped from them. -/
theorem map_kept_eq_self_iff (code : Text) :
    (Text.bareLines code).map kept = Text.bareLines code ↔ ¬ ("font-weight:" : Text) <:+: code := by
  rw [infix_fontWeight_iff, map_eq_self_iff, not_exists]
  refine forall_congr' fun line => ?_
  rw [not_and]
  refine imp_congr_right fun _ => ?_
  obtain ⟨hnone, hkept⟩ | ⟨hweight, hlength⟩ := kept_eq_or_length_le line
  · exact iff_of_true hkept hnone
  · refine iff_of_false (fun hkept => ?_) (fun hnone => hnone hweight)
    rw [hkept] at hlength
    omega

/-- A line that loses its carriage return at the most loses nothing else. -/
theorem kept_eq_self_of_eq_dropReturn {line : Text} (h : kept line = Text.dropReturn line) :
    kept line = line ∧ line.getLast? ≠ some '\r' := by
  by_cases hreturn : line.getLast? = some '\r'
  · have hlength := length_dropReturn hreturn
    rw [← h] at hlength
    obtain ⟨-, hkept⟩ | ⟨-, hshort⟩ := kept_eq_or_length_le line
    · rw [hkept] at hlength
      omega
    · omega
  · exact ⟨h.trans (dropReturn_eq_self hreturn), hreturn⟩

/-- What is kept of the lines is the lines without carriage returns if there is nothing to drop in either way. -/
theorem map_kept_eq_lines_iff (code : Text) :
    (Text.bareLines code).map kept = Text.lines code ↔
      ¬ ("font-weight:" : Text) <:+: code ∧ ¬ ("\r\n" : Text) <:+: code := by
  rw [← map_kept_eq_self_iff, Text.infix_returnFeed_iff, Text.bareLines, Text.lines]
  generalize (code.splitOn '\n').dropLast = ended
  generalize ((code.splitOn '\n').getLast?.filter _).toList = last
  simp only [List.map_append]
  constructor
  · intro h
    obtain ⟨hended, hlast⟩ := List.append_inj h (by simp)
    have hlines : ∀ line ∈ ended, kept line = line ∧ line.getLast? ≠ some '\r' :=
      fun line hline => kept_eq_self_of_eq_dropReturn (List.map_inj_left.mp hended line hline)
    have hself : ended.map kept = ended := (map_eq_self_iff ended).mpr fun line hline => (hlines line hline).1
    exact ⟨by rw [hself, hlast], fun ⟨line, hline, hreturn⟩ => (hlines line hline).2 hreturn⟩
  · rintro ⟨h, hreturn⟩
    have hself : ended.map Text.dropReturn = ended :=
      (map_eq_self_iff ended).mpr fun line hline => dropReturn_eq_self fun heq => hreturn ⟨line, hline, heq⟩
    rw [h, hself]

/-- Coloured code shows the lines of the code, one by one, and that is what code shows that is only escaped. -/
structure KeepsCode (theme : Theme) (code language : Text) (o : Options) : Prop where
  shownCode_eq_lines : shownCode (tinted theme code language .html o) = (Text.bareLines code).flatMap (· ++ ['\n'])
  shownCode_eq_plain : shownCode (tinted theme code language .html o) = shownCode (plain code language .html o)

/-- Coloured code shows what is kept of each line when font weights are dropped: all of it, if there is none in the code.
It shows the same as code that is only escaped if, besides, no carriage return stands before a line feed. -/
theorem keepsCode_iff (theme : Theme) (code language : Text) (o : Options) :
    (KeepsCode theme code language o ↔ ¬ ("font-weight:" : Text) <:+: code ∧ ¬ ("\r\n" : Text) <:+: code) ∧
      (shownCode (tinted theme code language .html o) = (Text.bareLines code).flatMap (· ++ ['\n']) ↔
        ¬ ("font-weight:" : Text) <:+: code) ∧
      shownCode (tinted theme code language .html o) = ((Text.bareLines code).map kept).flatMap (· ++ ['\n']) ∧
      shownCode (plain code language .html o) = (Text.lines code).flatMap (· ++ ['\n']) := by
  have hbare : ∀ line ∈ Text.bareLines code, '\n' ∉ line := fun line hline => lineFeed_notMem_of_mem_bareLines hline
  have hkept : ∀ line ∈ (Text.bareLines code).map kept, '\n' ∉ line := by
    intro line hline
    obtain ⟨raw, hraw, rfl⟩ := List.mem_map.mp hline
    exact fun hmem => hbare raw hraw ((keptFrom_sublist false raw).subset hmem)
  have htinted := shownCode_tinted theme code language o
  have hplain := shownCode_plain code language o
  have hlines : shownCode (tinted theme code language .html o) = (Text.bareLines code).flatMap (· ++ ['\n']) ↔
      ¬ ("font-weight:" : Text) <:+: code := by
    rw [htinted, Text.flatMap_lineFeed_inj hkept hbare, map_kept_eq_self_iff]
  have hsame : shownCode (tinted theme code language .html o) = shownCode (plain code language .html o) ↔
      ¬ ("font-weight:" : Text) <:+: code ∧ ¬ ("\r\n" : Text) <:+: code := by
    rw [htinted, hplain, Text.flatMap_lineFeed_inj hkept fun line hline => Text.lineFeed_notMem_of_mem_lines hline,
      map_kept_eq_lines_iff]
  refine ⟨⟨fun h => hsame.mp h.shownCode_eq_plain, fun h => ⟨hlines.mpr h.1, hsame.mpr h⟩⟩, hlines, htinted, hplain⟩

end Highlight

namespace StyleRule

/-- Code that is about font weights shows nothing at all. -/
theorem not_keepsCode : ¬ Highlight.KeepsCode .light "font-weight: bold" "text" .default := by
  intro h
  have hshown := h.shownCode_eq_lines
  rw [Highlight.shownCode_tinted] at hshown
  revert hshown
  decide +kernel

end StyleRule

end Manuscript
