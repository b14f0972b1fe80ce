import Manuscript.Proofs.Highlight.Kept

/-!
Blocks of rendered lines, read again row by row: each row has its number, if lines are numbered, and may be marked.

Main statement: the lines of a block come back in their order, with the numbers and marks that were asked for, and no
marked line is passed over if all of them are in range (`marksRequested`).
-/

namespace Manuscript

namespace Highlight

open Html

/-! Reading blocks -/

/-- A row of a block. -/
structure Row where
  number : Option Text
  isMarked : Bool
  line : Text
  deriving DecidableEq

/-- The number at the start of a row, if there is one, and what follows it. -/
def readNumber? (t : Text) : Option (Option Text × Text) :=
  match Text.after? "<span class=\"lineno\">" t with
  | none => some (none, t)
  | some t => do
    let (number, t) ← Text.cut? ['<'] t
    let t ← Text.after? "/span>" t
    return (some number, t)

/-- A line up to its line feed, in a span if it is marked, and what follows it. -/
def readLine? (number : Option Text) (t : Text) : Option (Row × Text) :=
  match Text.after? "<span class=\"hll\">" t with
  | none => do
    let (line, t) ← Text.cut? ['\n'] t
    return (⟨number, false, line⟩, t)
  | some t => do
    let (line, t) ← Text.cut? ['\n'] t
    let t ← Text.after? "</span>" t
    return (⟨number, true, line⟩, t)

/-- The row at the start of a text, and what follows it. -/
def readRow? (t : Text) : Option (Row × Text) := (readNumber? t).bind fun (number, t) => readLine? number t

theorem length_readNumber?_le {t rest : Text} {number : Option Text} (h : readNumber? t = some (number, rest)) :
    rest.length ≤ t.length := by
  unfold readNumber? at h
  split at h
  · cases h
    exact le_rfl
  · rename_i inside hinside
    simp only [Option.bind_eq_bind, Option.bind_eq_some_iff, Prod.exists] at h
    obtain ⟨numeral, tail, hcut, rest', hafter, heq⟩ := h
    cases heq
    have hlead := Text.length_after?_le hinside
    have hnumeral := Text.length_lt_of_cut? (by decide) hcut
    have hrest := Text.length_after?_le hafter
    omega

theorem length_lt_of_readLine? {number : Option Text} {t rest : Text} {row : Row}
    (h : readLine? number t = some (row, rest)) : rest.length < t.length := by
  unfold readLine? at h
  split at h
  · simp only [Option.bind_eq_bind, Option.bind_eq_some_iff, Prod.exists] at h
    obtain ⟨line, tail, hcut, heq⟩ := h
    cases heq
    exact Text.length_lt_of_cut? (by decide) hcut
  · rename_i inside hinside
    simp only [Option.bind_eq_bind, Option.bind_eq_some_iff, Prod.exists] at h
    obtain ⟨line, tail, hcut, rest', hafter, heq⟩ := h
    cases heq
    have hlead := Text.length_after?_le hinside
    have hline := Text.length_lt_of_cut? (by decide) hcut
    have hrest := Text.length_after?_le hafter
    omega

theorem length_lt_of_readRow? {t rest : Text} {row : Row} (h : readRow? t = some (row, rest)) :
    rest.length < t.length := by
  obtain ⟨⟨number, body⟩, hnumber, hline⟩ := Option.bind_eq_some_iff.mp h
  exact (length_lt_of_readLine? hline).trans_le (length_readNumber?_le hnumber)

/-- The rows at the start of a text, and what follows them. -/
def readRows (t : Text) : List Row × Text :=
  match h : readRow? t with
  | none => ([], t)
  | some (row, rest) =>
    have := length_lt_of_readRow? h
    let (rows, rest) := readRows rest
    (row :: rows, rest)
termination_by t.length

/-- The rows of a block. -/
def readBlock? (html : Text) : Option (List Row) := do
  let t ← Text.after? "<div class=\"highlight\" data-lang=\"" html
  let (_, t) ← Text.cut? ['>'] t
  let t ← Text.after? "<pre>" t
  let (rows, t) := readRows t
  if t = "</pre></div>" then return rows else none

/-! Reading what is written -/

/-- A rendered line that can be told from the tags around it. -/
structure IsBare (line : Text) : Prop where
  lineFeed_notMem : '\n' ∉ line
  not_prefix : ¬ ("<span class=\"" : Text) <+: line

/-- The row of a line. -/
def placedRow (o : Options) (number : UInt32) (line : Text) : Row :=
  ⟨if o.isNumbered then some (Text.ofNat number.toNat) else none, decide (number ∈ o.markedLines), line⟩

/-- The rows of some lines. -/
def placedRows (o : Options) : (number : Nat) → List Text → List Row
  | _, [] => []
  | number, line :: rest => placedRow o (UInt32.ofNat number) line :: placedRows o (number + 1) rest

/-- No tag of a row begins a bare line. -/
theorem IsBare.after?_eq_none {line : Text} (h : IsBare line) {tag : Text} (htag : '\n' ∉ tag)
    (hclass : ("<span class=\"" : Text) <+: tag) (rest : Text) : Text.after? tag (line ++ '\n' :: rest) = none := by
  rw [Text.after?_append_cons htag, Option.map_eq_none_iff]
  cases hafter : Text.after? tag line with
  | none => rfl
  | some tail =>
      rw [Text.eq_append_of_after? hafter] at h
      exact absurd (hclass.trans (List.prefix_append tag tail)) h.not_prefix

theorem readLine?_bare (number : Option Text) {line : Text} (hline : IsBare line) (rest : Text) :
    readLine? number (line ++ '\n' :: rest) = some (⟨number, false, line⟩, rest) := by
  rw [readLine?, hline.after?_eq_none (by decide) (by decide)]
  simp only [Text.cut?_append_cons hline.lineFeed_notMem]
  rfl

theorem readLine?_marked (number : Option Text) {line : Text} (hline : IsBare line) (rest : Text) :
    readLine? number ("<span class=\"hll\">" ++ (line ++ '\n' :: ("</span>" ++ rest))) =
      some (⟨number, true, line⟩, rest) := by
  rw [readLine?, Text.after?_append]
  simp only [Text.cut?_append_cons hline.lineFeed_notMem, Option.bind_eq_bind, Option.bind_some, Text.after?_append]
  rfl

theorem readNumber?_numeral (n : Nat) (rest : Text) :
    readNumber? ("<span class=\"lineno\">" ++ (Text.ofNat n ++ '<' :: ("/span>" ++ rest))) =
      some (some (Text.ofNat n), rest) := by
  rw [readNumber?, Text.after?_append]
  have hnumeral : '<' ∉ Text.ofNat n := lt_notMem_of_any (any_isSpecial_ofNat n)
  simp only [Text.cut?_append_cons hnumeral, Option.bind_eq_bind, Option.bind_some, Text.after?_append]
  rfl

/-- A row is read again, whatever follows it. -/
theorem readRow?_placeLine (o : Options) (number : UInt32) {line : Text} (hline : IsBare line) (rest : Text) :
    readRow? (placeLine o number line ++ rest) = some (placedRow o number line, rest) := by
  obtain ⟨placed, hplaced, hnone, hread⟩ : ∃ placed : Text,
      (if number ∈ o.markedLines then "<span class=\"hll\">" ++ line ++ "\n</span>" else line ++ "\n" : Text) ++ rest =
          placed ∧
        Text.after? "<span class=\"lineno\">" placed = none ∧
        ∀ numeral, readLine? numeral placed = some (⟨numeral, decide (number ∈ o.markedLines), line⟩, rest) := by
    refine ⟨_, rfl, ?_⟩
    split
    · rename_i hmarked
      rw [decide_eq_true hmarked]
      have hhtml : ("<span class=\"hll\">" ++ line ++ "\n</span>" ++ rest : Text) =
          "<span class=\"hll\">" ++ (line ++ '\n' :: ("</span>" ++ rest)) := by simp
      rw [hhtml]
      exact ⟨rfl, fun numeral => readLine?_marked numeral hline rest⟩
    · rename_i hmarked
      rw [decide_eq_false hmarked]
      have hhtml : (line ++ "\n" ++ rest : Text) = line ++ '\n' :: rest := by simp
      rw [hhtml]
      exact ⟨hline.after?_eq_none (by decide) (by decide) rest, fun numeral => readLine?_bare numeral hline rest⟩
  rw [readRow?, placeLine, List.append_assoc, hplaced, placedRow]
  cases o.isNumbered with
  | false =>
      have hplain : readNumber? placed = some (none, placed) := by rw [readNumber?, hnone]
      change (readNumber? placed).bind _ = _
      rw [hplain]
      exact hread none
  | true =>
      have hhtml : ("<span class=\"lineno\">" ++ Text.ofNat number.toNat ++ "</span>" ++ placed : Text) =
          "<span class=\"lineno\">" ++ (Text.ofNat number.toNat ++ '<' :: ("/span>" ++ placed)) := by simp
      rw [if_pos rfl, if_pos rfl, hhtml, readNumber?_numeral]
      exact hread _

theorem readRows_of_none {t : Text} (h : readRow? t = none) : readRows t = ([], t) := by
  rw [readRows]
  split
  · rfl
  · rename_i heq
    rw [h] at heq
    cases heq

theorem readRows_of_some {t rest : Text} {row : Row} (h : readRow? t = some (row, rest)) :
    readRows t = (row :: (readRows rest).1, (readRows rest).2) := by
  rw [readRows]
  split
  · rename_i heq
    rw [h] at heq
    cases heq
  · rename_i heq
    rw [h] at heq
    cases heq
    rfl

/-- All rows are read again, up to what is no row. -/
theorem readRows_placeLines (o : Options) (number : Nat) {lines : List Text} (hlines : ∀ line ∈ lines, IsBare line)
    {rest : Text} (hrest : readRow? rest = none) :
    readRows (placeLines o number lines ++ rest) = (placedRows o number lines, rest) := by
  induction lines generalizing number with
  | nil => exact readRows_of_none hrest
  | cons line lines ih =>
      obtain ⟨hline, hlines⟩ := List.forall_mem_cons.mp hlines
      rw [placeLines, List.append_assoc, readRows_of_some (readRow?_placeLine o _ hline _), ih _ hlines, placedRows]

/-- A block of bare lines is read again. -/
theorem readBlock?_htmlBlock {lines : List Text} (hlines : ∀ line ∈ lines, IsBare line) (language : Text)
    (o : Options) :
    readBlock? (htmlBlock lines language o) = some (placedRows o 1 lines) := by
  have hlanguage : '>' ∉ escapeText language ++ ['"'] := by
    simpa using gt_notMem_escapeText language
  have hrows : readRows (placeLines o 1 lines ++ "</pre></div>") = (placedRows o 1 lines, ("</pre></div>" : Text)) :=
    readRows_placeLines o 1 hlines rfl
  have hhtml : htmlBlock lines language o = "<div class=\"highlight\" data-lang=\"" ++
      ((escapeText language ++ ['"']) ++ '>' :: ("<pre>" ++ (placeLines o 1 lines ++ "</pre></div>"))) := by
    unfold htmlBlock
    simp
  rw [hhtml, readBlock?]
  simp only [Text.after?_append, Option.bind_eq_bind, Option.bind_some, Text.cut?_append_cons hlanguage, hrows,
    if_pos]
  rfl

theorem map_line_placedRows (o : Options) (number : Nat) (lines : List Text) :
    (placedRows o number lines).map Row.line = lines := by
  induction lines generalizing number with
  | nil => rfl
  | cons line lines ih => exact congrArg (line :: ·) (ih (number + 1))

theorem getElem?_placedRows (o : Options) (number : Nat) (lines : List Text) (i : Nat) :
    (placedRows o number lines)[i]? = lines[i]?.map (placedRow o (UInt32.ofNat (number + i))) := by
  induction lines generalizing number i with
  | nil => rfl
  | cons line lines ih =>
      cases i with
      | zero => rfl
      | succ i =>
          rw [placedRows, List.getElem?_cons_succ, List.getElem?_cons_succ, ih, Nat.add_right_comm, Nat.add_assoc]

/-! Lines that come between tags -/

theorem not_prefix_of_ne {c : Char} (hc : c ≠ '<') (t : Text) : ¬ ("<span class=\"" : Text) <+: c :: t :=
  fun h => hc (List.cons_prefix_cons.mp h).1.symm

theorem isBare_escapeText {line : Text} (hline : '\n' ∉ line) : IsBare (escapeText line) := by
  refine ⟨lineFeed_notMem_escapeText hline, ?_⟩
  intro hspan
  exact lt_notMem_escapeText line (hspan.subset List.mem_cons_self)

theorem dropFontWeight_sublist (t : Text) : (dropFontWeight t).Sublist t := by
  induction hlength : t.length using Nat.strongRecOn generalizing t with
  | ind length ih =>
      cases hweight : Text.cut? "font-weight:" t with
      | none => rw [dropFontWeight_of_none hweight]
      | some found =>
          obtain ⟨head, tail⟩ := found
          have htail := Text.length_lt_of_cut? (by decide) hweight
          rw [dropFontWeight_of_some hweight, Text.eq_append_of_cut? hweight, List.append_assoc]
          refine List.Sublist.append_left (List.Sublist.trans ?_ (List.sublist_append_right _ _)) head
          cases hcut : Text.cut? ";" tail with
          | none => exact List.nil_sublist _
          | some found =>
              obtain ⟨value, rest⟩ := found
              have hrest := Text.length_lt_of_cut? (by decide) hcut
              exact (ih rest.length (by omega) rest rfl).trans (Text.sublist_of_cut? hcut).2

/-- No coloured line begins with a tag of a row, also without its font weights. -/
theorem IsColoured.not_prefix {t : Text} (h : IsColoured t) : ¬ ("<span class=\"" : Text) <+: dropFontWeight t := by
  induction hlength : t.length using Nat.strongRecOn generalizing t with
  | ind length ih =>
      cases h with
      | nil =>
          rw [dropFontWeight_nil]
          decide
      | char hc h =>
          rename_i c t
          cases hweight : Text.after? "font-weight:" (c :: t) with
          | none =>
              rw [dropFontWeight_cons hweight]
              exact not_prefix_of_ne hc _
          | some tail =>
              rw [dropFontWeight_of_after? hweight]
              cases hcut : Text.cut? ";" tail with
              | none => exact (by decide : ¬ ("<span class=\"" : Text) <+: [])
              | some found =>
                  obtain ⟨head, rest⟩ := found
                  have heq : c :: t = ("font-weight:" ++ head) ++ ';' :: rest := by
                    rw [Text.eq_append_of_after? hweight, Text.eq_append_of_cut? hcut]
                    simp
                  have hcount := congrArg List.length heq
                  simp only [List.length_cons, List.length_append] at hcount hlength
                  rcases (IsColoured.char hc h).after_semicolon heq with hrest | ⟨style, more, hstyle, hmore, rfl⟩
                  · exact ih rest.length (by omega) hrest rfl
                  · obtain ⟨left, hleft, hdrop⟩ := exists_dropFontWeight_style hstyle more
                    change ¬ _ <+: dropFontWeight _
                    rw [hdrop]
                    cases left with
                    | nil => exact not_prefix_of_ne (by decide) _
                    | cons d left =>
                        refine not_prefix_of_ne ?_ _
                        rintro rfl
                        exact lt_notMem_of_any hleft List.mem_cons_self
      | opens hstyle h =>
          rw [dropFontWeight_append (by decide)]
          rintro ⟨rest, heq⟩
          have hstyles := congrArg (fun t : Text => t[6]?) heq
          exact absurd hstyles (by simp)
      | closes h =>
          rw [dropFontWeight_append (by decide)]
          rintro ⟨rest, heq⟩
          exact absurd (congrArg (fun t : Text => t[1]?) heq) (by simp)

theorem isBare_colouredLine {html : Text} (h : IsColoured html) : IsBare (colouredLine html) := by
  refine ⟨fun hfeed => ?_, h.filter.not_prefix⟩
  have hfilter := (dropFontWeight_sublist _).subset hfeed
  simp at hfilter

/-! Lines that are asked for -/

/-- The lines of code that is only escaped. -/
def plainLines (code : Text) : List Text := (Text.lines code).map escapeText

/-- Some lines of code in colours.  Each is coloured in view of the lines before it. -/
def colouredFrom (colour : List Text → Text → Text) (before : List Text) : List Text → List Text
  | [] => []
  | line :: rest => colouredLine (colour before line) :: colouredFrom colour (before ++ [line]) rest

/-- The lines of code in colours. -/
def colouredLines (colour : List Text → Text → Text) (code : Text) : List Text :=
  colouredFrom colour [] (Text.linesWithEnds code)

/-- The highlighter that colours the lines of code as a library does for a language. -/
def coloured (colour : (language : Text) → List Text → Text → Text) : Highlighter := fun code language format o =>
  match format with
  | .html => htmlBlock (colouredLines (colour language) code) language o
  | .markup => markupBlock code o

/-- The colours of code without a grammar. -/
def tint (theme : Theme) (_ : Text) (_ : List Text) (line : Text) : Text :=
  "<span style=\"color:" ++ foreground theme ++ ";\">" ++ escapeCode line ++ "</span>"

theorem isColoured_tint (theme : Theme) (language : Text) (before : List Text) (line : Text) :
    IsColoured (tint theme language before line) := by
  have hstyle : IsStyle ("color:" ++ foreground theme ++ ";") := by
    cases theme <;> exact ⟨by decide, .inr ⟨_, rfl⟩⟩
  have hspan : tint theme language before line = span ("color:" ++ foreground theme ++ ";") (escapeCode line) [] := by
    unfold tint span
    simp only [List.append_assoc, List.append_nil]
    rfl
  rw [hspan]
  exact .span hstyle (lt_notMem_escapeCode line) .nil

theorem length_colouredFrom (colour : List Text → Text → Text) (before lines : List Text) :
    (colouredFrom colour before lines).length = lines.length := by
  induction lines generalizing before with
  | nil => rfl
  | cons line lines ih => rw [colouredFrom, List.length_cons, ih, List.length_cons]

theorem isBare_of_mem_colouredFrom {colour : List Text → Text → Text}
    (hcolour : ∀ before line, IsColoured (colour before line)) {before lines : List Text} :
    ∀ line ∈ colouredFrom colour before lines, IsBare line := by
  induction lines generalizing before with
  | nil => exact nofun
  | cons line lines ih => exact List.forall_mem_cons.mpr ⟨isBare_colouredLine (hcolour before line), ih⟩

/-- Code without a grammar is coloured line by line as other code. -/
theorem tinted_eq_coloured (theme : Theme) : tinted theme = coloured (tint theme) := by
  have hlines : ∀ (language : Text) (before lines : List Text),
      lines.map (tintLine theme) = colouredFrom (tint theme language) before lines := by
    intro language before lines
    induction lines generalizing before with
    | nil => rfl
    | cons line lines ih => exact congrArg _ (ih (before ++ [line]))
  funext code language format o
  cases format with
  | html => exact congrArg (htmlBlock · language o) (hlines language [] _)
  | markup => rfl

theorem length_linesWithEnds (code : Text) : (Text.linesWithEnds code).length = (Text.lines code).length := by
  simp [Text.linesWithEnds, Text.lines]

/-- The rows hold the lines in their order, each with the number and the mark that is asked for. -/
structure IsPlaced (o : Options) (lines : List Text) (rows : List Row) : Prop where
  lines_eq : rows.map Row.line = lines
  numbers_eq : rows.map Row.number =
    if o.isNumbered then (List.range' 1 lines.length).map fun n => some (Text.ofNat n)
    else List.replicate lines.length none
  isMarked_iff : ∀ i row, rows[i]? = some row → (row.isMarked = true ↔ ∃ n ∈ o.markedLines, n.toNat = i + 1)

/-- A block shows all of its lines, and marks just those that are asked for. -/
structure MarksRequested (code : Text) (o : Options) (lines : List Text) (html : Text) : Prop where
  /-- The check on the code is one on the lines that are rendered. -/
  inRange_iff : o.outOfRange? (Text.lines code).length = none ↔
    ∀ n ∈ o.markedLines, 1 ≤ n.toNat ∧ n.toNat ≤ lines.length
  isPlaced : ∃ rows, readBlock? html = some rows ∧ IsPlaced o lines rows
  /-- No line that is asked for is passed over. -/
  isMarked : o.outOfRange? (Text.lines code).length = none →
    ∀ n ∈ o.markedLines, ∃ rows row, readBlock? html = some rows ∧ rows[n.toNat - 1]? = some row ∧ row.isMarked = true

theorem outOfRange?_eq_none_iff (o : Options) (available : Nat) :
    o.outOfRange? available = none ↔ ∀ n ∈ o.markedLines, 1 ≤ n.toNat ∧ n.toNat ≤ available := by
  rw [Options.outOfRange?, List.find?_eq_none]
  refine forall₂_congr fun n _ => ?_
  rw [Bool.or_eq_true, not_or, beq_iff_eq, decide_eq_true_eq, not_lt, ← UInt32.toNat_inj, UInt32.toNat_zero,
    Nat.one_le_iff_ne_zero]

theorem toNat_mem_iff {number : Nat} (hnumber : number < 2 ^ 32) (marked : List UInt32) :
    UInt32.ofNat number ∈ marked ↔ ∃ n ∈ marked, n.toNat = number := by
  have hback : (UInt32.ofNat number).toNat = number := UInt32.toNat_ofNat_of_lt' hnumber
  constructor
  · exact fun h => ⟨_, h, hback⟩
  · rintro ⟨n, hn, rfl⟩
    rwa [UInt32.ofNat_toNat]

theorem map_number_placedRows (o : Options) {number : Nat} {lines : List Text}
    (hlength : number + lines.length ≤ 2 ^ 32) :
    (placedRows o number lines).map Row.number =
      if o.isNumbered then (List.range' number lines.length).map fun n => some (Text.ofNat n)
      else List.replicate lines.length none := by
  induction lines generalizing number with
  | nil => cases h : o.isNumbered <;> rfl
  | cons line lines ih =>
      rw [List.length_cons] at hlength
      have hback : (UInt32.ofNat number).toNat = number := UInt32.toNat_ofNat_of_lt' (by omega : number < 2 ^ 32)
      rw [placedRows, List.map_cons, ih (by omega), placedRow, hback]
      cases h : o.isNumbered <;> rfl

theorem isPlaced_placedRows (o : Options) {lines : List Text} (hlength : lines.length < 2 ^ 32) :
    IsPlaced o lines (placedRows o 1 lines) := by
  refine ⟨map_line_placedRows o 1 lines, map_number_placedRows o (by omega), fun i row hrow => ?_⟩
  rw [getElem?_placedRows, Option.map_eq_some_iff] at hrow
  obtain ⟨line, hline, rfl⟩ := hrow
  have hi : i < lines.length := (List.getElem?_eq_some_iff.mp hline).1
  rw [placedRow, decide_eq_true_eq, Nat.add_comm 1 i, toNat_mem_iff (by omega)]

/-- A block of bare lines, as many as the code has, marks the lines that are asked for. -/
theorem marksRequested_htmlBlock {code : Text} {lines : List Text} (hcode : (Text.lines code).length < 2 ^ 32)
    (hlength : lines.length = (Text.lines code).length) (hlines : ∀ line ∈ lines, IsBare line) (language : Text)
    (o : Options) : MarksRequested code o lines (htmlBlock lines language o) := by
  have hread := readBlock?_htmlBlock hlines language o
  have hrange := outOfRange?_eq_none_iff o (Text.lines code).length
  refine ⟨hlength ▸ hrange, ⟨_, hread, isPlaced_placedRows o (hlength ▸ hcode)⟩, fun hnone n hn => ?_⟩
  obtain ⟨hpos, hle⟩ := hrange.mp hnone n hn
  obtain ⟨line, hline⟩ : ∃ line, lines[n.toNat - 1]? = some line :=
    ⟨_, List.getElem?_eq_getElem (by omega : n.toNat - 1 < lines.length)⟩
  refine ⟨_, placedRow o n line, hread, ?_, decide_eq_true hn⟩
  rw [getElem?_placedRows, hline, Nat.add_sub_cancel' hpos, UInt32.ofNat_toNat]
  rfl

/-- Whether code is only escaped or coloured, its block has as many lines as are counted for the check, and marks the
lines that are asked for.  What a library colours comes as spans of styles. -/
theorem marksRequested {colour : (language : Text) → List Text → Text → Text} {language : Text}
    (hcolour : ∀ before line, IsColoured (colour language before line)) {code : Text}
    (hcode : (Text.lines code).length < 2 ^ 32) (o : Options) :
    MarksRequested code o (plainLines code) (plain code language .html o) ∧
      MarksRequested code o (colouredLines (colour language) code) (coloured colour code language .html o) := by
  constructor
  · refine marksRequested_htmlBlock hcode (List.length_map ..) (fun line hline => ?_) language o
    obtain ⟨raw, hraw, rfl⟩ := List.mem_map.mp hline
    exact isBare_escapeText (Text.lineFeed_notMem_of_mem_lines hraw)
  · refine marksRequested_htmlBlock hcode ?_ (isBare_of_mem_colouredFrom hcolour) language o
    exact (length_colouredFrom _ _ _).trans (length_linesWithEnds code)

end Highlight

namespace MarkedLines

open Highlight

/-- Three lines, with carriage returns, of which the second is empty. -/
def code : Text := "if a < b\r\n\r\nend\n"

/-- Both highlighters mark the empty line. -/
theorem marksRequested_tinted :
    (∀ before line, IsColoured (tint .light "text" before line)) ∧ (Text.lines code).length = 3 ∧
      Options.outOfRange? ⟨[2], true⟩ 3 = none ∧
        MarksRequested code ⟨[2], true⟩ (plainLines code) (plain code "text" .html ⟨[2], true⟩) ∧
          MarksRequested code ⟨[2], true⟩ (colouredLines (tint .light "text") code)
            (tinted .light code "text" .html ⟨[2], true⟩) := by
  have hlength : (Text.lines code).length = 3 := by decide
  rw [tinted_eq_coloured]
  exact ⟨isColoured_tint .light "text", hlength, by decide,
    marksRequested (isColoured_tint .light "text") (by rw [hlength]; decide) ⟨[2], true⟩⟩

end MarkedLines

end Manuscript
