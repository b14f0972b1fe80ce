import Manuscript.Proofs.Html.Layout
import Manuscript.Proofs.Html.Outline

/-!
The steps and pieces that a document is written as.

Main statements: the steps of blocks write the blocks (`writes_blocksSteps`), and so a document is written as its pieces
(`html_eq_written`).
-/

namespace Manuscript

namespace Html

/-- The HTML that the text of a code block is. -/
structure Code where
  pieces : Text → List Piece
  written_pieces : ∀ t, written (pieces t) = t

/-- Characters that are not escaped. -/
def Code.raw : Code := ⟨Html.raw, written_raw⟩

/-- What is needed besides the document to write it as pieces. -/
structure Sheet where
  words : Words
  /-- The headings of the outline with their titles. -/
  outline : Option (List (OutlineEntry × List Piece))
  code : Code

/-- Both say the same. -/
structure Sheet.Fits (w : Sheet) (s : Setting) : Prop where
  words_eq : w.words = s.words
  outline_eq : w.outline.map (fun entries => written (Outline.pieces entries)) = s.outline.map Outline.html
  /-- The outline holds no markup but the writer's. -/
  isFormed : ∀ entries, w.outline = some entries → (Outline.pieces entries).all Piece.isFormed = true

/-- The number of a heading with the word for a chapter. -/
def badgePieces (words : Words) (level : Level) (number : Option Text) : List Piece :=
  match number with
  | none => []
  | some number =>
    wrap "span" [("class", "number")] (shown (if level = .chapter then words.chapterBadge number else number)) ++
      [.char false ' ']

/-- The heading of a chapter or section, which links to itself. -/
def headingPieces (words : Words) (level : Level) (a : Attrs) (number : Option Text) (children : List Node) :
    List Piece :=
  wrap (headingTag level) []
    (wrap "a" [("href", '#' :: a.id.getD []), ("class", "heading")]
      (badgePieces words level number ++ headingTitlePieces children))

/-- A caption with what stands before its text. -/
def captionPieces (header : List Piece) (children : List Node) : List Piece :=
  wrap "div" [("class", "caption")] (header ++ wrap "span" [("class", "description")] (inlinesPieces .body children))

/-- The word and number of a float, before its caption. -/
def captionHeaderPieces (words : Words) (kind : FloatKind) (number : Option Text) : List Piece :=
  match number with
  | some number =>
    wrap "span" [("class", "header")] (shown (words.floatWord kind) ++ [.char false ' '] ++ raw number)
  | none => []

/-- The number after an equation. -/
def equationNumberSteps (kind : FloatKind) (number : Option Text) : List Step :=
  match kind, number with
  | .equation, some number =>
    [.line (wrap "div" [("class", "equation_number")] ([.char false '('] ++ raw number ++ [.char false ')']))]
  | _, _ => []

/-- The content of a footnote: its paragraphs follow one another. -/
def noteContentPieces (children : List Node) : List Piece :=
  children.flatMap fun child =>
    if child.kind = .paragraph then inlinesPieces .body child.children else inlinePieces .body child

/-- The link from a footnote's text to its origin. -/
def arrowPieces (mark : Mark) : List Piece :=
  wrap "a" [("class", "arrow"), ("href", '#' :: mark.originId)] [.char false '↑']

/-- A footnote in its list. -/
def notePieces (isMarked : Bool) (mark : Mark) (children : List Node) : List Piece :=
  wrap "li" [("id", mark.noteId)]
    ((if isMarked then wrap "sup" [] (shown mark.display) ++ [.char false ' '] else []) ++
      trimPieces (noteContentPieces children) ++ [.char false ' '] ++ arrowPieces mark)

/-- The footnotes of a chapter. -/
def footnoteListSteps (chapter : UInt32) (children : List Node) : List Step :=
  let isMarked := children.any isSymbolNote
  let notes := children.flatMap fun child =>
    match child.kind with
    | .footnoteItem mark => [Step.line (notePieces isMarked mark child.children)]
    | _ => []
  elementSteps "div" [("id", "cha-" ++ Text.ofNat chapter.toNat ++ "_footnotes"), ("class", "footnotes")]
    (elementSteps "ol" [("class", if isMarked then ("footnotes nonumbers" : Text) else ("footnotes" : Text))] notes)

/-- A line, unless there is nothing but blanks to show. -/
def lineStepUnlessBlank (content ps : List Piece) : List Step :=
  if content.all Piece.isBlank then [] else [.line ps]

/-- An item of a list, given its children as blocks. -/
def itemStepsOf (children : List Node) (asBlocks : List Step) : List Step :=
  if children.any isBlock then elementSteps "li" [] asBlocks
  else [.line (wrap "li" [] (trimPieces (inlinesPieces .body children)))]

/-- The outline, each of its lines indented. -/
def outlineSteps (outline : Option (List (OutlineEntry × List Piece))) : List Step :=
  match outline with
  | some entries => [.lines (Outline.pieces entries)]
  | none => []

mutual

/-- A node as a block. -/
def blockSteps (w : Sheet) : Node → List Step
  | ⟨kind, a, number, children⟩ =>
    match kind with
    | .document => blocksSteps w children
    | .frontmatter => elementSteps "div" [("id", "frontmatter")] (blocksSteps w children)
    | .mainmatter => elementSteps "div" [("id", "mainmatter")] (blocksSteps w children)
    | .heading level =>
      elementSteps "div" (attributesOf a (some level.name))
        ([.line (headingPieces w.words level a number children)] ++ blocksSteps w children)
    | .float kind =>
      elementSteps "div" (attributesOf a (some kind.name))
        (floatSteps w (captionHeaderPieces w.words kind number) children ++ equationNumberSteps kind number)
    | .title | .footnoteItem _ => []
    | .caption => [.line (captionPieces [] children)]
    | .paragraph =>
      let content := inlinesPieces .body children
      lineStepUnlessBlank content (wrap "p" (attributesOf a none) content)
    | .verbatim =>
      [.line (wrap "pre" [("class", "verbatim")] (shown (Text.trimChar '\n' (Node.plainTexts children))))]
    | .codeBlock =>
      elementSteps "div" (attributesOf a (some "code"))
        [.line (w.code.pieces (Text.trimChar '\n' (Node.plainTexts children)))]
    | .displayMath => [.line (wrap "div" [("class", "equation")] (trimPieces (inlinesPieces .body children)))]
    | .list isOrdered =>
      elementSteps (if isOrdered then ("ol" : Text) else ("ul" : Text)) (attributesOf a none) (itemsSteps w children)
    | .item => itemStepsOf children (blocksSteps w children)
    | .tableOfContents => outlineSteps w.outline
    | .footnoteList chapter => footnoteListSteps chapter children
    | kind =>
      let content := inlinePieces .body ⟨kind, a, number, children⟩
      lineStepUnlessBlank content content

/-- Nodes as blocks. -/
def blocksSteps (w : Sheet) : List Node → List Step
  | [] => []
  | node :: rest => blockSteps w node ++ blocksSteps w rest

/-- The contents of a float, whose captions have its number before them. -/
def floatSteps (w : Sheet) (header : List Piece) : List Node → List Step
  | [] => []
  | node :: rest =>
    let first := if node.kind = .caption then [.line (captionPieces header node.children)] else blockSteps w node
    first ++ floatSteps w header rest

/-- A node as an item of a list. -/
def itemSteps (w : Sheet) : Node → List Step
  | ⟨_, _, _, children⟩ => itemStepsOf children (blocksSteps w children)

/-- Nodes as items of a list. -/
def itemsSteps (w : Sheet) : List Node → List Step
  | [] => []
  | node :: rest => itemSteps w node ++ itemsSteps w rest

end

variable {w : Sheet} {s : Setting}

theorem written_badgePieces (words : Words) (level : Level) (number : Option Text) :
    written (badgePieces words level number) =
      match number with
      | none => []
      | some number =>
        "<span class=\"number\">" ++
          escapeText (if level = .chapter then words.chapterBadge number else number) ++ "</span> " := by
  cases number with
  | none => rfl
  | some number =>
      dsimp only [badgePieces]
      rw [written_append, written_wrap, written_shown, List.flatMap_singleton,
        writeAttribute_of_plain (v := "number") (by decide)]
      simp [Piece.write, textCharacter]

theorem written_headingPieces (h : w.words = s.words) (level : Level) (a : Attrs) (number : Option Text)
    (children : List Node) :
    written (headingPieces w.words level a number children) = heading s level a number children := by
  have hlink : written (wrap "a" [("href", '#' :: a.id.getD []), ("class", "heading")]
      (badgePieces w.words level number ++ headingTitlePieces children)) =
      "<a href=\"#" ++ escapeAttribute (a.id.getD []) ++ "\" class=\"heading\">" ++
        (written (badgePieces w.words level number) ++ headingTitle children) ++ "</a>" := by
    refine written_wrap_eq ?_ (by rw [written_append, written_headingTitlePieces]) (by decide)
    simp only [List.flatMap_cons, List.flatMap_nil, writeAttribute_local,
      writeAttribute_of_plain (v := "heading") (by decide)]
    simp
  have hheading : heading s level a number children =
      "<" ++ headingTag level ++ "><a href=\"#" ++ escapeAttribute (a.id.getD []) ++ "\" class=\"heading\">" ++
        written (badgePieces w.words level number) ++ headingTitle children ++ "</a></" ++ headingTag level ++ ">" := by
    rw [written_badgePieces, h]
    rfl
  rw [headingPieces, written_wrap, hlink, hheading]
  simp

theorem written_captionPieces {header : List Piece} {t : Text} (h : written header = t) (children : List Node) :
    written (captionPieces header children) = caption t children := by
  have hdescription : written (wrap "span" [("class", "description")] (inlinesPieces .body children)) =
      "<span class=\"description\">" ++ inlines .body children ++ "</span>" :=
    written_wrap_eq (by decide) (written_inlinesPieces .body children) (by decide)
  change written (wrap "div" [("class", "caption")] _) =
    "<div class=\"caption\">" ++ t ++ "<span class=\"description\">" ++ inlines .body children ++ "</span></div>"
  rw [written_wrap, written_append, h, hdescription, List.flatMap_singleton,
    writeAttribute_of_plain (v := "caption") (by decide)]
  simp

theorem written_captionHeaderPieces (h : w.words = s.words) (kind : FloatKind) (number : Option Text) :
    written (captionHeaderPieces w.words kind number) = captionHeader s kind number := by
  cases number with
  | none => rfl
  | some number =>
      change written (wrap "span" [("class", "header")] _) =
        "<span class=\"header\">" ++ escapeText (s.words.floatWord kind) ++ " " ++ number ++ "</span>"
      rw [written_wrap, written_append, written_append, written_shown, written_raw, List.flatMap_singleton,
        writeAttribute_of_plain (v := "header") (by decide), h]
      simp [Piece.write, textCharacter]

theorem writes_equationNumberSteps (kind : FloatKind) (number : Option Text) :
    Writes (equationNumberSteps kind number) fun indent => equationNumber indent kind number := by
  cases number with
  | none => cases kind <;> exact Writes.nil
  | some number =>
      cases kind with
      | equation =>
          refine Writes.line (t := "<div class=\"equation_number\">(" ++ number ++ ")</div>") ?_
          rw [written_wrap, written_append, written_append, written_raw, List.flatMap_singleton,
            writeAttribute_of_plain (v := "equation_number") (by decide)]
          simp [Piece.write, textCharacter]
      | _ => exact Writes.nil

theorem written_noteContentPieces (children : List Node) :
    written (noteContentPieces children) = noteContent children := by
  rw [noteContentPieces, written_flatMap, noteContent]
  refine List.flatMap_congr fun child _ => ?_
  split
  · exact written_inlinesPieces .body child.children
  · exact written_inlinePieces .body child

theorem written_notePieces (isMarked : Bool) (mark : Mark) (children : List Node) :
    written (notePieces isMarked mark children) = noteLine isMarked mark children := by
  have hshown : written (if isMarked then wrap "sup" [] (shown mark.display) ++ [.char false ' '] else []) =
      if isMarked then "<sup>" ++ escapeText mark.display ++ "</sup> " else [] := by
    cases isMarked with
    | false => rfl
    | true =>
        simp only [if_true, written_append, written_wrap, written_shown]
        simp [Piece.write, textCharacter]
  have harrow : written (arrowPieces mark) = "<a class=\"arrow\" href=\"#" ++ mark.originId ++ "\">↑</a>" := by
    rw [arrowPieces, written_wrap, List.flatMap_cons, List.flatMap_singleton, writeAttribute_local,
      (length_escapeAttribute mark.originId).2.2 (any_isSpecial_originId mark),
      writeAttribute_of_plain (v := "arrow") (by decide)]
    simp [Piece.write, textCharacter]
  change written (wrap "li" [("id", mark.noteId)] _) = "<li id=\"" ++ mark.noteId ++ "\">" ++
    (if isMarked then "<sup>" ++ escapeText mark.display ++ "</sup> " else []) ++ Text.trim (noteContent children) ++
      " <a class=\"arrow\" href=\"#" ++ mark.originId ++ "\">↑</a></li>"
  rw [written_wrap, written_append, written_append, written_append, hshown, ← trim_written, written_noteContentPieces,
    harrow, List.flatMap_singleton, writeAttribute_of_plain (any_isSpecial_noteId mark)]
  generalize (if isMarked then "<sup>" ++ escapeText mark.display ++ "</sup> " else [] : Text) = marked
  generalize Text.trim (noteContent children) = content
  simp [Piece.write, textCharacter]

theorem any_isSpecial_listId (chapter : UInt32) :
    ("cha-" ++ Text.ofNat chapter.toNat ++ "_footnotes" : Text).any isSpecial = false := by
  have hstart : ("cha-" : Text).any isSpecial = false := by decide
  have hend : ("_footnotes" : Text).any isSpecial = false := by decide
  rw [List.any_append, List.any_append, hstart, hend, any_isSpecial_ofNat]
  rfl

theorem writes_footnoteListSteps (chapter : UInt32) (children : List Node) :
    Writes (footnoteListSteps chapter children) fun indent => footnoteList indent chapter children := by
  have hattributes : [(("id" : Text), ("cha-" ++ Text.ofNat chapter.toNat ++ "_footnotes" : Text)),
      ("class", "footnotes")].flatMap (writeAttribute false) =
        " id=\"cha-" ++ Text.ofNat chapter.toNat ++ "_footnotes\" class=\"footnotes\"" := by
    rw [List.flatMap_cons, List.flatMap_singleton, writeAttribute_of_plain (any_isSpecial_listId chapter),
      writeAttribute_of_plain (v := "footnotes") (by decide)]
    simp
  have hclass : ∀ isMarked : Bool, [(("class" : Text),
      if isMarked then ("footnotes nonumbers" : Text) else ("footnotes" : Text))].flatMap (writeAttribute false) =
        " class=\"" ++ (if isMarked then "footnotes nonumbers" else "footnotes" : Text) ++ "\"" := by
    decide
  have hnotes : ∀ isMarked : Bool, Writes (children.flatMap fun child => match child.kind with
        | .footnoteItem mark => [Step.line (notePieces isMarked mark child.children)]
        | _ => [])
      fun indent => children.flatMap fun child => match child.kind with
        | .footnoteItem mark => line indent (noteLine isMarked mark child.children)
        | _ => [] := by
    intro isMarked
    refine Writes.flatMap (fun child => ?_) children
    obtain ⟨kind, a, number, content⟩ := child
    cases kind with
    | footnoteItem mark => exact Writes.line (written_notePieces isMarked mark content)
    | _ => exact Writes.nil
  exact Writes.element hattributes
    (Writes.element (hclass (children.any isSymbolNote)) (hnotes (children.any isSymbolNote)))

theorem writes_lineStepUnlessBlank (content : List Piece) {ps : List Piece} {t : Text} (h : written ps = t) :
    Writes (lineStepUnlessBlank content ps) fun indent => lineUnlessBlank indent (written content) t := by
  unfold lineStepUnlessBlank lineUnlessBlank
  rw [isBlankOnly_written]
  split
  · exact Writes.nil
  · exact Writes.line h

theorem writes_itemStepsOf (children : List Node) {steps : List Step} {t : Nat → Text} (h : Writes steps t) :
    Writes (itemStepsOf children steps) fun indent => itemLines indent children (t (indent + 1)) := by
  unfold itemStepsOf itemLines
  split
  · exact Writes.element rfl h
  · refine Writes.line (written_wrap_eq (by decide) ?_ (by decide))
    rw [← trim_written, written_inlinesPieces]

theorem writes_outlineSteps (h : w.Fits s) :
    Writes (outlineSteps w.outline) fun indent => outlineLines indent s.outline := by
  obtain ⟨-, houtline, hformed⟩ := h
  cases hentries : w.outline with
  | none =>
      rw [hentries] at houtline
      rw [Option.map_eq_none_iff.mp houtline.symm]
      exact Writes.nil
  | some entries =>
      rw [hentries] at houtline
      obtain ⟨o, ho, hwritten⟩ := Option.map_eq_some_iff.mp houtline.symm
      rw [ho]
      dsimp only [outlineSteps, outlineLines]
      rw [hwritten]
      have hwrap := written_wrap "div" [("id", "table_of_contents")] (.char false '\n' :: Outline.itemsPieces 0 entries)
      refine Writes.lines (hformed entries hentries) ?_ ?_
      · rw [Outline.pieces, hwrap]
        simp
      · rw [Outline.pieces, hwrap, List.getLast?_append]
        exact fun heq => absurd (Option.some.inj heq) (by decide)

/-- The steps of blocks write the blocks. -/
theorem writes_blocksSteps (h : w.Fits s) (l : List Node) :
    Writes (blocksSteps w l) (fun indent => blocks s indent l) ∧
      (∀ header t, written header = t → Writes (floatSteps w header l) fun indent => floatBlocks s indent t l) ∧
        Writes (itemsSteps w l) (fun indent => items s indent l) := by
  induction l using Forest.induction with
  | nil => exact ⟨Writes.nil, fun _ _ _ => Writes.nil, Writes.nil⟩
  | cons n rest ihChildren ihRest =>
      obtain ⟨hchildren, hfloat, hitems⟩ := ihChildren
      obtain ⟨hrest, hrestFloat, hrestItems⟩ := ihRest
      obtain ⟨kind, a, number, children⟩ := n
      have hblock : Writes (blockSteps w ⟨kind, a, number, children⟩)
          fun indent => block s indent ⟨kind, a, number, children⟩ := by
        have hinline : Writes (lineStepUnlessBlank (inlinePieces .body ⟨kind, a, number, children⟩)
            (inlinePieces .body ⟨kind, a, number, children⟩)) fun indent =>
              lineUnlessBlank indent (inline .body ⟨kind, a, number, children⟩)
                (inline .body ⟨kind, a, number, children⟩) := by
          have hwritten := writes_lineStepUnlessBlank (inlinePieces .body ⟨kind, a, number, children⟩)
            (written_inlinePieces .body ⟨kind, a, number, children⟩)
          rwa [written_inlinePieces] at hwritten
        cases kind with
        | document => exact hchildren
        | frontmatter => exact Writes.element (by decide) hchildren
        | mainmatter => exact Writes.element (by decide) hchildren
        | heading level =>
            exact Writes.element (attrs_eq a _).symm
              ((Writes.line (written_headingPieces h.words_eq level a number children)).append hchildren)
        | float kind =>
            exact Writes.element (attrs_eq a _).symm
              ((hfloat _ _ (written_captionHeaderPieces h.words_eq kind number)).append
                (writes_equationNumberSteps kind number))
        | title | footnoteItem mark => exact Writes.nil
        | caption => exact Writes.line (written_captionPieces written_nil children)
        | paragraph =>
            have hparagraph : written (wrap "p" (attributesOf a none) (inlinesPieces .body children)) =
                "<p" ++ attrs a none ++ ">" ++ inlines .body children ++ "</p>" := by
              refine written_wrap_eq ?_ (written_inlinesPieces .body children) (by decide)
              rw [attrs_eq]
              simp
            have hwritten := writes_lineStepUnlessBlank (inlinesPieces .body children) hparagraph
            rw [written_inlinesPieces] at hwritten
            exact hwritten
        | verbatim => exact Writes.line (written_wrap_eq (by decide) (written_shown _) (by decide))
        | codeBlock => exact Writes.element (attrs_eq a _).symm (Writes.line (w.code.written_pieces _))
        | displayMath =>
            refine Writes.line (written_wrap_eq (by decide) ?_ (by decide))
            rw [← trim_written, written_inlinesPieces]
        | list isOrdered =>
            cases isOrdered <;> exact Writes.element (attrs_eq a _).symm hitems
        | item => exact writes_itemStepsOf children hchildren
        | tableOfContents => exact writes_outlineSteps h
        | footnoteList chapter => exact writes_footnoteListSteps chapter children
        | _ => exact hinline
      refine ⟨hblock.append hrest, fun header t hheader => ?_, ?_⟩
      · refine Writes.append ?_ (hrestFloat header t hheader)
        by_cases hcaption : kind = .caption
        · simp only [if_pos hcaption]
          exact Writes.line (written_captionPieces hheader children)
        · simp only [if_neg hcaption]
          exact hblock
      · exact (writes_itemStepsOf children hchildren).append hrestItems

end Html

/-- The setting in which a document is written with its own outline, as that of an article or not, or with none. -/
def Document.setting (d : Document) (words : Words) (outline : Option Bool) : Html.Setting :=
  ⟨words, outline.map fun isArticle => d.outline isArticle⟩

/-- The same with the pieces of the outline. -/
def Document.sheet (d : Document) (words : Words) (outline : Option Bool) (code : Html.Code) : Html.Sheet :=
  ⟨words, outline.map fun isArticle => Outline.headings isArticle d.children, code⟩

/-- The steps that a document is written as. -/
def Document.steps (d : Document) (w : Html.Sheet) : List Html.Step := Html.blocksSteps w d.children

/-- The pieces that a document is written as, without the line feed at the end. -/
def Document.pieces (d : Document) (w : Html.Sheet) : List Html.Piece := (Html.laidOut 0 (d.steps w)).dropLast

theorem Document.filterMap_pieces {α : Type} {f : Html.Piece → Option α} (hf : ∀ isRaw c, f (.char isRaw c) = none)
    (d : Document) (w : Html.Sheet) : (d.pieces w).filterMap f = (Html.laidOut 0 (d.steps w)).filterMap f := by
  rw [Document.pieces]
  by_cases hne : d.steps w = []
  · rw [hne]
    rfl
  · obtain ⟨init, heq⟩ := Html.exists_laidOut_eq_concat 0 hne
    have hfeed : [Html.Piece.char false '\n'].filterMap f = [] := List.filterMap_cons_none (hf false '\n')
    rw [heq, List.dropLast_concat, List.filterMap_append, hfeed, List.append_nil]

/-- A document is written as its pieces. -/
theorem Document.html_eq_written (d : Document) {w : Html.Sheet} {s : Html.Setting} (h : w.Fits s) :
    d.html s = Html.written (d.pieces w) := by
  have hwritten : Html.written (Html.laidOut 0 (d.steps w)) = Html.blocks s 0 d.children :=
    (Html.writes_blocksSteps h d.children).1.written_eq 0
  rw [Document.html, ← hwritten, Document.pieces]
  by_cases hne : d.steps w = []
  · rw [hne]
    rfl
  · obtain ⟨init, heq⟩ := Html.exists_laidOut_eq_concat 0 hne
    rw [heq, List.dropLast_concat, Html.written_append]
    have hfeed : Html.written [.char false '\n'] = "\n" := by decide
    rw [hfeed]
    simp [Text.before?, Text.after?]

end Manuscript
