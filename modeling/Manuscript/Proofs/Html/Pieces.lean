import Manuscript.Proofs.Html.Body
import Manuscript.Proofs.Html.Shown

/-!
What is true of all that a document is written as.  A property that goes through where pieces are put together is one of
the whole document, if the few strings that are written without escapes and the outline have it.  It may speak of the
footnotes that are shown.

Main statement: `Composes.laid_blocksSteps`.
-/

namespace Manuscript.Html

theorem map_fst_attributesOf_sublist (a : Attrs) (base : Option Text) :
    ((attributesOf a base).map Prod.fst).Sublist ["id", "class"] := by
  rw [attributesOf, List.map_append]
  have hid : (((a.id.map fun id => (("id" : Text), id)).toList).map Prod.fst).Sublist [("id" : Text)] := by
    cases a.id with
    | none => exact List.nil_sublist _
    | some id => exact List.Sublist.refl _
  refine hid.append ?_
  split
  · exact List.nil_sublist _
  · exact List.Sublist.refl _

theorem isFormed_of_sublist {name : Text} (hname : isName name = true) {attributes : List (Text × Text)}
    (names : List Text) (hsublist : (attributes.map Prod.fst).Sublist names)
    (hnames : names.all isName = true ∧ names.Nodup) :
    (Piece.opens false ⟨name, attributes, false⟩).isFormed = true := by
  have hall : attributes.all (fun a => isName a.1) = true := by
    rw [List.all_eq_true] at hnames ⊢
    exact fun a ha => hnames.1 a.1 (hsublist.subset (List.mem_map_of_mem ha))
  simp only [Piece.isFormed, hname, hall, Bool.and_self, Bool.true_and, decide_eq_true_eq]
  exact hsublist.nodup hnames.2

/-- The elements that may stand anywhere, with an id and classes. -/
def plainNames : List Text := ["em", "strong", "code", "span", "div", "p", "pre", "ol", "ul"]

/-- The elements that are written around some pieces, besides those of headings and footnotes. -/
inductive IsWrapper : Place → Text → List (Text × Text) → Prop
  | plain {place : Place} {name : Text} {attributes : List (Text × Text)} (h : name ∈ plainNames)
    (hattributes : (attributes.map Prod.fst).Sublist ["id", "class"]) : IsWrapper place name attributes
  | link {href : Text} {attributes : List (Text × Text)}
    (hattributes : (attributes.map Prod.fst).Sublist ["id", "class"]) : IsWrapper .body "a" (("href", href) :: attributes)
  | item {place : Place} : IsWrapper place "li" []
  | sup {place : Place} : IsWrapper place "sup" []

theorem IsWrapper.isFormed {place : Place} {name : Text} {attributes : List (Text × Text)}
    (h : IsWrapper place name attributes) : (Piece.opens false ⟨name, attributes, false⟩).isFormed = true := by
  have hnames : ∀ name ∈ plainNames, isName name = true := by decide
  cases h with
  | plain h hattributes => exact isFormed_of_sublist (hnames name h) _ hattributes (by decide)
  | link hattributes => exact isFormed_of_sublist (by decide) ["href", "id", "class"] (hattributes.cons_cons _) (by decide)
  | item | sup => decide

/-- A property of pieces and the footnotes that they show, which goes through where pieces are put together. -/
structure Composes (N : Place → List FootnoteEnd → List Piece → Prop) : Prop where
  shown : ∀ place t, N place [] (shown t)
  append : ∀ {place ends more ps qs}, N place ends ps → N place more qs → N place (ends ++ more) (ps ++ qs)
  trim : ∀ {place ends ps}, N place ends ps → N place ends (trimPieces ps)
  /-- Blanks alone show nothing. -/
  blank : ∀ {place ends ps}, N place ends ps → ps.all Piece.isBlank = true → N place ends []
  wrap : ∀ {place ends name attributes content}, IsWrapper place name attributes → N place ends content →
    N place ends (wrap name attributes content)
  /-- A heading is around its link. -/
  heading : ∀ level id {content}, N .heading [] content →
    N .body [] (Html.wrap (headingTag level) [] (Html.wrap "a" [("href", '#' :: id), ("class", "heading")] content))
  lineBreak : ∀ place, N place [] [.opens false ⟨"br", [], true⟩]
  graphic : ∀ place src, N place [] [.opens false ⟨"img", [("src", src), ("alt", src)], true⟩]
  origin : ∀ mark, N .body [.origin mark] (footnotePieces .body (some mark) [])
  note : ∀ mark {ends content}, ends.filterMap FootnoteEnd.note? = [] → N .body ends content →
    N .body (.note mark :: ends) (Html.wrap "li" [("id", mark.noteId)] (content ++ arrowPieces mark))

variable {N : Place → List FootnoteEnd → List Piece → Prop}

namespace Composes

theorem nil (h : Composes N) (place : Place) : N place [] [] := h.shown place []

/-- Text after some pieces. -/
theorem append_shown (h : Composes N) {place : Place} {ends : List FootnoteEnd} {ps : List Piece}
    (hps : N place ends ps) (t : Text) : N place ends (ps ++ Html.shown t) := by
  have happend := h.append hps (h.shown place t)
  rwa [List.append_nil] at happend

theorem flatMap (h : Composes N) {place : Place} {α : Type} {f : α → List Piece} {ends : α → List FootnoteEnd}
    {l : List α} (hl : ∀ a ∈ l, N place (ends a) (f a)) : N place (l.flatMap ends) (l.flatMap f) := by
  induction l with
  | nil => exact h.nil place
  | cons a l ih =>
      obtain ⟨ha, hl⟩ := List.forall_mem_cons.mp hl
      rw [List.flatMap_cons, List.flatMap_cons]
      exact h.append ha (ih hl)

theorem plain (h : Composes N) {place : Place} {ends : List FootnoteEnd} {name : Text}
    {attributes : List (Text × Text)} {content : List Piece} (hname : name ∈ plainNames)
    (hattributes : (attributes.map Prod.fst).Sublist ["id", "class"]) (hcontent : N place ends content) :
    N place ends (Html.wrap name attributes content) :=
  h.wrap (.plain hname hattributes) hcontent

end Composes

/-! Within a line -/

/-- The address that a node shows. -/
def address (n : Node) : Text := Text.trim (Node.plainTexts n.children)

open Forest (inlineEnds noteEnds itemEndsOf blockEnds itemsEnds)

/-- What is written within a line has a property, if addresses have it. -/
theorem Composes.inlinesPieces (h : Composes N) {place : Place} {l : List Node}
    (hurl : ∀ n ∈ Forest.preorder l, n.kind = .url → N place [] (urlPieces place (address n))) :
    N place (inlineEnds place l) (inlinesPieces place l) := by
  induction l using Forest.induction with
  | nil => exact h.nil place
  | cons n rest ihChildren ihRest =>
      simp only [Forest.preorder_cons, List.forall_mem_cons, List.forall_mem_append] at hurl
      obtain ⟨hnode, hchildren, hrest⟩ := hurl
      have hcontent := ihChildren hchildren
      refine h.append ?_ (ihRest hrest)
      obtain ⟨kind, a, number, children⟩ := n
      cases kind with
      | text t => exact h.shown place t
      | emph => exact h.plain (by decide) (by decide) hcontent
      | strong => exact h.plain (by decide) (by decide) hcontent
      | inlineCode => exact h.plain (by decide) (by decide) hcontent
      | inlineMath => exact h.plain (by decide) (by decide) hcontent
      | span => exact h.plain (by decide) (map_fst_attributesOf_sublist a none) hcontent
      | url => exact hnode rfl
      | link href =>
          cases place with
          | body => exact h.wrap (.link (map_fst_attributesOf_sublist a none)) hcontent
          | heading => exact hcontent
      | ref label style target phrase =>
          cases target with
          | none => exact h.plain (by decide) (by decide) (h.shown place label)
          | some target =>
              have hspan : N place []
                  (Html.wrap "span" [("class", "ref")] (Html.shown (refNumber style target.number))) :=
                h.plain (by decide) (by decide) (h.shown place _)
              have hnumber := h.append (h.shown place (phrase.getD [])) hspan
              cases place with
              | heading => exact hnumber
              | body => exact h.wrap (.link (by decide)) hnumber
      | footnote mark =>
          cases place with
          | heading => cases mark <;> exact h.nil .heading
          | body =>
              cases mark with
              | none => exact h.plain (by decide) (by decide) hcontent
              | some mark => exact h.origin mark
      | intersentenceSpace => exact h.plain (by decide) (by decide) (h.nil place)
      | lineBreak => exact h.lineBreak place
      | graphic src => exact h.graphic place src
      | tableOfContents | footnoteList chapter | footnoteItem mark => exact h.nil place
      | _ => exact hcontent

/-- The text of a code block. -/
def codeText (n : Node) : Text := Text.trimChar '\n' (Node.plainTexts n.children)

/-- What is written without escapes has a property, and so has the outline wherever it stands. -/
structure AllowsRaw (N : Place → List FootnoteEnd → List Piece → Prop) (w : Sheet) (l : List Node) : Prop where
  url : ∀ n ∈ Forest.preorder l, n.kind = .url → ∀ place, N place [] (urlPieces place (address n))
  code : ∀ n ∈ Forest.preorder l, n.kind = .codeBlock → N .body [] (w.code.pieces (codeText n))
  number : ∀ n ∈ Forest.preorder l, ∀ number, n.number = some number → N .body [] (raw number)
  outline : ∀ entries, w.outline = some entries → ∀ indent, N .body [] (relayPieces indent (Outline.pieces entries))

namespace AllowsRaw

variable {w : Sheet} {l more : List Node}

theorem of_subset (h : AllowsRaw N w l) (hsubset : Forest.preorder more ⊆ Forest.preorder l) : AllowsRaw N w more :=
  ⟨fun n hn => h.url n (hsubset hn), fun n hn => h.code n (hsubset hn), fun n hn => h.number n (hsubset hn), h.outline⟩

theorem children {n : Node} (h : AllowsRaw N w (n :: l)) : AllowsRaw N w n.children := by
  refine h.of_subset fun m hm => ?_
  rw [Forest.preorder_cons]
  exact List.mem_cons_of_mem n (List.mem_append_left _ hm)

theorem rest {n : Node} (h : AllowsRaw N w (n :: l)) : AllowsRaw N w l := by
  refine h.of_subset fun m hm => ?_
  rw [Forest.preorder_cons]
  exact List.mem_cons_of_mem n (List.mem_append_right _ hm)

theorem inside {n : Node} (h : AllowsRaw N w l) (hn : n ∈ l) : AllowsRaw N w n.children :=
  h.of_subset fun _ hm => Forest.mem_preorder_iff.mpr ⟨n, hn, .inr hm⟩

theorem singleton {n : Node} (h : AllowsRaw N w l) (hn : n ∈ l) : AllowsRaw N w [n] := by
  refine h.of_subset fun m hm => ?_
  obtain ⟨only, honly, hinside⟩ := Forest.mem_preorder_iff.mp hm
  obtain rfl := List.mem_singleton.mp honly
  exact Forest.mem_preorder_iff.mpr ⟨only, hn, hinside⟩

end AllowsRaw

namespace Composes

variable {w : Sheet} {l : List Node}

theorem headingTitlePieces (h : Composes N)
    (hurl : ∀ n ∈ Forest.preorder l, n.kind = .url → N .heading [] (urlPieces .heading (address n))) :
    N .heading [] (headingTitlePieces l) := by
  unfold Html.headingTitlePieces
  cases htitle : Node.title? l with
  | none => exact h.nil .heading
  | some title =>
      have hmem : title ∈ l := List.mem_of_find?_eq_some htitle
      have hinlines : N .heading (inlineEnds .heading title.children) (Html.inlinesPieces .heading title.children) :=
        h.inlinesPieces fun m hm => hurl m (Forest.mem_preorder_iff.mpr ⟨title, hmem, .inr hm⟩)
      rwa [Forest.inlineEnds_heading] at hinlines

theorem headingPieces (h : Composes N) (hraw : AllowsRaw N w l) (level : Level) (a : Attrs) (number : Option Text) :
    N .body [] (headingPieces w.words level a number l) := by
  have hbadge : N .heading [] (badgePieces w.words level number) := by
    cases number with
    | none => exact h.nil .heading
    | some number => exact h.append_shown (h.plain (by decide) (by decide) (h.shown .heading _)) " "
  exact h.heading level _ (h.append hbadge (h.headingTitlePieces fun m hm hkind => hraw.url m hm hkind .heading))

theorem inlines (h : Composes N) (hraw : AllowsRaw N w l) : N .body (inlineEnds .body l) (Html.inlinesPieces .body l) :=
  h.inlinesPieces fun m hm hkind => hraw.url m hm hkind .body

theorem inline (h : Composes N) (hraw : AllowsRaw N w l) {n : Node} (hn : n ∈ l) :
    N .body (n.inlineEnds .body) (inlinePieces .body n) := by
  have hsingleton := h.inlines (hraw.singleton hn)
  rwa [Html.inlinesPieces, Html.inlinesPieces, List.append_nil, inlineEnds, inlineEnds, List.append_nil] at hsingleton

theorem captionPieces (h : Composes N) (hraw : AllowsRaw N w l) {header : List Piece} (hheader : N .body [] header) :
    N .body (inlineEnds .body l) (captionPieces header l) :=
  h.plain (by decide) (by decide) (h.append hheader (h.plain (by decide) (by decide) (h.inlines hraw)))

theorem captionHeaderPieces (h : Composes N) (words : Words) (kind : FloatKind) {number : Option Text}
    (hnumber : ∀ t, number = some t → N .body [] (raw t)) : N .body [] (captionHeaderPieces words kind number) := by
  cases number with
  | none => exact h.nil .body
  | some t =>
      exact h.plain (by decide) (by decide)
        (h.append (h.append (h.shown .body _) (h.shown .body " ")) (hnumber t rfl))

theorem notePieces (h : Composes N) (hraw : AllowsRaw N w l) (isMarked : Bool) (mark : Mark) :
    N .body (.note mark :: inlineEnds .body l) (notePieces isMarked mark l) := by
  have hcontent : N .body (l.flatMap fun child => child.inlineEnds .body) (noteContentPieces l) := by
    refine h.flatMap fun child hchild => ?_
    obtain ⟨kind, a, number, children⟩ := child
    by_cases hkind : kind = .paragraph
    · subst hkind
      exact h.inlines (hraw.inside hchild)
    · rw [if_neg hkind]
      exact h.inline hraw hchild
  have hends : ∀ l : List Node, (l.flatMap fun child => child.inlineEnds .body) = inlineEnds .body l := by
    intro l
    induction l with
    | nil => rfl
    | cons n l ih => rw [List.flatMap_cons, ih, inlineEnds]
  have hshown : N .body []
      (if isMarked then Html.wrap "sup" [] (Html.shown mark.display) ++ [.char false ' '] else []) := by
    split
    · exact h.append_shown (h.wrap .sup (h.shown .body _)) " "
    · exact h.nil .body
  exact h.note mark (Forest.notes_inlineEnds .body l)
    (h.append_shown (h.append hshown (h.trim (hends l ▸ hcontent))) " ")

end Composes

/-! Blocks -/

/-- Steps that come back to where they began, and the pieces of which have a property at any indentation. -/
structure Laid (N : Place → List FootnoteEnd → List Piece → Prop) (ends : List FootnoteEnd) (steps : List Step) :
    Prop where
  isLevel : IsLevel steps
  laidOut : ∀ indent, N .body ends (laidOut indent steps)

namespace Composes

variable {ends more : List FootnoteEnd} {steps steps' : List Step}

theorem linePieces (h : Composes N) (indent : Nat) {ps : List Piece} (hps : N .body ends ps) :
    N .body ends (linePieces indent ps) :=
  h.append_shown (h.append (h.shown .body (spaces indent)) hps) "\n"

theorem laid_nil (h : Composes N) : Laid N [] [] := ⟨.nil, fun _ => h.nil .body⟩

theorem laid_line (h : Composes N) {ps : List Piece} (hps : N .body ends ps) : Laid N ends [.line ps] := by
  refine ⟨.line ps, fun indent => ?_⟩
  rw [Html.laidOut, Html.laidOut, List.append_nil]
  exact h.linePieces indent hps

theorem laid_append (h : Composes N) (hsteps : Laid N ends steps) (hsteps' : Laid N more steps') :
    Laid N (ends ++ more) (steps ++ steps') := by
  refine ⟨hsteps.isLevel.append hsteps'.isLevel, fun indent => ?_⟩
  rw [hsteps.isLevel.laidOut_append]
  exact h.append (hsteps.laidOut indent) (hsteps'.laidOut indent)

theorem laid_element (h : Composes N) {name : Text} {attributes : List (Text × Text)}
    (hwrapper : IsWrapper .body name attributes) (hsteps : Laid N ends steps) :
    Laid N ends (elementSteps name attributes steps) := by
  refine ⟨hsteps.isLevel.element name attributes, fun indent => ?_⟩
  have hwrap : Html.laidOut indent (elementSteps name attributes steps) =
      Html.linePieces indent (Html.wrap name attributes
        (Html.shown "\n" ++ Html.laidOut (indent + 1) steps ++ Html.shown (spaces indent))) := by
    rw [hsteps.isLevel.laidOut_element]
    simp [Html.linePieces, Html.wrap, Html.shown]
  rw [hwrap]
  exact h.linePieces indent (h.wrap hwrapper
    (h.append_shown (h.append (h.shown .body "\n") (hsteps.laidOut (indent + 1))) (spaces indent)))

theorem laid_flatMap (h : Composes N) {α : Type} {f : α → List Step} {ends : α → List FootnoteEnd} {l : List α}
    (hl : ∀ a ∈ l, Laid N (ends a) (f a)) : Laid N (l.flatMap ends) (l.flatMap f) := by
  induction l with
  | nil => exact h.laid_nil
  | cons a l ih =>
      obtain ⟨ha, hl⟩ := List.forall_mem_cons.mp hl
      rw [List.flatMap_cons, List.flatMap_cons]
      exact h.laid_append ha (ih hl)

variable {w : Sheet} {l : List Node}

theorem laid_equationNumberSteps (h : Composes N) (kind : FloatKind) {number : Option Text}
    (hnumber : ∀ t, number = some t → N .body [] (raw t)) : Laid N [] (equationNumberSteps kind number) := by
  cases number with
  | none => cases kind <;> exact h.laid_nil
  | some t =>
      cases kind with
      | equation =>
          refine h.laid_line (h.plain (by decide) (by decide) ?_)
          exact h.append_shown (h.append (h.shown .body "(") (hnumber t rfl)) ")"
      | _ => exact h.laid_nil

theorem laid_footnoteListSteps (h : Composes N) (hraw : AllowsRaw N w l) (chapter : UInt32) :
    Laid N (noteEnds l) (footnoteListSteps chapter l) := by
  refine h.laid_element (.plain (by decide) (.refl _)) (h.laid_element (.plain (by decide) ((List.Sublist.refl _).cons _)) ?_)
  refine h.laid_flatMap fun child hchild => ?_
  have hnote := fun isMarked mark => h.notePieces (hraw.inside hchild) isMarked mark
  obtain ⟨kind, a, number, content⟩ := child
  cases kind with
  | footnoteItem mark => exact h.laid_line (hnote _ mark)
  | _ => exact h.laid_nil

theorem laid_lineStepUnlessBlank (h : Composes N) {content ps : List Piece} (hcontent : N .body ends content)
    (hps : N .body ends ps) : Laid N ends (lineStepUnlessBlank content ps) := by
  unfold lineStepUnlessBlank
  split
  · rename_i hblank
    exact ⟨.nil, fun _ => h.blank hcontent hblank⟩
  · exact h.laid_line hps

theorem laid_itemStepsOf (h : Composes N) (hraw : AllowsRaw N w l) (hsteps : Laid N ends steps) :
    Laid N (itemEndsOf l ends) (itemStepsOf l steps) := by
  unfold itemStepsOf itemEndsOf
  split
  · exact h.laid_element .item hsteps
  · exact h.laid_line (h.wrap .item (h.trim (h.inlines hraw)))

/-- What blocks are written as has a property, if what is written without escapes has it. -/
theorem laid_blocksSteps (h : Composes N) (hraw : AllowsRaw N w l) :
    Laid N (blockEnds l) (blocksSteps w l) ∧
      (∀ header, N .body [] header → Laid N (blockEnds l) (floatSteps w header l)) ∧
        Laid N (itemsEnds l) (itemsSteps w l) := by
  induction l using Forest.induction with
  | nil => exact ⟨h.laid_nil, fun _ _ => h.laid_nil, h.laid_nil⟩
  | cons n rest ihChildren ihRest =>
      obtain ⟨hchildren, hfloat, hitems⟩ := ihChildren hraw.children
      obtain ⟨hrest, hrestFloat, hrestItems⟩ := ihRest hraw.rest
      have hn : n ∈ Forest.preorder (n :: rest) := Forest.mem_preorder_of_mem List.mem_cons_self
      have hinside := h.inlines hraw.children
      have hinline := h.inline hraw (n := n) List.mem_cons_self
      have hitem := h.laid_itemStepsOf hraw.children hchildren
      obtain ⟨kind, a, number, children⟩ := n
      have hblock : Laid N (Node.blockEnds ⟨kind, a, number, children⟩) (blockSteps w ⟨kind, a, number, children⟩) := by
        cases kind with
        | document => exact hchildren
        | frontmatter => exact h.laid_element (.plain (by decide) (by decide)) hchildren
        | mainmatter => exact h.laid_element (.plain (by decide) (by decide)) hchildren
        | heading level =>
            exact h.laid_element (.plain (by decide) (map_fst_attributesOf_sublist a _))
              (h.laid_append (h.laid_line (h.headingPieces hraw.children level a number)) hchildren)
        | float kind =>
            have hnumber := hraw.number _ hn
            have hcontent := h.laid_append (hfloat _ (h.captionHeaderPieces w.words kind hnumber))
              (h.laid_equationNumberSteps kind hnumber)
            rw [List.append_nil] at hcontent
            exact h.laid_element (.plain (by decide) (map_fst_attributesOf_sublist a _)) hcontent
        | title | footnoteItem mark => exact h.laid_nil
        | caption => exact h.laid_line (h.captionPieces hraw.children (h.nil .body))
        | paragraph =>
            exact h.laid_lineStepUnlessBlank hinside
              (h.plain (by decide) (map_fst_attributesOf_sublist a _) hinside)
        | verbatim => exact h.laid_line (h.plain (by decide) (by decide) (h.shown .body _))
        | codeBlock =>
            exact h.laid_element (.plain (by decide) (map_fst_attributesOf_sublist a _))
              (h.laid_line (hraw.code _ hn rfl))
        | displayMath => exact h.laid_line (h.plain (by decide) (by decide) (h.trim hinside))
        | list isOrdered =>
            cases isOrdered <;>
              exact h.laid_element (.plain (by decide) (map_fst_attributesOf_sublist a _)) hitems
        | item => exact hitem
        | tableOfContents =>
            change Laid N [] (outlineSteps w.outline)
            cases houtline : w.outline with
            | none => exact h.laid_nil
            | some entries =>
                refine ⟨.lines _, fun indent => ?_⟩
                rw [outlineSteps, laidOut, laidOut, List.append_nil]
                exact h.linePieces indent (hraw.outline entries houtline indent)
        | footnoteList chapter => exact h.laid_footnoteListSteps hraw.children chapter
        | _ => exact h.laid_lineStepUnlessBlank hinline hinline
      refine ⟨h.laid_append hblock hrest, fun header hheader => ?_, h.laid_append hitem hrestItems⟩
      refine h.laid_append ?_ (hrestFloat header hheader)
      by_cases hcaption : kind = .caption
      · subst hcaption
        exact h.laid_line (h.captionPieces hraw.children hheader)
      · rw [if_neg hcaption]
        exact hblock

end Composes

/-! Properties of single pieces -/

theorem isName_of_isFormed {isRaw : Bool} {tag : Tag} (h : (Piece.opens isRaw tag).isFormed = true) :
    isName tag.name = true := by
  simp only [Piece.isFormed, Bool.and_eq_true] at h
  exact h.1.1

theorem forall_mem_wrap {P : Piece → Prop} {name : Text} {attributes : List (Text × Text)} {content : List Piece}
    (hopens : P (.opens false ⟨name, attributes, false⟩)) (hcontent : ∀ p ∈ content, P p) (hcloses : P (.closes name)) :
    ∀ p ∈ wrap name attributes content, P p := by
  rw [wrap, List.forall_mem_cons, List.forall_mem_append, List.forall_mem_singleton]
  exact ⟨hopens, hcontent, hcloses⟩

/-- The tags that begin no footnote's origin and no footnote's text. -/
inductive IsPlainTag : Tag → Prop
  | wrapper (place : Place) {name : Text} {attributes : List (Text × Text)} (h : IsWrapper place name attributes) :
    IsPlainTag ⟨name, attributes, false⟩
  | lineBreak : IsPlainTag ⟨"br", [], true⟩
  | graphic (src : Text) : IsPlainTag ⟨"img", [("src", src), ("alt", src)], true⟩
  /-- An item of an outline. -/
  | entry {level : Level} : IsPlainTag ⟨"li", [("class", level.name)], false⟩

theorem IsPlainTag.isFormed {tag : Tag} (h : IsPlainTag tag) : (Piece.opens false tag).isFormed = true := by
  cases h with
  | wrapper place h => exact h.isFormed
  | lineBreak | graphic | entry => rfl

/-- A property of pieces that the writer's own plain tags and what it escapes have. -/
structure AdmitsPlain (P : Piece → Prop) : Prop where
  opens : ∀ tag, IsPlainTag tag → P (.opens false tag)
  closes : ∀ tag, IsPlainTag tag → P (.closes tag.name)
  char : ∀ c, P (.char false c)
  relay : ∀ indent isRaw tag, P (.opens isRaw tag) →
    P (.opens isRaw { tag with attributes := tag.attributes.map fun a => (a.1, relay indent a.2) })

variable {P : Piece → Prop}

namespace AdmitsPlain

theorem shown (h : AdmitsPlain P) (t : Text) : ∀ p ∈ shown t, P p := by
  intro p hp
  obtain ⟨c, -, rfl⟩ := List.mem_map.mp hp
  exact h.char c

theorem wrap (h : AdmitsPlain P) {name : Text} {attributes : List (Text × Text)} {content : List Piece}
    (htag : IsPlainTag ⟨name, attributes, false⟩) (hcontent : ∀ p ∈ content, P p) :
    ∀ p ∈ wrap name attributes content, P p :=
  forall_mem_wrap (h.opens _ htag) hcontent (h.closes _ htag)

/-- In titles there are plain tags only. -/
theorem composes_heading (h : AdmitsPlain P) : Composes fun place _ ps => place = .heading → ∀ p ∈ ps, P p where
  shown _ t _ := h.shown t
  append hps hqs hplace := List.forall_mem_append.mpr ⟨hps hplace, hqs hplace⟩
  trim hps hplace p hp := hps hplace p ((trimPieces_sublist _).subset hp)
  blank _ _ _ _ hp := absurd hp List.not_mem_nil
  wrap hwrapper hcontent hplace := h.wrap (.wrapper _ hwrapper) (hcontent hplace)
  heading _ _ _ _ hplace := nomatch hplace
  lineBreak _ _ := List.forall_mem_singleton.mpr (h.opens _ .lineBreak)
  graphic _ src _ := List.forall_mem_singleton.mpr (h.opens _ (.graphic src))
  origin _ hplace := nomatch hplace
  note _ _ _ _ _ hplace := nomatch hplace

theorem relayPieces (h : AdmitsPlain P) (indent : Nat) {ps : List Piece} (hps : ∀ p ∈ ps, P p) :
    ∀ p ∈ relayPieces indent ps, P p := by
  induction ps with
  | nil => exact hps
  | cons p ps ih =>
      obtain ⟨hp, hrest⟩ := List.forall_mem_cons.mp hps
      cases p with
      | opens isRaw tag => exact List.forall_mem_cons.mpr ⟨h.relay indent isRaw tag hp, ih hrest⟩
      | closes name => exact List.forall_mem_cons.mpr ⟨hp, ih hrest⟩
      | char isRaw c =>
          rw [Html.relayPieces]
          split
          · rename_i hfeed
            exact List.forall_mem_cons.mpr ⟨hfeed ▸ hp, List.forall_mem_append.mpr ⟨h.shown _, ih hrest⟩⟩
          · split
            · exact ih hrest
            · exact List.forall_mem_cons.mpr ⟨hp, ih hrest⟩

theorem outlinePieces (h : AdmitsPlain P) {entries : List (OutlineEntry × List Piece)}
    (hentries : ∀ e ∈ entries, (∀ number, e.1.number = some number → ∀ p ∈ raw number, P p) ∧ ∀ p ∈ e.2, P p) :
    ∀ p ∈ Outline.pieces entries, P p := by
  have hfeed : P (.char false '\n') := h.char '\n'
  have hlistTag : IsPlainTag ⟨"ul", [], false⟩ := .wrapper .body (.plain (by decide) (by decide))
  have hitemTag : IsPlainTag ⟨"li", [], false⟩ := .wrapper .body .item
  have hclose : ∀ levels, ∀ p ∈ Outline.closePieces levels, P p := by
    intro levels p hp
    obtain ⟨level, hlevel, hp⟩ := List.mem_flatten.mp hp
    obtain rfl := (List.mem_replicate.mp hlevel).2
    have hall : ∀ p ∈ [Piece.closes "li", .char false '\n', .closes "ul", .char false '\n'], P p := by
      rw [List.forall_mem_cons, List.forall_mem_cons, List.forall_mem_cons, List.forall_mem_singleton]
      exact ⟨h.closes _ hitemTag, hfeed, h.closes _ hlistTag, hfeed⟩
    exact hall p hp
  have hlist : P (.opens false ⟨"ul", [], false⟩) := h.opens _ hlistTag
  have hitem : P (.opens false ⟨"li", [], false⟩) := h.opens _ hitemTag
  have hopen : ∀ levels, ∀ p ∈ Outline.openPieces levels, P p := by
    intro levels
    fun_induction Outline.openPieces levels with
    | case1 => exact fun p hp => absurd hp List.not_mem_nil
    | case2 =>
        rw [List.forall_mem_cons, List.forall_mem_singleton]
        exact ⟨hlist, hfeed⟩
    | case3 levels ih =>
        rw [List.forall_mem_append, List.forall_mem_cons, List.forall_mem_cons, List.forall_mem_cons,
          List.forall_mem_singleton]
        exact ⟨⟨hlist, hfeed, hitem, hfeed⟩, ih⟩
  have hbetween : ∀ depth next, ∀ p ∈ Outline.betweenPieces depth next, P p := by
    intro depth next
    rw [Outline.betweenPieces, List.forall_mem_append, List.forall_mem_append]
    refine ⟨⟨hclose _, ?_⟩, hopen _⟩
    split
    · rw [List.forall_mem_cons, List.forall_mem_singleton]
      exact ⟨h.closes _ hitemTag, hfeed⟩
    · exact fun p hp => absurd hp List.not_mem_nil
  have hentry : ∀ e ∈ entries, ∀ p ∈ Outline.entryPieces e.1 e.2, P p := by
    intro e he
    obtain ⟨hnumber, htitle⟩ := hentries e he
    have hnumberPieces : ∀ p ∈ Outline.numberPieces e.1.number, P p := by
      cases hcases : e.1.number with
      | none => exact fun p hp => absurd hp List.not_mem_nil
      | some number =>
          exact List.forall_mem_append.mpr
            ⟨h.wrap (.wrapper .body (.plain (by decide) (by decide))) (hnumber number hcases),
              List.forall_mem_singleton.mpr (h.char ' ')⟩
    refine List.forall_mem_cons.mpr ⟨h.opens _ .entry, List.forall_mem_append.mpr
      ⟨h.wrap (.wrapper .body (.link (by decide))) (List.forall_mem_append.mpr ⟨hnumberPieces, htitle⟩),
        List.forall_mem_singleton.mpr hfeed⟩⟩
  have hitems : ∀ entries : List (OutlineEntry × List Piece), (∀ e ∈ entries, ∀ p ∈ Outline.entryPieces e.1 e.2, P p) →
      ∀ depth, ∀ p ∈ Outline.itemsPieces depth entries, P p := by
    intro entries hentry
    induction entries with
    | nil => exact hclose
    | cons e rest ih =>
        intro depth
        obtain ⟨hfirst, hrest⟩ := List.forall_mem_cons.mp hentry
        rw [Outline.itemsPieces, List.forall_mem_append, List.forall_mem_append]
        exact ⟨⟨hbetween _ _, hfirst⟩, ih hrest _⟩
  exact h.wrap (.wrapper .body (.plain (by decide) (by decide)))
    (List.forall_mem_cons.mpr ⟨hfeed, hitems entries hentry 0⟩)

/-- The outline of some nodes has a property, if addresses and numbers have it. -/
theorem headings (h : AdmitsPlain P) (isArticle : Bool) {l : List Node}
    (hurl : ∀ n ∈ Forest.preorder l, n.kind = .url → ∀ p ∈ urlPieces .heading (address n), P p)
    (hnumber : ∀ n ∈ Forest.preorder l, ∀ number, n.number = some number → ∀ p ∈ raw number, P p) :
    ∀ p ∈ Outline.pieces (Outline.headings isArticle l), P p := by
  refine h.outlinePieces fun e he => ?_
  obtain ⟨n, hn, hpair⟩ := List.mem_filterMap.mp he
  obtain ⟨entry, hentry, rfl⟩ := Option.map_eq_some_iff.mp hpair
  obtain ⟨level, depth, id, -, -, -, rfl⟩ := Outline.exists_of_ofHeading? hentry
  refine ⟨hnumber n hn, h.composes_heading.headingTitlePieces (fun m hm hkind _ => ?_) rfl⟩
  exact hurl m (Forest.mem_preorder_of_inside hn hm) hkind

end AdmitsPlain

/-- The tags of the writer, those of headings and footnotes among them. -/
inductive IsOwnTag : Tag → Prop
  | plain {tag : Tag} (h : IsPlainTag tag) : IsOwnTag tag
  | heading (level : Level) : IsOwnTag ⟨headingTag level, [], false⟩
  | origin (id : Text) : IsOwnTag ⟨"sup", [("id", id), ("class", "footnote")], false⟩
  | note (id : Text) : IsOwnTag ⟨"li", [("id", id)], false⟩
  | arrow (href : Text) : IsOwnTag ⟨"a", [("class", "arrow"), ("href", href)], false⟩

theorem IsOwnTag.isFormed {tag : Tag} (h : IsOwnTag tag) : (Piece.opens false tag).isFormed = true := by
  cases h with
  | plain h => exact h.isFormed
  | heading level => cases level <;> rfl
  | origin | note | arrow => rfl

/-- A property of pieces that the writer's own tags and what it escapes have. -/
structure Admits (P : Piece → Prop) : Prop where
  opens : ∀ tag, IsOwnTag tag → P (.opens false tag)
  closes : ∀ tag, IsOwnTag tag → P (.closes tag.name)
  char : ∀ c, P (.char false c)
  relay : ∀ indent isRaw tag, P (.opens isRaw tag) →
    P (.opens isRaw { tag with attributes := tag.attributes.map fun a => (a.1, relay indent a.2) })

namespace Admits

theorem plain (h : Admits P) : AdmitsPlain P :=
  ⟨fun tag htag => h.opens tag (.plain htag), fun tag htag => h.closes tag (.plain htag), h.char, h.relay⟩

theorem shown (h : Admits P) (t : Text) : ∀ p ∈ shown t, P p := h.plain.shown t

theorem wrap (h : Admits P) {name : Text} {attributes : List (Text × Text)} {content : List Piece}
    (htag : IsOwnTag ⟨name, attributes, false⟩) (hcontent : ∀ p ∈ content, P p) : ∀ p ∈ wrap name attributes content, P p :=
  forall_mem_wrap (h.opens _ htag) hcontent (h.closes _ htag)

theorem composes (h : Admits P) : Composes fun _ _ ps => ∀ p ∈ ps, P p where
  shown _ := h.shown
  append hps hqs := List.forall_mem_append.mpr ⟨hps, hqs⟩
  trim hps := fun p hp => hps p ((trimPieces_sublist _).subset hp)
  blank _ _ := fun p hp => absurd hp List.not_mem_nil
  wrap hwrapper hcontent := h.plain.wrap (.wrapper _ hwrapper) hcontent
  heading level _ _ hcontent := h.wrap (.heading level) (h.plain.wrap (.wrapper .body (.link (by decide))) hcontent)
  lineBreak _ := List.forall_mem_singleton.mpr (h.plain.opens _ .lineBreak)
  graphic _ src := List.forall_mem_singleton.mpr (h.plain.opens _ (.graphic src))
  origin mark := h.wrap (.origin mark.originId) (h.plain.wrap (.wrapper .body (.link (by decide))) (h.shown _))
  note mark _ _ _ hcontent :=
    h.wrap (.note mark.noteId) (List.forall_mem_append.mpr ⟨hcontent, h.wrap (.arrow _) (h.shown "↑")⟩)

/-- What a document is written as has a property, if what is written without escapes and the outline have it. -/
theorem sheetPieces (h : Admits P) {d : Document} {w : Sheet}
    (hurl : ∀ n ∈ Forest.preorder d.children, n.kind = .url → ∀ place, ∀ p ∈ urlPieces place (address n), P p)
    (hcode : ∀ n ∈ Forest.preorder d.children, n.kind = .codeBlock → ∀ p ∈ w.code.pieces (codeText n), P p)
    (hnumber : ∀ n ∈ Forest.preorder d.children, ∀ number, n.number = some number → ∀ p ∈ raw number, P p)
    (houtline : ∀ entries, w.outline = some entries → ∀ p ∈ Outline.pieces entries, P p) :
    ∀ p ∈ d.pieces w, P p := by
  have hraw : AllowsRaw (fun _ _ ps => ∀ p ∈ ps, P p) w d.children :=
    ⟨hurl, hcode, hnumber, fun entries hentries indent => h.plain.relayPieces indent (houtline entries hentries)⟩
  exact fun p hp => (h.composes.laid_blocksSteps hraw).1.laidOut 0 p (List.dropLast_subset _ hp)

theorem pieces (h : Admits P) {d : Document} {code : Code} (words : Words) (outline : Option Bool)
    (hurl : ∀ n ∈ Forest.preorder d.children, n.kind = .url → ∀ place, ∀ p ∈ urlPieces place (address n), P p)
    (hcode : ∀ n ∈ Forest.preorder d.children, n.kind = .codeBlock → ∀ p ∈ code.pieces (codeText n), P p)
    (hnumber : ∀ n ∈ Forest.preorder d.children, ∀ number, n.number = some number → ∀ p ∈ raw number, P p) :
    ∀ p ∈ d.pieces (d.sheet words outline code), P p := by
  refine h.sheetPieces hurl hcode hnumber fun entries hentries => ?_
  obtain ⟨isArticle, -, rfl⟩ := Option.map_eq_some_iff.mp hentries
  exact h.plain.headings isArticle (fun n hn hkind => hurl n hn hkind .heading) hnumber

end Admits

/-! Tags with names -/

theorem admits_isFormed : Admits fun p => p.isFormed = true := by
  refine ⟨fun _ h => h.isFormed, fun _ h => isName_of_isFormed h.isFormed, fun _ => rfl, fun indent isRaw tag h => ?_⟩
  simpa [Piece.isFormed, List.all_map, Function.comp_def] using h

theorem isFormed_raw (t : Text) : ∀ p ∈ raw t, p.isFormed = true := by
  intro p hp
  obtain ⟨c, -, rfl⟩ := List.mem_map.mp hp
  rfl

theorem isFormed_urlPieces (place : Place) (t : Text) : ∀ p ∈ urlPieces place t, p.isFormed = true := by
  cases place with
  | heading => exact admits_isFormed.plain.wrap (.wrapper .heading (.plain (by decide) (by decide))) (isFormed_raw t)
  | body =>
      exact List.forall_mem_cons.mpr
        ⟨by rfl, List.forall_mem_append.mpr ⟨isFormed_raw t, List.forall_mem_singleton.mpr (by decide)⟩⟩

theorem fits_sheet (d : Document) (words : Words) (outline : Option Bool) (code : Code) :
    (d.sheet words outline code).Fits (d.setting words outline) := by
  refine ⟨rfl, ?_, ?_⟩
  · cases outline with
    | none => rfl
    | some isArticle => exact congrArg some (d.written_outlinePieces isArticle)
  · intro entries hentries
    obtain ⟨isArticle, -, rfl⟩ := Option.map_eq_some_iff.mp hentries
    exact List.all_eq_true.mpr (admits_isFormed.plain.headings isArticle (fun n _ _ => isFormed_urlPieces _ _)
      fun _ _ number _ => isFormed_raw number)

end Manuscript.Html
