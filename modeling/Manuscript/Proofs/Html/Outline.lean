import Manuscript.Outline
import Manuscript.Proofs.Html.Inline

/-!
The pieces that an outline is written as.

Main statement: the outline of a document is written as the pieces for its headings (`written_outlinePieces`).
-/

namespace Manuscript

namespace Outline

open Html

/-- The entries of an outline for the headings among some nodes and inside them, with the pieces of their titles. -/
def headings (isArticle : Bool) (l : List Node) : List (OutlineEntry × List Piece) :=
  (Forest.preorder l).filterMap fun n =>
    (ofHeading? isArticle n.kind n.attrs n.number n.children).map fun e => (e, headingTitlePieces n.children)

/-- Ends the item and the list at each of some levels. -/
def closePieces (levels : Nat) : List Piece :=
  (List.replicate levels [.closes "li", .char false '\n', .closes "ul", .char false '\n']).flatten

/-- Begins a list at each of some levels; an item without a heading holds each list but the first. -/
def openPieces : (levels : Nat) → List Piece
  | 0 => []
  | 1 => [.opens false ⟨"ul", [], false⟩, .char false '\n']
  | levels + 2 =>
    [.opens false ⟨"ul", [], false⟩, .char false '\n', .opens false ⟨"li", [], false⟩, .char false '\n'] ++
      openPieces (levels + 1)

/-- The number of an entry. -/
def numberPieces (number : Option Text) : List Piece :=
  match number with
  | some number => wrap "span" [("class", "number")] (raw number) ++ [.char false ' ']
  | none => []

/-- The link of an entry in its item. -/
def entryPieces (e : OutlineEntry) (title : List Piece) : List Piece :=
  .opens false ⟨"li", [("class", e.level.name)], false⟩ ::
    (wrap "a" [("href", '#' :: e.id), ("class", "heading")] (numberPieces e.number ++ title) ++ [.char false '\n'])

/-- What leads from an entry at one depth to the next entry at another. -/
def betweenPieces (depth next : Nat) : List Piece :=
  closePieces (depth - next) ++ (if next ≤ depth ∧ 0 < next then [.closes "li", .char false '\n'] else []) ++
    openPieces (next - depth)

/-- The items of some entries, inside lists of a depth, and the ends of all lists. -/
def itemsPieces : (depth : Nat) → List (OutlineEntry × List Piece) → List Piece
  | depth, [] => closePieces depth
  | depth, e :: rest => betweenPieces depth e.1.depth ++ entryPieces e.1 e.2 ++ itemsPieces e.1.depth rest

/-- An outline. -/
def pieces (entries : List (OutlineEntry × List Piece)) : List Piece :=
  wrap "div" [("id", "table_of_contents")] (.char false '\n' :: itemsPieces 0 entries)

theorem written_closePieces (levels : Nat) : written (closePieces levels) = closeLists levels := by
  induction levels with
  | zero => rfl
  | succ levels ih =>
      have hlevel : written [.closes "li", .char false '\n', .closes "ul", .char false '\n'] = "</li>\n</ul>\n" := by
        decide
      have hpieces : closePieces (levels + 1) =
          [.closes "li", .char false '\n', .closes "ul", .char false '\n'] ++ closePieces levels := rfl
      rw [hpieces, written_append, hlevel, ih]
      rfl

theorem written_openPieces (levels : Nat) : written (openPieces levels) = openLists levels := by
  fun_induction openPieces levels with
  | case1 => rfl
  | case2 => decide
  | case3 levels ih =>
      have hlevel : written [.opens false ⟨"ul", [], false⟩, .char false '\n', .opens false ⟨"li", [], false⟩,
          .char false '\n'] = "<ul>\n<li>\n" := by
        decide
      rw [written_append, hlevel, ih]
      rfl

theorem written_betweenPieces (depth next : Nat) : written (betweenPieces depth next) = between depth next := by
  have hended : written (if next ≤ depth ∧ 0 < next then [.closes "li", .char false '\n'] else []) =
      if next ≤ depth ∧ 0 < next then ("</li>\n" : Text) else [] := by
    split
    · decide
    · rfl
  rw [betweenPieces, written_append, written_append, written_closePieces, hended, written_openPieces, between]

theorem any_isSpecial_level (level : Level) : level.name.any isSpecial = false := by
  cases level <;> decide

theorem written_numberPieces (number : Option Text) :
    written (numberPieces number) =
      match number with
      | some number => "<span class=\"number\">" ++ number ++ "</span> "
      | none => [] := by
  cases number with
  | none => rfl
  | some number =>
      have hspan : written (wrap "span" [("class", "number")] (raw number)) =
          "<span class=\"number\">" ++ number ++ "</span>" :=
        written_wrap_eq (by decide) (written_raw number) (by decide)
      rw [numberPieces, written_append, hspan]
      simp [Piece.write, textCharacter]

theorem written_entryPieces (e : OutlineEntry) {title : List Piece} (h : written title = e.title) :
    written (entryPieces e title) = entryLink e := by
  have hitem : (Piece.opens false ⟨"li", [("class", e.level.name)], false⟩).write =
      "<li class=\"" ++ e.level.name ++ "\">" := by
    simp only [Piece.write, List.flatMap_cons, List.flatMap_nil, writeAttribute_of_plain (any_isSpecial_level e.level),
      tagEnd]
    simp
  have hlink : written (wrap "a" [("href", '#' :: e.id), ("class", "heading")] (numberPieces e.number ++ title)) =
      "<a href=\"#" ++ escapeAttribute e.id ++ "\" class=\"heading\">" ++
        (written (numberPieces e.number) ++ e.title) ++ "</a>" := by
    refine written_wrap_eq ?_ (by rw [written_append, h]) (by decide)
    simp only [List.flatMap_cons, List.flatMap_nil, writeAttribute_local,
      writeAttribute_of_plain (v := "heading") (by decide)]
    simp
  have hentry : entryLink e = "<li class=\"" ++ e.level.name ++ "\"><a href=\"#" ++ escapeAttribute e.id ++
      "\" class=\"heading\">" ++ written (numberPieces e.number) ++ e.title ++ "</a>\n" := by
    rw [written_numberPieces]
    rfl
  rw [entryPieces, written_cons, written_append, hitem, hlink, hentry]
  simp [Piece.write, textCharacter]

theorem written_itemsPieces {depth : Nat} {entries : List (OutlineEntry × List Piece)}
    (h : ∀ e ∈ entries, written e.2 = e.1.title) :
    written (itemsPieces depth entries) = items depth (entries.map Prod.fst) := by
  induction entries generalizing depth with
  | nil => exact written_closePieces depth
  | cons e rest ih =>
      rw [itemsPieces, written_append, written_append, written_betweenPieces,
        written_entryPieces e.1 (h e List.mem_cons_self),
        ih fun later hlater => h later (List.mem_cons_of_mem e hlater)]
      rfl

theorem written_pieces {entries : List (OutlineEntry × List Piece)} (h : ∀ e ∈ entries, written e.2 = e.1.title) :
    written (pieces entries) = html (entries.map Prod.fst) := by
  change written (wrap "div" [("id", "table_of_contents")] (.char false '\n' :: itemsPieces 0 entries)) =
    "<div id=\"table_of_contents\">\n" ++ items 0 (entries.map Prod.fst) ++ "</div>"
  rw [written_wrap, written_cons, written_itemsPieces h, List.flatMap_singleton,
    writeAttribute_of_plain (v := "table_of_contents") (by decide)]
  simp [Piece.write, textCharacter]

theorem ofNodes_eq (isArticle : Bool) (l : List Node) :
    ofNodes isArticle l = (headings isArticle l).map Prod.fst := by
  induction l using Forest.induction with
  | nil => rfl
  | cons n rest ihChildren ihRest =>
      obtain ⟨kind, a, number, children⟩ := n
      rw [ofNodes, ofNode, ihChildren, ihRest, headings, headings, headings, Forest.preorder_cons, List.filterMap_cons]
      cases ofHeading? isArticle kind a number children <;> simp

/-- Only headings with an id have entries, and not at all levels. -/
theorem exists_of_ofHeading? {isArticle : Bool} {kind : Kind} {a : Attrs} {number : Option Text} {children : List Node}
    {e : OutlineEntry} (h : ofHeading? isArticle kind a number children = some e) :
    ∃ level depth id, kind = .heading level ∧ depth? isArticle level = some depth ∧ a.id = some id ∧
      e = ⟨depth, level, id, number, headingTitle children⟩ := by
  cases kind with
  | heading level =>
      obtain ⟨depth, hdepth, hrest⟩ := Option.bind_eq_some_iff.mp h
      obtain ⟨id, hid, heq⟩ := Option.bind_eq_some_iff.mp hrest
      exact ⟨level, depth, id, rfl, hdepth, hid, (Option.some.inj heq).symm⟩
  | _ => cases h

theorem depth?_pos {isArticle : Bool} {level : Level} {depth : Nat} (h : depth? isArticle level = some depth) :
    0 < depth := by
  cases level <;> cases isArticle <;> cases h <;> decide

theorem title_of_mem_headings {isArticle : Bool} {l : List Node} {e : OutlineEntry × List Piece}
    (h : e ∈ headings isArticle l) : written e.2 = e.1.title := by
  obtain ⟨n, -, hpair⟩ := List.mem_filterMap.mp h
  obtain ⟨entry, hentry, rfl⟩ := Option.map_eq_some_iff.mp hpair
  obtain ⟨level, depth, id, -, -, -, rfl⟩ := exists_of_ofHeading? hentry
  exact written_headingTitlePieces n.children

end Outline

/-- The outline of a document is written as the pieces for its headings. -/
theorem Document.written_outlinePieces (d : Document) (isArticle : Bool) :
    Html.written (Outline.pieces (Outline.headings isArticle d.children)) = (d.outline isArticle).html := by
  rw [Outline.written_pieces fun e he => Outline.title_of_mem_headings he, ← Outline.ofNodes_eq]
  rfl

end Manuscript
