import Manuscript.Proofs.Document.Forest
import Manuscript.Proofs.Html.Piece
import Manuscript.Proofs.Text.Numeral

/-!
The pieces that the inline parts of a document are written as.

Main statement: what is written within a line are these pieces (`written_inlinePieces`).
-/

namespace Manuscript.Html

/-- A reference to a label. -/
def refPieces (place : Place) (label : Text) (style : RefStyle) (target : Option Target) (phrase : Option Text) :
    List Piece :=
  match target with
  | none => wrap "span" [("class", "undefined_ref")] (shown label)
  | some target =>
    let content := shown (phrase.getD []) ++
      wrap "span" [("class", "ref")] (shown (refNumber style target.number))
    match place with
    | .body => wrap "a" [("href", '#' :: target.id), ("class", "hyperref")] content
    | .heading => content

/-- A footnote's mark, or its content as long as it has none. -/
def footnotePieces (place : Place) (mark : Option Mark) (content : List Piece) : List Piece :=
  match place, mark with
  | .heading, _ => []
  | .body, some mark =>
    wrap "sup" [("id", mark.originId), ("class", "footnote")]
      (wrap "a" [("href", '#' :: mark.noteId)] (shown mark.display))
  | .body, none => wrap "span" [("class", "footnote")] content

/-- An address that is shown as it is. -/
def urlPieces (place : Place) (address : Text) : List Piece :=
  match place with
  | .body =>
    .opens true ⟨"a", [("href", address), ("class", "url")], false⟩ :: (raw address ++ [.closes "a"])
  | .heading => wrap "span" [("class", "url")] (raw address)

/-- A link. -/
def linkPieces (place : Place) (a : Attrs) (href : Text) (content : List Piece) : List Piece :=
  match place with
  | .body => wrap "a" (("href", href) :: attributesOf a none) content
  | .heading => content

mutual

/-- A node within a line. -/
def inlinePieces (place : Place) : Node → List Piece
  | ⟨kind, a, _, children⟩ =>
    let content := inlinesPieces place children
    match kind with
    | .text t => shown t
    | .emph => wrap "em" [] content
    | .strong => wrap "strong" [] content
    | .inlineCode => wrap "code" [("class", "tt")] content
    | .span => wrap "span" (attributesOf a none) content
    | .inlineMath => wrap "span" [("class", "inline_math")] content
    | .url => urlPieces place (Text.trim (Node.plainTexts children))
    | .link href => linkPieces place a href content
    | .ref label style target phrase => refPieces place label style target phrase
    | .footnote mark => footnotePieces place mark content
    | .intersentenceSpace => wrap "span" [("class", "intersentencespace")] []
    | .lineBreak => [.opens false ⟨"br", [], true⟩]
    | .graphic src => [.opens false ⟨"img", [("src", src), ("alt", src)], true⟩]
    | .tableOfContents | .footnoteList _ | .footnoteItem _ => []
    | _ => content

/-- Nodes within a line. -/
def inlinesPieces (place : Place) : List Node → List Piece
  | [] => []
  | node :: rest => inlinePieces place node ++ inlinesPieces place rest

end

/-- The title among the children of a heading. -/
def headingTitlePieces (children : List Node) : List Piece :=
  match Node.title? children with
  | some title => inlinesPieces .heading title.children
  | none => []

theorem writeAttribute_of_plain {name v : Text} (h : v.any isSpecial = false) :
    writeAttribute false (name, v) = " " ++ name ++ "=\"" ++ v ++ "\"" := by
  simp [writeAttribute, (length_escapeAttribute v).2.2 h]

theorem escapeText_of_plain {t : Text} (h : t.any isSpecial = false) : escapeText t = t := by
  rw [escapeText]
  induction t with
  | nil => rfl
  | cons c t ih =>
      rw [List.any_cons, Bool.or_eq_false_iff] at h
      rw [List.flatMap_cons, ih h.2, (textCharacter_eq_iff c).mpr (.inr h.1), List.singleton_append]

theorem isSpecial_eq_false_of_isDigit {c : Char} (h : c.isDigit = true) : isSpecial c = false := by
  cases hspecial : isSpecial c with
  | false => rfl
  | true =>
      simp only [isSpecial, Bool.or_eq_true, beq_iff_eq] at hspecial
      obtain ((rfl | rfl) | rfl) | rfl := hspecial <;> cases h

/-- A numeral holds no character of markup. -/
theorem any_isSpecial_ofNat (n : Nat) : (Text.ofNat n).any isSpecial = false := by
  rw [List.any_eq_false]
  intro c hc
  rw [isSpecial_eq_false_of_isDigit (Text.isDigit_of_mem_ofNat hc)]
  exact Bool.false_ne_true

theorem any_isSpecial_noteId (mark : Mark) : mark.noteId.any isSpecial = false := by
  have hstart : ("cha-" : Text).any isSpecial = false := by decide
  have hmiddle : ("_footnote-" : Text).any isSpecial = false := by decide
  rw [Mark.noteId, List.any_append, List.any_append, List.any_append, hstart, hmiddle, any_isSpecial_ofNat,
    any_isSpecial_ofNat]
  rfl

theorem any_isSpecial_originId (mark : Mark) : mark.originId.any isSpecial = false := by
  have hstart : ("cha-" : Text).any isSpecial = false := by decide
  have hmiddle : ("_footnote-ref-" : Text).any isSpecial = false := by decide
  rw [Mark.originId, List.any_append, List.any_append, List.any_append, hstart, hmiddle, any_isSpecial_ofNat,
    any_isSpecial_ofNat]
  rfl

/-- The tags around some pieces in HTML. -/
theorem written_wrap_eq {name opening closing t : Text} {attributes : List (Text × Text)} {content : List Piece}
    (hopening : opening = "<" ++ name ++ attributes.flatMap (writeAttribute false) ++ ">")
    (hcontent : written content = t) (hclosing : closing = "</" ++ name ++ ">") :
    written (wrap name attributes content) = opening ++ t ++ closing := by
  simp only [written_wrap, hcontent, hopening, hclosing, List.append_assoc]

theorem writeAttribute_local (id : Text) :
    writeAttribute false ("href", '#' :: id) = " href=\"#" ++ escapeAttribute id ++ "\"" := by
  simp [writeAttribute, escapeAttribute, attributeCharacter, textCharacter]

theorem written_refPieces (place : Place) (label : Text) (style : RefStyle) (target : Option Target)
    (phrase : Option Text) :
    written (refPieces place label style target phrase) = ref place label style target phrase := by
  cases target with
  | none => exact written_wrap_eq (by decide) (written_shown label) (by decide)
  | some target =>
      have hnumber : written (wrap "span" [("class", "ref")] (shown (refNumber style target.number))) =
          "<span class=\"ref\">" ++ escapeText (refNumber style target.number) ++ "</span>" :=
        written_wrap_eq (by decide) (written_shown _) (by decide)
      have hcontent : written (shown (phrase.getD []) ++
          wrap "span" [("class", "ref")] (shown (refNumber style target.number))) =
          escapeText (phrase.getD []) ++ "<span class=\"ref\">" ++ escapeText (refNumber style target.number) ++
            "</span>" := by
        rw [written_append, written_shown, hnumber]
        simp only [List.append_assoc]
      cases place with
      | heading => exact hcontent
      | body =>
          refine written_wrap_eq ?_ hcontent (by decide)
          simp only [List.flatMap_cons, List.flatMap_nil, writeAttribute_local,
            writeAttribute_of_plain (v := "hyperref") (by decide)]
          simp

theorem written_footnotePieces (place : Place) (mark : Option Mark) {content : List Piece} {t : Text}
    (h : written content = t) : written (footnotePieces place mark content) = footnote place mark t := by
  cases place with
  | heading => cases mark <;> rfl
  | body =>
      cases mark with
      | none => exact written_wrap_eq (by decide) h (by decide)
      | some mark =>
          have hlink : written (wrap "a" [("href", '#' :: mark.noteId)] (shown mark.display)) =
              "<a href=\"#" ++ mark.noteId ++ "\">" ++ escapeText mark.display ++ "</a>" := by
            refine written_wrap_eq ?_ (written_shown _) (by decide)
            simp only [List.flatMap_cons, List.flatMap_nil, writeAttribute_local,
              (length_escapeAttribute mark.noteId).2.2 (any_isSpecial_noteId mark)]
            simp
          change written (wrap "sup" [("id", mark.originId), ("class", "footnote")] _) =
            "<sup id=\"" ++ mark.originId ++ "\" class=\"footnote\"><a href=\"#" ++ mark.noteId ++ "\">" ++
              escapeText mark.display ++ "</a></sup>"
          simp only [written_wrap, hlink, List.flatMap_cons, List.flatMap_nil,
            writeAttribute_of_plain (any_isSpecial_originId mark),
            writeAttribute_of_plain (v := "footnote") (by decide)]
          simp

theorem written_urlPieces (place : Place) (address : Text) : written (urlPieces place address) = url place address := by
  cases place with
  | heading => exact written_wrap_eq (by decide) (written_raw address) (by decide)
  | body =>
      change written
        (.opens true ⟨"a", [("href", address), ("class", "url")], false⟩ :: (raw address ++ [.closes "a"])) =
        "<a href=\"" ++ address ++ "\" class=\"url\">" ++ address ++ "</a>"
      simp [Piece.write, writeAttribute, tagEnd]

theorem written_linkPieces (place : Place) (a : Attrs) (href : Text) {content : List Piece} {t : Text}
    (h : written content = t) : written (linkPieces place a href content) = link place a href t := by
  cases place with
  | heading => exact h
  | body =>
      refine written_wrap_eq ?_ h (by decide)
      rw [List.flatMap_cons, attrs_eq]
      simp [writeAttribute]

/-- What is written within a line are these pieces. -/
theorem written_inlinesPieces (place : Place) (l : List Node) :
    written (inlinesPieces place l) = inlines place l := by
  induction l using Forest.induction with
  | nil => rfl
  | cons n rest ihChildren ihRest =>
      have hnode : written (inlinePieces place n) = inline place n := by
        obtain ⟨kind, a, number, children⟩ := n
        cases kind with
        | text t => exact written_shown t
        | emph => exact written_wrap_eq (by decide) ihChildren (by decide)
        | strong => exact written_wrap_eq (by decide) ihChildren (by decide)
        | inlineCode => exact written_wrap_eq (by decide) ihChildren (by decide)
        | inlineMath => exact written_wrap_eq (by decide) ihChildren (by decide)
        | span =>
            refine written_wrap_eq ?_ ihChildren (by decide)
            rw [attrs_eq]
            simp
        | url => exact written_urlPieces place _
        | link href => exact written_linkPieces place a href ihChildren
        | ref label style target phrase => exact written_refPieces place label style target phrase
        | footnote mark => exact written_footnotePieces place mark ihChildren
        | intersentenceSpace =>
            change written (wrap "span" [("class", "intersentencespace")] []) =
              ("<span class=\"intersentencespace\"></span>" : Text)
            decide
        | lineBreak =>
            change written [.opens false ⟨"br", [], true⟩] = ("<br />" : Text)
            decide
        | graphic src =>
            change written [.opens false ⟨"img", [("src", src), ("alt", src)], true⟩] =
              "<img src=\"" ++ escapeAttribute src ++ "\" alt=\"" ++ escapeAttribute src ++ "\" />"
            simp [Piece.write, writeAttribute, tagEnd]
        | tableOfContents | footnoteList chapter | footnoteItem mark => rfl
        | _ => exact ihChildren
      rw [inlinesPieces, written_append, hnode, ihRest, inlines]

theorem written_inlinePieces (place : Place) (n : Node) : written (inlinePieces place n) = inline place n := by
  have h := written_inlinesPieces place [n]
  rwa [inlinesPieces, inlinesPieces, List.append_nil, inlines, inlines, List.append_nil] at h

theorem written_headingTitlePieces (children : List Node) :
    written (headingTitlePieces children) = headingTitle children := by
  unfold headingTitlePieces headingTitle
  cases Node.title? children with
  | none => rfl
  | some title => exact written_inlinesPieces .heading title.children

end Manuscript.Html
