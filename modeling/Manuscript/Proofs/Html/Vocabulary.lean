import Manuscript.Html.AllowList
import Manuscript.Proofs.Html.Escaping
import Manuscript.Proofs.Html.Locality

/-!
The elements and attributes that documents and outlines are written with.  They are those that are let through from a
source that is not trusted.

Main statements: what is written as listed pieces is listed whatever listed text follows it (`addsListed_written`), and so
are a document and its outline (`Document.isListed_html`).
-/

namespace Manuscript.Html

/-- Is the token a text, or a tag of an element that is let through, with attributes that are let through on it? -/
def Token.isListed : Token → Bool
  | .text _ => true
  | .opens tag => tag.name ∈ AllowList.elements && tag.attributes.all fun a => AllowList.hasAttribute tag.name a.1
  | .closes name => name ∈ AllowList.elements
  | .verbatim _ | .nothing => false

/-- The values of attributes do not count. -/
theorem Token.isListed_map (tag : Tag) (f : Text → Text) :
    (Token.opens { tag with attributes := tag.attributes.map fun a => (a.1, f a.2) }).isListed =
      (Token.opens tag).isListed := by
  rw [Token.isListed, Token.isListed, List.all_map]
  rfl

/-- Only elements and attributes that are let through are read in the text. -/
def IsListed (t : Text) : Prop := ∀ token ∈ tokens t, token.isListed = true

/-- In front of any listed text the text is listed. -/
def AddsListed (t : Text) : Prop := ∀ rest, IsListed rest → IsListed (t ++ rest)

theorem isListed_nil : IsListed [] := by
  intro token htoken
  rw [tokens_nil] at htoken
  cases htoken

namespace AddsListed

variable {s t : Text}

theorem isListed (h : AddsListed t) : IsListed t := by
  have hlisted := h [] isListed_nil
  rwa [List.append_nil] at hlisted

theorem append (hs : AddsListed s) (ht : AddsListed t) : AddsListed (s ++ t) := by
  intro rest hrest
  rw [List.append_assoc]
  exact hs _ (ht rest hrest)

/-- Text before markup is text. -/
theorem of_notMem (h : '<' ∉ t) : AddsListed t := by
  intro rest hrest token htoken
  rcases mem_tokens_append h htoken with ⟨u, rfl⟩ | htoken
  · rfl
  · exact hrest token htoken

theorem of_plain (h : t.any isSpecial = false) : AddsListed t := by
  apply of_notMem
  intro hmem
  exact absurd (List.any_eq_false.mp h '<' hmem) (by decide)

theorem escapeText (t : Text) : AddsListed (escapeText t) := of_notMem (lt_notMem_escapeText t)

theorem opens {tag : Tag} (hformed : (Piece.opens false tag).isFormed = true)
    (hlisted : (Token.opens tag).isListed = true) : AddsListed (Piece.opens false tag).write := by
  intro rest hrest token htoken
  rw [(tokens_opens hformed rest).1] at htoken
  rcases List.mem_cons.mp htoken with rfl | htoken
  · exact (Token.isListed_map tag _).trans hlisted
  · exact hrest token htoken

theorem closes {name : Text} (hname : isName name = true) (hlisted : name ∈ AllowList.elements) :
    AddsListed (Piece.closes name).write := by
  intro rest hrest token htoken
  rw [(tokens_closes hname rest).1] at htoken
  rcases List.mem_cons.mp htoken with rfl | htoken
  · exact decide_eq_true hlisted
  · exact hrest token htoken

/-- An element around some text. -/
theorem wrap {name : Text} {attributes : List (Text × Text)}
    (hformed : (Piece.opens false ⟨name, attributes, false⟩).isFormed = true)
    (hlisted : (Token.opens ⟨name, attributes, false⟩).isListed = true) (h : AddsListed t) :
    AddsListed ((Piece.opens false ⟨name, attributes, false⟩).write ++ t ++ (Piece.closes name).write) := by
  have hname : name ∈ AllowList.elements := by
    rw [Token.isListed, Bool.and_eq_true, decide_eq_true_eq] at hlisted
    exact hlisted.1
  exact ((opens hformed hlisted).append h).append (closes (isName_of_isFormed hformed) hname)

end AddsListed

/-! Pieces -/

/-- Is a reader sure to find a listed token for the piece?  An angle bracket that is raw might begin anything. -/
def Piece.isListed : Piece → Bool
  | .opens isRaw tag =>
    (Piece.opens isRaw tag).isFormed && (Piece.opens isRaw tag).isSafe && (Token.opens tag).isListed
  | .closes name => isName name && name ∈ AllowList.elements
  | .char isRaw c => !isRaw || c ≠ '<'

theorem addsListed_write {p : Piece} (h : p.isListed = true) : AddsListed p.write := by
  cases p with
  | opens isRaw tag =>
      simp only [Piece.isListed, Bool.and_eq_true] at h
      obtain ⟨⟨hformed, hsafe⟩, hlisted⟩ := h
      rw [← (Piece.opens isRaw tag).length_escaped.2.2 hsafe]
      exact .opens hformed hlisted
  | closes name =>
      simp only [Piece.isListed, Bool.and_eq_true, decide_eq_true_eq] at h
      exact .closes h.1 h.2
  | char isRaw c =>
      cases isRaw with
      | false =>
          have hwrite : (Piece.char false c).write = escapeText [c] := (List.flatMap_singleton ..).symm
          rw [hwrite]
          exact .escapeText [c]
      | true =>
          apply AddsListed.of_notMem
          intro hmem
          obtain rfl : '<' = c := List.mem_singleton.mp hmem
          cases h

/-- What is written as listed pieces is listed. -/
theorem addsListed_written {ps : List Piece} (h : ∀ p ∈ ps, p.isListed = true) : AddsListed (written ps) := by
  induction ps with
  | nil => exact fun rest hrest => hrest
  | cons p ps ih =>
      obtain ⟨hp, hps⟩ := List.forall_mem_cons.mp h
      rw [written_cons]
      exact (addsListed_write hp).append (ih hps)

/-! The writer's tags -/

theorem isListed_of_general {name : Text} (hname : name ∈ AllowList.elements) {attributes : List (Text × Text)}
    (hattributes : ∀ a ∈ attributes, AllowList.hasAttribute name a.1 = true) (isClosed : Bool) :
    (Token.opens ⟨name, attributes, isClosed⟩).isListed = true :=
  Bool.and_eq_true_iff.mpr ⟨decide_eq_true hname, List.all_eq_true.mpr hattributes⟩

theorem hasAttribute_of_sublist {attributes : List (Text × Text)}
    (h : (attributes.map Prod.fst).Sublist ["id", "class"]) (name : Text) :
    ∀ a ∈ attributes, AllowList.hasAttribute name a.1 = true := by
  intro a ha
  have hgeneral : a.1 ∈ AllowList.generalAttributes := by
    rcases List.mem_cons.mp (h.subset (List.mem_map_of_mem ha)) with heq | hmem
    · rw [heq]
      decide
    · rw [List.mem_singleton.mp hmem]
      decide
  rw [AllowList.hasAttribute, decide_eq_true hgeneral, Bool.true_or, Bool.true_or]

theorem isListed_wrapper {place : Place} {name : Text} {attributes : List (Text × Text)}
    (h : IsWrapper place name attributes) : (Token.opens ⟨name, attributes, false⟩).isListed = true := by
  have hplain : ∀ name ∈ plainNames, name ∈ AllowList.elements := by decide
  cases h with
  | plain h hattributes => exact isListed_of_general (hplain name h) (hasAttribute_of_sublist hattributes name) false
  | link hattributes =>
      exact isListed_of_general (by decide)
        (List.forall_mem_cons.mpr ⟨by rfl, hasAttribute_of_sublist hattributes "a"⟩) false
  | item | sup => decide

theorem isListed_ownTag {tag : Tag} (h : IsOwnTag tag) : (Token.opens tag).isListed = true := by
  cases h with
  | plain h =>
      cases h with
      | wrapper place h => exact isListed_wrapper h
      | lineBreak | graphic | entry => rfl
  | heading level => cases level <;> rfl
  | origin | note | arrow => rfl

/-- The writer has no tags but listed ones. -/
theorem admits_isListed : Admits fun p => p.isListed = true where
  opens tag h := by
    rw [Piece.isListed, h.isFormed, isListed_ownTag h]
    rfl
  closes tag h := by
    have hlisted := isListed_ownTag h
    rw [Token.isListed, Bool.and_eq_true] at hlisted
    rw [Piece.isListed, isName_of_isFormed h.isFormed, hlisted.1]
    rfl
  char c := rfl
  relay indent isRaw tag h := by
    simp only [Piece.isListed, Bool.and_eq_true] at h ⊢
    obtain ⟨⟨hformed, hsafe⟩, hlisted⟩ := h
    refine ⟨⟨admits_isFormed.relay indent isRaw tag hformed, ?_⟩, ?_⟩
    · rw [Piece.isSafe_iff] at hsafe ⊢
      have hrelay := (admits_unescaped fun _ => False).relay indent isRaw tag (by simp [hsafe])
      exact List.eq_nil_iff_forall_not_mem.mpr hrelay
    · exact (Token.isListed_map tag _).trans hlisted

theorem isListed_raw {t : Text} (h : t.any isSpecial = false) : ∀ p ∈ raw t, p.isListed = true := by
  intro p hp
  obtain ⟨c, hc, rfl⟩ := List.mem_map.mp hp
  have hspecial := List.any_eq_false.mp h c hc
  have hne : c ≠ '<' := by
    rintro rfl
    exact hspecial rfl
  exact decide_eq_true hne

theorem isListed_urlPieces (place : Place) {t : Text} (h : t.any isSpecial = false) :
    ∀ p ∈ urlPieces place t, p.isListed = true := by
  cases place with
  | heading =>
      exact admits_isListed.plain.wrap (.wrapper .heading (.plain (by decide) (by decide))) (isListed_raw h)
  | body =>
      have htag : (Piece.opens true ⟨"a", [("href", t), ("class", "url")], false⟩).isListed = true := by
        have hsafe : (Piece.opens true ⟨"a", [("href", t), ("class", "url")], false⟩).isSafe = true := by
          have hclass : ("url" : Text).any isSpecial = false := by decide
          simp only [Piece.isSafe, List.all_cons, List.all_nil, h, hclass]
          rfl
        rw [Piece.isListed, hsafe]
        rfl
      exact List.forall_mem_cons.mpr
        ⟨htag, List.forall_mem_append.mpr ⟨isListed_raw h, List.forall_mem_singleton.mpr (by decide)⟩⟩

/-! Outlines and documents -/

/-- The outline has no markup in the numbers and titles of its entries, or it is the one of a document. -/
def IsOutlineFor (d : Document) (o : Outline) : Prop :=
  (∀ e ∈ o, (∀ number ∈ e.number, number.any isSpecial = false) ∧ e.title.any isSpecial = false) ∨
    ∃ isArticle, o = d.outline isArticle

variable {d : Document}

/-- Such an outline is written as listed pieces, if the document has no markup in its texts and numbers. -/
theorem exists_listed_outline (htext : ∀ t ∈ Node.textsIn d.children, t.any isSpecial = false)
    (hnumber : Forest.HaveNumbers (fun t => t.any isSpecial = false) d.children) {o : Outline} (ho : IsOutlineFor d o) :
    ∃ entries, written (Outline.pieces entries) = o.html ∧ ∀ p ∈ Outline.pieces entries, p.isListed = true := by
  rcases ho with hplain | ⟨isArticle, rfl⟩
  · have hfst : (o.map fun e => (e, raw e.title)).map Prod.fst = o := by simp [Function.comp_def]
    have hwritten : ∀ e ∈ o.map fun e => (e, raw e.title), written e.2 = e.1.title := by
      intro e he
      obtain ⟨entry, -, rfl⟩ := List.mem_map.mp he
      exact written_raw entry.title
    refine ⟨o.map fun e => (e, raw e.title), ?_, admits_isListed.plain.outlinePieces fun e he => ?_⟩
    · rw [Outline.written_pieces hwritten, hfst]
    · obtain ⟨entry, hentry, rfl⟩ := List.mem_map.mp he
      obtain ⟨hentryNumber, htitle⟩ := hplain entry hentry
      exact ⟨fun number h => isListed_raw (hentryNumber number h), isListed_raw htitle⟩
  · refine ⟨Outline.headings isArticle d.children, d.written_outlinePieces isArticle, ?_⟩
    exact admits_isListed.plain.headings isArticle
      (fun n hn _ => isListed_urlPieces .heading (any_isSpecial_address htext hn))
      fun n hn number h => isListed_raw (hnumber n hn number h)

theorem Piece.isFormed_of_isListed {p : Piece} (h : p.isListed = true) : p.isFormed = true := by
  cases p with
  | opens isRaw tag =>
      simp only [Piece.isListed, Bool.and_eq_true] at h
      exact h.1.1
  | closes name =>
      simp only [Piece.isListed, Bool.and_eq_true] at h
      exact h.1
  | char isRaw c => rfl

/-- A document without markup in its texts and numbers is listed, with any such outline. -/
theorem isListed_html (htext : ∀ t ∈ Node.textsIn d.children, t.any isSpecial = false)
    (hnumber : Forest.HaveNumbers (fun t => t.any isSpecial = false) d.children) (words : Words) {outline : Option Outline}
    (houtline : ∀ o ∈ outline, IsOutlineFor d o) : IsListed (d.html ⟨words, outline⟩) := by
  obtain ⟨entries, heq, hlisted⟩ : ∃ entries : Option (List (OutlineEntry × List Piece)),
      entries.map (fun entries => written (Outline.pieces entries)) = outline.map Outline.html ∧
        ∀ l, entries = some l → ∀ p ∈ Outline.pieces l, p.isListed = true := by
    cases outline with
    | none => exact ⟨none, rfl, fun l hl => nomatch hl⟩
    | some o =>
        obtain ⟨entries, hwritten, hlisted⟩ := exists_listed_outline htext hnumber (houtline o rfl)
        refine ⟨some entries, congrArg some hwritten, fun l hl => ?_⟩
        rwa [← Option.some.inj hl]
  have hfits : Sheet.Fits ⟨words, entries, .raw⟩ ⟨words, outline⟩ := by
    refine ⟨rfl, heq, fun l hl => List.all_eq_true.mpr fun p hp => ?_⟩
    exact Piece.isFormed_of_isListed (hlisted l hl p hp)
  rw [d.html_eq_written hfits]
  apply (addsListed_written _).isListed
  apply admits_isListed.sheetPieces
  · exact fun n hn _ place => isListed_urlPieces place (any_isSpecial_address htext hn)
  · exact fun n hn _ => isListed_raw (any_isSpecial_codeText htext hn)
  · exact fun n hn number h => isListed_raw (hnumber n hn number h)
  · exact hlisted

theorem isListed_outline (htext : ∀ t ∈ Node.textsIn d.children, t.any isSpecial = false)
    (hnumber : Forest.HaveNumbers (fun t => t.any isSpecial = false) d.children) {o : Outline} (ho : IsOutlineFor d o) :
    IsListed o.html := by
  obtain ⟨entries, hwritten, hlisted⟩ := exists_listed_outline htext hnumber ho
  rw [← hwritten]
  exact (addsListed_written hlisted).isListed

end Manuscript.Html
