import Manuscript.Proofs.Footnotes.Ends
import Manuscript.Proofs.Html.Links

/-!
The links between footnotes and their texts in the HTML of a document.

Main statement: every footnote that is shown links to its text, and the links correspond one to one if and only if every
footnote is shown and no other element has one of their ids (`isLinked`).
-/

namespace Manuscript

/-! Ids -/

namespace Mark

theorem takeWhile_ofNat_append (n : Nat) (t : Text) :
    (Text.ofNat n ++ '_' :: t).takeWhile Char.isDigit = Text.ofNat n := by
  rw [List.takeWhile_append_of_pos fun c hc => Text.isDigit_of_mem_ofNat hc]
  exact List.append_nil _

theorem ofNat_append_inj {n n' : Nat} {t t' : Text} (h : Text.ofNat n ++ '_' :: t = Text.ofNat n' ++ '_' :: t') :
    n = n' ∧ t = t' := by
  have htake := congrArg (List.takeWhile Char.isDigit) h
  rw [takeWhile_ofNat_append, takeWhile_ofNat_append] at htake
  rw [htake] at h
  exact ⟨Text.ofNat_injective htake, (List.cons.inj (List.append_cancel_left h)).2⟩

theorem noteId_eq (m : Mark) :
    m.noteId = "cha-" ++ (Text.ofNat m.chapter.toNat ++ '_' :: ("footnote-" ++ Text.ofNat m.index)) := by
  simp [noteId]

theorem originId_eq (m : Mark) :
    m.originId = "cha-" ++ (Text.ofNat m.chapter.toNat ++ '_' :: ("footnote-" ++ ("ref-" ++ Text.ofNat m.index))) := by
  simp [originId]

theorem eq_of_noteId {m m' : Mark} (h : m.noteId = m'.noteId) : m.chapter = m'.chapter ∧ m.index = m'.index := by
  rw [noteId_eq, noteId_eq] at h
  obtain ⟨hchapter, hindex⟩ := ofNat_append_inj (List.append_cancel_left h)
  exact ⟨UInt32.toNat_inj.mp hchapter, Text.ofNat_injective (List.append_cancel_left hindex)⟩

theorem eq_of_originId {m m' : Mark} (h : m.originId = m'.originId) : m.chapter = m'.chapter ∧ m.index = m'.index := by
  rw [originId_eq, originId_eq] at h
  obtain ⟨hchapter, hindex⟩ := ofNat_append_inj (List.append_cancel_left h)
  exact ⟨UInt32.toNat_inj.mp hchapter,
    Text.ofNat_injective (List.append_cancel_left (List.append_cancel_left hindex))⟩

theorem originId_ne_noteId (m m' : Mark) : m.originId ≠ m'.noteId := by
  intro h
  rw [originId_eq, noteId_eq] at h
  have hindex : ("ref-" ++ Text.ofNat m.index : Text) = Text.ofNat m'.index :=
    List.append_cancel_left (ofNat_append_inj (List.append_cancel_left h)).2
  have hdigit : 'r' ∈ Text.ofNat m'.index := hindex ▸ List.mem_append_left _ (by decide)
  exact absurd (Text.isDigit_of_mem_ofNat hdigit) (by decide)

end Mark

namespace Html

/-- The ids of elements. -/
def ids (ps : List Piece) : List Text := (tags ps).filterMap Tag.id?

/-- The ids of elements that are neither origins nor texts of footnotes. -/
def otherIds (ps : List Piece) : List Text := (tags ps).filterMap Tag.otherId?

/-- An id is one of an origin, of a text or of something else. -/
theorem count_ids (ps : List Piece) (id : Text) : (ids ps).count id =
    ((originLinks ps).map Prod.fst).count id + ((noteLinks ps).map Prod.fst).count id + (otherIds ps).count id := by
  rw [ids, otherIds, originLinks, noteLinks, map_fst_linksFrom, map_fst_linksFrom]
  induction tags ps with
  | nil => rfl
  | cons tag l ih =>
      have hcons : ∀ f : Tag → Option Text, ((tag :: l).filterMap f).count id =
          (f tag).toList.count id + (l.filterMap f).count id := by
        intro f
        rw [List.filterMap_cons]
        cases f tag with
        | none => exact (Nat.zero_add _).symm
        | some own =>
            change ([own] ++ _).count id = _
            rw [List.count_append]
            rfl
      have htag : tag.id?.toList.count id =
          tag.originId?.toList.count id + tag.noteId?.toList.count id + tag.otherId?.toList.count id := by
        have hne : ("sup" : Text) ≠ "li" := by decide
        unfold Tag.originId? Tag.noteId? Tag.otherId?
        by_cases hsup : tag.name = "sup"
        · rw [if_pos hsup, if_neg (hsup ▸ hne), if_pos (.inl hsup)]
          rfl
        · by_cases hli : tag.name = "li"
          · rw [if_neg hsup, if_pos hli, if_pos (.inr hli)]
            exact (Nat.zero_add _).symm
          · rw [if_neg hsup, if_neg hli, if_neg (not_or.mpr ⟨hsup, hli⟩)]
            exact (Nat.zero_add _).symm
      rw [hcons, hcons, hcons, hcons, htag, ih]
      omega

/-- Each of some elements links to one of some others, which has its id for itself. -/
def LinksTo (ps : List Piece) (links others : List (Text × Option Text)) : Prop :=
  ∀ link ∈ links, ∃ other ∈ others, link.2 = some ('#' :: other.1) ∧ (ids ps).count other.1 = 1

instance (ps : List Piece) (links others : List (Text × Option Text)) : Decidable (LinksTo ps links others) :=
  inferInstanceAs <| Decidable <|
    ∀ link ∈ links, ∃ other ∈ others, link.2 = some ('#' :: other.1) ∧ (ids ps).count other.1 = 1

/-- Every link between a footnote and its text has its other end. -/
structure Linked (ps : List Piece) : Prop where
  back : LinksTo ps (noteLinks ps) (originLinks ps)
  forth : LinksTo ps (originLinks ps) (noteLinks ps)
  /-- The ends correspond one to one. -/
  inverse : ∀ note ∈ noteLinks ps, ∀ origin ∈ originLinks ps,
    note.2 = some ('#' :: origin.1) ↔ origin.2 = some ('#' :: note.1)

/-- Links by marks lead to the elements with the same marks. -/
theorem linksTo_iff {ps : List Piece} {f g : Mark → Text} {l others : List Mark}
    (hg : ∀ m ∈ l, ∀ m' ∈ others, g m = g m' → m = m') :
    LinksTo ps (l.map fun m => (f m, some ('#' :: g m))) (others.map fun m => (g m, some ('#' :: f m))) ↔
      ∀ m ∈ l, m ∈ others ∧ (ids ps).count (g m) = 1 := by
  constructor
  · intro h m hm
    obtain ⟨other, hother, heq, hcount⟩ := h _ (List.mem_map_of_mem hm)
    obtain ⟨m', hm', rfl⟩ := List.mem_map.mp hother
    obtain rfl := hg m hm m' hm' (List.cons.inj (Option.some.inj heq)).2
    exact ⟨hm', hcount⟩
  · intro h link hlink
    obtain ⟨m, hm, rfl⟩ := List.mem_map.mp hlink
    obtain ⟨hother, hcount⟩ := h m hm
    exact ⟨_, List.mem_map_of_mem hother, rfl, hcount⟩

/-- No other element has the id of a footnote's origin or text. -/
def AreApart (ps : List Piece) : Prop :=
  ∀ id ∈ otherIds ps, id ∉ (originLinks ps).map Prod.fst ∧ id ∉ (noteLinks ps).map Prod.fst

instance (ps : List Piece) : Decidable (AreApart ps) :=
  inferInstanceAs <| Decidable <|
    ∀ id ∈ otherIds ps, id ∉ (originLinks ps).map Prod.fst ∧ id ∉ (noteLinks ps).map Prod.fst

section

open Footnotes (ShownOnce)
open Forest (shownOrigins shownNotes blockEnds)

variable {l : List Node} {marks : List Mark} {ps : List Piece}

theorem eq_of_mem_marks (h : ShownOnce l marks) {m m' : Mark} (hm : m ∈ marks) (hm' : m' ∈ marks)
    (heq : m.chapter = m'.chapter ∧ m.index = m'.index) : m = m' :=
  List.inj_on_of_nodup_map h.distinct hm hm' (Prod.ext heq.1 heq.2)

/-- Ids by chapter and index are different. -/
theorem nodup_ids (h : ShownOnce l marks) {more : List Mark} (hmore : more.Subperm marks) {f : Mark → Text}
    (hf : ∀ m m', f m = f m' → m.chapter = m'.chapter ∧ m.index = m'.index) : (more.map f).Nodup := by
  obtain ⟨sub, hperm, hsub⟩ := hmore
  refine (hperm.map f).nodup_iff.mp ?_
  refine List.Nodup.map_on (fun m hm m' hm' heq => ?_) (h.distinct.of_map.sublist hsub)
  exact eq_of_mem_marks h (hsub.subset hm) (hsub.subset hm') (hf m m' heq)

theorem mem_shownNotes (h : ShownOnce l marks) {m : Mark} (hm : m ∈ shownOrigins l) : m ∈ shownNotes l :=
  h.notes.mem_iff.mpr (h.origins.subset hm)

theorem linksTo_noteLinks (hshows : Shows (blockEnds l) ps) (h : ShownOnce l marks) :
    LinksTo ps (originLinks ps) (noteLinks ps) ↔ ∀ m ∈ shownOrigins l, (ids ps).count m.noteId = 1 := by
  have hiff : LinksTo ps ((shownOrigins l).map fun m => (m.originId, some ('#' :: m.noteId)))
      ((shownNotes l).map fun m => (m.noteId, some ('#' :: m.originId))) ↔
        ∀ m ∈ shownOrigins l, m ∈ shownNotes l ∧ (ids ps).count m.noteId = 1 :=
    linksTo_iff fun m hm m' hm' heq =>
      eq_of_mem_marks h (h.origins.subset hm) (h.notes.mem_iff.mp hm') (Mark.eq_of_noteId heq)
  rw [hshows.origins_eq, hshows.notes_eq]
  exact hiff.trans ⟨fun hall m hm => (hall m hm).2, fun hall m hm => ⟨mem_shownNotes h hm, hall m hm⟩⟩

theorem linksTo_originLinks (hshows : Shows (blockEnds l) ps) (h : ShownOnce l marks) :
    LinksTo ps (noteLinks ps) (originLinks ps) ↔
      ∀ m ∈ shownNotes l, m ∈ shownOrigins l ∧ (ids ps).count m.originId = 1 := by
  rw [hshows.origins_eq, hshows.notes_eq]
  exact linksTo_iff fun m hm m' hm' heq =>
    eq_of_mem_marks h (h.notes.mem_iff.mp hm) (h.origins.subset hm') (Mark.eq_of_originId heq)

/-- No other element has the ids exactly if they are the ids of one element each. -/
theorem areApart_iff (hshows : Shows (blockEnds l) ps) (h : ShownOnce l marks) :
    AreApart ps ↔ (∀ m ∈ shownOrigins l, (ids ps).count m.originId = 1) ∧
      ∀ m ∈ shownNotes l, (ids ps).count m.noteId = 1 := by
  have horigins : (originLinks ps).map Prod.fst = (shownOrigins l).map Mark.originId := by
    rw [hshows.origins_eq, List.map_map]
    rfl
  have hnotes : (noteLinks ps).map Prod.fst = (shownNotes l).map Mark.noteId := by
    rw [hshows.notes_eq, List.map_map]
    rfl
  have horigin : ∀ m ∈ shownOrigins l, (ids ps).count m.originId = 1 ↔ m.originId ∉ otherIds ps := by
    intro m hm
    have hown : ((shownOrigins l).map Mark.originId).count m.originId = 1 :=
      List.count_eq_one_of_mem (nodup_ids h h.origins fun _ _ => Mark.eq_of_originId) (List.mem_map_of_mem hm)
    have hnone : ((shownNotes l).map Mark.noteId).count m.originId = 0 := by
      refine List.count_eq_zero.mpr fun hmem => ?_
      obtain ⟨m', -, heq⟩ := List.mem_map.mp hmem
      exact Mark.originId_ne_noteId m m' heq.symm
    rw [count_ids, horigins, hnotes, hown, hnone, ← List.count_eq_zero]
    omega
  have hnote : ∀ m ∈ shownNotes l, (ids ps).count m.noteId = 1 ↔ m.noteId ∉ otherIds ps := by
    intro m hm
    have hown : ((shownNotes l).map Mark.noteId).count m.noteId = 1 :=
      List.count_eq_one_of_mem (nodup_ids h h.notes.subperm fun _ _ => Mark.eq_of_noteId) (List.mem_map_of_mem hm)
    have hnone : ((shownOrigins l).map Mark.originId).count m.noteId = 0 := by
      refine List.count_eq_zero.mpr fun hmem => ?_
      obtain ⟨m', -, heq⟩ := List.mem_map.mp hmem
      exact Mark.originId_ne_noteId m' m heq
    rw [count_ids, horigins, hnotes, hown, hnone, ← List.count_eq_zero]
    omega
  rw [AreApart, horigins, hnotes]
  constructor
  · intro hapart
    refine ⟨fun m hm => (horigin m hm).mpr fun hother => ?_, fun m hm => (hnote m hm).mpr fun hother => ?_⟩
    · exact (hapart _ hother).1 (List.mem_map_of_mem hm)
    · exact (hapart _ hother).2 (List.mem_map_of_mem hm)
  · rintro ⟨hall, hallNotes⟩ id hid
    constructor
    · intro hmem
      obtain ⟨m, hm, rfl⟩ := List.mem_map.mp hmem
      exact (horigin m hm).mp (hall m hm) hid
    · intro hmem
      obtain ⟨m, hm, rfl⟩ := List.mem_map.mp hmem
      exact (hnote m hm).mp (hallNotes m hm) hid

/-- The links have both ends exactly if all footnotes are shown and no other element has their ids. -/
theorem linked_iff (hshows : Shows (blockEnds l) ps) (h : ShownOnce l marks) :
    Linked ps ↔ (shownOrigins l).length = marks.length ∧ AreApart ps := by
  rw [areApart_iff hshows h]
  constructor
  · rintro ⟨hback, hforth, -⟩
    rw [linksTo_originLinks hshows h] at hback
    rw [linksTo_noteLinks hshows h] at hforth
    refine ⟨Nat.le_antisymm h.origins.length_le ?_, fun m hm => (hback m (mem_shownNotes h hm)).2,
      fun m hm => hforth m (hback m hm).1⟩
    have hsubset : marks ⊆ shownOrigins l := fun m hm => (hback m (h.notes.mem_iff.mpr hm)).1
    exact (h.distinct.of_map.subperm hsubset).length_le
  · rintro ⟨hlength, horigins, hnotes⟩
    have hperm : (shownOrigins l).Perm marks := h.origins.perm_of_length_le hlength.ge
    have hmem : ∀ m, m ∈ shownNotes l ↔ m ∈ shownOrigins l := fun m => h.notes.mem_iff.trans hperm.mem_iff.symm
    refine ⟨?_, ?_, ?_⟩
    · exact (linksTo_originLinks hshows h).mpr fun m hm => ⟨(hmem m).mp hm, horigins m ((hmem m).mp hm)⟩
    · exact (linksTo_noteLinks hshows h).mpr fun m hm => hnotes m ((hmem m).mpr hm)
    · rw [hshows.origins_eq, hshows.notes_eq]
      intro note hnote origin horigin
      obtain ⟨m, hm, rfl⟩ := List.mem_map.mp hnote
      obtain ⟨m', hm', rfl⟩ := List.mem_map.mp horigin
      have hm := h.notes.mem_iff.mp hm
      have hm' := hperm.mem_iff.mp hm'
      constructor
      · intro heq
        have hid : m.originId = m'.originId := (List.cons.inj (Option.some.inj heq)).2
        rw [eq_of_mem_marks h hm hm' (Mark.eq_of_originId hid)]
      · intro heq
        have hid : m'.noteId = m.noteId := (List.cons.inj (Option.some.inj heq)).2
        rw [eq_of_mem_marks h hm' hm (Mark.eq_of_noteId hid)]

end

end Html

namespace Document

open Html Footnotes
open Forest (preorder shownOrigins shownNotes)

/-- The pieces that a document is written as, with the text of code blocks as it is. -/
def rawPieces (d : Document) (words : Words) (outline : Option Bool) : List Piece :=
  d.pieces (d.sheet words outline .raw)

/-- The HTML of a document with `count` footnotes links them and their texts. -/
structure IsLinked (d : Document) (count : Nat) (words : Words) (outline : Option Bool) : Prop where
  html_eq : d.html (d.setting words outline) = written (d.rawPieces words outline)
  /-- Each footnote that is shown has a link to the text with its number. -/
  originLinks_eq : originLinks (d.rawPieces words outline) =
    (shownOrigins d.children).map fun m => (m.originId, some ('#' :: m.noteId))
  /-- Each text that is shown has a link back. -/
  noteLinks_eq : noteLinks (d.rawPieces words outline) =
    (shownNotes d.children).map fun m => (m.noteId, some ('#' :: m.originId))
  /-- No two of them have one id. -/
  nodup_ids : ((originLinks (d.rawPieces words outline) ++ noteLinks (d.rawPieces words outline)).map Prod.fst).Nodup
  /-- The texts of all footnotes are shown. -/
  length_shownNotes : (shownNotes d.children).length = count
  /-- No footnote that is shown is without its text. -/
  forth : AreApart (d.rawPieces words outline) →
    LinksTo (d.rawPieces words outline) (originLinks (d.rawPieces words outline))
      (noteLinks (d.rawPieces words outline))
  /-- The links have both ends exactly if all footnotes are shown, too, and no other element has their ids. -/
  linked_iff : Linked (d.rawPieces words outline) ↔
    (shownOrigins d.children).length = count ∧ AreApart (d.rawPieces words outline)

/-- The footnotes of a document are linked once they are numbered and placed. -/
theorem isLinked {d : Document} (hlists : ∀ n ∈ preorder d.children, isList n.kind = false)
    (hchapters : BlockChapters d.children) (cache : Cache) (isArticle : Bool) (style : FootnoteStyle) (words : Words)
    (outline : Option Bool) :
    ((d.number cache isArticle).1.placeFootnotes style).1.IsLinked
      ((d.number cache isArticle).1.placeFootnotes style).2 words outline := by
  have hclean := clean_numbered hlists hchapters.noNestedChapters cache isArticle
  have hnumbered := hchapters.of_shape (d.shape_number cache isArticle)
  obtain ⟨marks, hcount, honce⟩ := exists_shownOnce hclean hnumbered style
  generalize (d.number cache isArticle).1.placeFootnotes style = placed at hcount honce
  obtain ⟨placed, count⟩ := placed
  obtain rfl : count = marks.length := hcount
  have hshows := shows_pieces placed words outline
  have hiff := linked_iff hshows honce
  constructor
  case html_eq => exact placed.html_eq_written (fits_sheet placed words outline .raw)
  case originLinks_eq => exact hshows.origins_eq
  case noteLinks_eq => exact hshows.notes_eq
  case nodup_ids =>
    rw [rawPieces, hshows.origins_eq, hshows.notes_eq, List.map_append, List.map_map, List.map_map]
    refine List.Nodup.append (nodup_ids honce honce.origins fun _ _ => Mark.eq_of_originId)
      (nodup_ids honce honce.notes.subperm fun _ _ => Mark.eq_of_noteId) fun id horigin hnote => ?_
    obtain ⟨m, -, rfl⟩ := List.mem_map.mp horigin
    obtain ⟨m', -, heq⟩ := List.mem_map.mp hnote
    exact Mark.originId_ne_noteId m m' heq.symm
  case length_shownNotes => exact honce.notes.length_eq
  case forth =>
    intro hapart
    refine (linksTo_noteLinks hshows honce).mpr fun m hm => ?_
    exact ((areApart_iff hshows honce).mp hapart).2 m (mem_shownNotes honce hm)
  case linked_iff => exact hiff

end Document

namespace CaptionNote

/-- Footnotes in a paragraph, in another footnote and in a caption. -/
def source : Text :=
  "<document><chapter><p>a<footnote>b<footnote>c</footnote></footnote></p></chapter>" ++
    "<chapter><figure><caption>d<footnote>e</footnote></caption></figure></chapter></document>"

def parsed : Document := (Document.parse? source).get (by decide +kernel)

theorem parse_source : Document.parse? source = some parsed := (Option.some_get _).symm

def numbered : Document := (parsed.number (.empty "s") false).1

theorem checked : Footnotes.BlockChapters parsed.children ∧ (numbered.placeFootnotes .symbols).2 = 3 ∧
    (Forest.shownOrigins (numbered.placeFootnotes .symbols).1.children).length = 3 ∧
      Html.AreApart ((numbered.placeFootnotes .symbols).1.rawPieces .default (some false)) := by
  decide +kernel

/-- All links have both ends. -/
theorem linked_placed : (numbered.placeFootnotes .symbols).1.IsLinked 3 .default (some false) ∧
    Html.Linked ((numbered.placeFootnotes .symbols).1.rawPieces .default (some false)) := by
  obtain ⟨hchapters, hcount, hshown, hapart⟩ := checked
  have hlinked := Document.isLinked (Footnotes.isList_eq_false_of_parse parse_source) hchapters (.empty "s") false
    .symbols .default (some false)
  have hthree : (numbered.placeFootnotes .symbols).1.IsLinked 3 .default (some false) := hcount ▸ hlinked
  exact ⟨hthree, hthree.linked_iff.mpr ⟨hshown, hapart⟩⟩

end CaptionNote

namespace TitleNote

/-- A footnote in the title of a chapter and one in a paragraph. -/
def source : Text :=
  "<chapter><title>T<footnote>a</footnote></title><p>b<footnote>c</footnote></p></chapter>"

def parsed : Document := (Document.parse? source).get (by decide +kernel)

def placed : Document := ((parsed.number (.empty "s") false).1.placeFootnotes .numbered).1

/-- The text of the first footnote links back to an element that is not there. -/
theorem not_linked : Document.parse? source = some parsed ∧ Footnotes.BlockChapters parsed.children ∧
    ¬Html.Linked (placed.rawPieces .default (some false)) := by
  have hchapters : Footnotes.BlockChapters parsed.children := by decide +kernel
  have hback : ¬Html.LinksTo (placed.rawPieces .default (some false))
      (Html.noteLinks (placed.rawPieces .default (some false)))
        (Html.originLinks (placed.rawPieces .default (some false))) := by
    decide +kernel
  exact ⟨(Option.some_get _).symm, hchapters, fun h => hback h.back⟩

end TitleNote

end Manuscript
