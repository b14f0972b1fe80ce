import Manuscript.Proofs.Html.Pieces

/-!
The links between footnotes and their texts, as they are found in the opening tags of a document: the first link in a
footnote's origin, and the arrow in a footnote's text.

Main statement: these are the links for the footnotes and items that the document shows (`shows_pieces`).
-/

namespace Manuscript.Html

def Piece.tag? : Piece → Option Tag
  | .opens _ tag => some tag
  | _ => none

/-- The opening tags among some pieces. -/
def tags (ps : List Piece) : List Tag := ps.filterMap Piece.tag?

namespace Tag

/-- The value of an attribute. -/
def attribute? (tag : Tag) (name : Text) : Option Text := (tag.attributes.find? fun a => a.1 = name).map Prod.snd

def id? (tag : Tag) : Option Text := tag.attribute? "id"

/-- The id of a footnote's origin. -/
def originId? (tag : Tag) : Option Text := if tag.name = "sup" then tag.id? else none

/-- The id of a footnote's text. -/
def noteId? (tag : Tag) : Option Text := if tag.name = "li" then tag.id? else none

/-- The id of something else. -/
def otherId? (tag : Tag) : Option Text := if tag.name = "sup" ∨ tag.name = "li" then none else tag.id?

/-- The address of a link. -/
def href? (tag : Tag) : Option Text := if tag.name = "a" then tag.attribute? "href" else none

/-- The address of an arrow.  The links of the document itself have their addresses before their classes. -/
def arrow? (tag : Tag) : Option Text :=
  if tag.name = "a" ∧ tag.attributes.head? = some (("class" : Text), ("arrow" : Text)) then tag.attribute? "href"
  else none

/-- Is the tag that of no end of a footnote's links, whatever the values of its attributes? -/
def isNeutral (tag : Tag) : Bool :=
  ((tag.name != "sup" && tag.name != "li") || tag.attributes.all fun a => a.1 != ("id" : Text)) &&
    (tag.name != "a" || tag.attributes.head?.all fun a => a.1 != ("class" : Text))

theorem of_isNeutral {tag : Tag} (h : tag.isNeutral = true) :
    tag.originId? = none ∧ tag.noteId? = none ∧ tag.arrow? = none := by
  simp only [isNeutral, Bool.and_eq_true, Bool.or_eq_true, bne_iff_ne, List.all_eq_true] at h
  obtain ⟨hid, harrow⟩ := h
  have hnone : tag.name = "sup" ∨ tag.name = "li" → tag.id? = none := by
    intro hname
    have hattributes := hid.resolve_left fun hne => hname.elim hne.1 hne.2
    rw [id?, attribute?, List.find?_eq_none.mpr fun a ha => by simpa using hattributes a ha]
    rfl
  refine ⟨?_, ?_, ?_⟩
  · rw [originId?]
    split
    · rename_i hname
      exact hnone (.inl hname)
    · rfl
  · rw [noteId?]
    split
    · rename_i hname
      exact hnone (.inr hname)
    · rfl
  · refine if_neg fun ⟨hname, hhead⟩ => ?_
    have hclass := harrow.resolve_left fun hne => hne hname
    rw [hhead] at hclass
    exact absurd hclass (by decide)

end Tag

/-- Each element that has an id of a kind, with the address of the first link of a kind after its beginning. -/
def linksFrom (source target : Tag → Option Text) : List Tag → List (Text × Option Text)
  | [] => []
  | tag :: rest =>
    match source tag with
    | some id => (id, rest.findSome? target) :: linksFrom source target rest
    | none => linksFrom source target rest

/-- The origins of footnotes with their links. -/
def originLinks (ps : List Piece) : List (Text × Option Text) := linksFrom Tag.originId? Tag.href? (tags ps)

/-- The texts of footnotes with their arrows. -/
def noteLinks (ps : List Piece) : List (Text × Option Text) := linksFrom Tag.noteId? Tag.arrow? (tags ps)

/-- In the text of a footnote its arrow is the link back, and not the link of another footnote. -/
example : noteLinks (wrap "li" [("id", "b")] (wrap "a" [("href", "#c")] [] ++
    wrap "a" [("class", "arrow"), ("href", "#a")] [])) =
      [(("b" : Text), some ("#a" : Text))] := by decide

theorem linksFrom_append {source target : Tag → Option Text} {l : List Tag}
    (h : ∀ link ∈ linksFrom source target l, link.2.isSome = true) (more : List Tag) :
    linksFrom source target (l ++ more) = linksFrom source target l ++ linksFrom source target more := by
  induction l with
  | nil => rfl
  | cons tag l ih =>
      rw [List.cons_append, linksFrom, linksFrom]
      rw [linksFrom] at h
      split at h
      · rename_i id hid
        obtain ⟨hfirst, hrest⟩ := List.forall_mem_cons.mp h
        rw [ih hrest, List.findSome?_append, Option.or_of_isSome hfirst]
        rfl
      · exact ih h

theorem linksFrom_cons_none {source : Tag → Option Text} {tag : Tag} (h : source tag = none)
    (target : Tag → Option Text) (rest : List Tag) :
    linksFrom source target (tag :: rest) = linksFrom source target rest := by
  rw [linksFrom, h]

/-- The elements are found in the order in which they begin. -/
theorem map_fst_linksFrom (source target : Tag → Option Text) (l : List Tag) :
    (linksFrom source target l).map Prod.fst = l.filterMap source := by
  induction l with
  | nil => rfl
  | cons tag l ih =>
      rw [linksFrom, List.filterMap_cons]
      cases source tag with
      | none => exact ih
      | some id => exact congrArg (id :: ·) ih

theorem tags_append (ps qs : List Piece) : tags (ps ++ qs) = tags ps ++ tags qs := List.filterMap_append

theorem tags_shown (t : Text) : tags (shown t) = [] := filterMap_shown (fun _ _ => rfl) t

theorem tags_raw (t : Text) : tags (raw t) = [] := filterMap_raw (fun _ _ => rfl) t

theorem tags_wrap (name : Text) (attributes : List (Text × Text)) (content : List Piece) :
    tags (wrap name attributes content) = ⟨name, attributes, false⟩ :: tags content := by
  change _ :: tags (content ++ [.closes name]) = _
  rw [tags_append]
  exact congrArg _ (List.append_nil _)

/-- The links in some pieces are those for the footnotes and items that are shown. -/
structure Shows (ends : List FootnoteEnd) (ps : List Piece) : Prop where
  origins_eq : originLinks ps =
    (ends.filterMap FootnoteEnd.origin?).map fun mark => (mark.originId, some ('#' :: mark.noteId))
  notes_eq : noteLinks ps =
    (ends.filterMap FootnoteEnd.note?).map fun mark => (mark.noteId, some ('#' :: mark.originId))
  /-- Arrows are in items only. -/
  arrowless : ends.filterMap FootnoteEnd.note? = [] → ∀ tag ∈ tags ps, tag.arrow? = none

namespace Shows

variable {ends more : List FootnoteEnd} {ps qs : List Piece}

theorem of_tags (h : Shows ends ps) (htags : tags qs = tags ps) : Shows ends qs := by
  constructor
  · rw [originLinks, htags]
    exact h.origins_eq
  · rw [noteLinks, htags]
    exact h.notes_eq
  · rw [htags]
    exact h.arrowless

theorem nil : Shows [] [] := ⟨rfl, rfl, fun _ _ htag => absurd htag List.not_mem_nil⟩

theorem append (hps : Shows ends ps) (hqs : Shows more qs) : Shows (ends ++ more) (ps ++ qs) := by
  have hsome : ∀ {links : List (Text × Option Text)} {marks : List Mark} {f g : Mark → Text},
      links = marks.map (fun mark => (f mark, some (g mark))) → ∀ link ∈ links, link.2.isSome = true := by
    rintro links marks f g rfl link hlink
    obtain ⟨mark, -, rfl⟩ := List.mem_map.mp hlink
    rfl
  constructor
  · rw [originLinks, tags_append, linksFrom_append (hsome hps.origins_eq), List.filterMap_append, List.map_append,
      ← hps.origins_eq, ← hqs.origins_eq]
    rfl
  · rw [noteLinks, tags_append, linksFrom_append (hsome hps.notes_eq), List.filterMap_append, List.map_append,
      ← hps.notes_eq, ← hqs.notes_eq]
    rfl
  · rw [List.filterMap_append, List.append_eq_nil_iff, tags_append, List.forall_mem_append]
    exact fun hnone => ⟨hps.arrowless hnone.1, hqs.arrowless hnone.2⟩

/-- A tag that is no end of a link changes nothing. -/
theorem neutral (h : Shows ends ps) {tag : Tag} (hneutral : tag.isNeutral = true) (htags : tags qs = tag :: tags ps) :
    Shows ends qs := by
  obtain ⟨horigin, hnote, harrow⟩ := Tag.of_isNeutral hneutral
  constructor
  · rw [originLinks, htags, linksFrom_cons_none horigin]
    exact h.origins_eq
  · rw [noteLinks, htags, linksFrom_cons_none hnote]
    exact h.notes_eq
  · rw [htags]
    exact fun hnone => List.forall_mem_cons.mpr ⟨harrow, h.arrowless hnone⟩

theorem wrap (h : Shows ends ps) {name : Text} {attributes : List (Text × Text)}
    (hneutral : (⟨name, attributes, false⟩ : Tag).isNeutral = true) : Shows ends (wrap name attributes ps) :=
  h.neutral hneutral (tags_wrap name attributes ps)

theorem of_forall_isNeutral (h : ∀ tag ∈ tags ps, tag.isNeutral = true) : Shows [] ps := by
  have hnone : ∀ (source target : Tag → Option Text) (l : List Tag), (∀ tag ∈ l, source tag = none) →
      linksFrom source target l = [] := by
    intro source target l hl
    have hnil := map_fst_linksFrom source target l
    rw [List.filterMap_eq_nil_iff.mpr hl] at hnil
    exact List.map_eq_nil_iff.mp hnil
  exact ⟨hnone _ _ _ fun tag htag => (Tag.of_isNeutral (h tag htag)).1,
    hnone _ _ _ fun tag htag => (Tag.of_isNeutral (h tag htag)).2.1,
    fun _ tag htag => (Tag.of_isNeutral (h tag htag)).2.2⟩

/-- The origin of a footnote. -/
theorem origin (mark : Mark) : Shows [.origin mark] (footnotePieces .body (some mark) []) := by
  have htags : tags (footnotePieces .body (some mark) []) =
      [⟨"sup", [("id", mark.originId), ("class", "footnote")], false⟩,
        ⟨"a", [("href", '#' :: mark.noteId)], false⟩] := by
    rw [footnotePieces, tags_wrap, tags_wrap, tags_shown]
  constructor
  · rw [originLinks, htags]
    rfl
  · rw [noteLinks, htags]
    rfl
  · rw [htags]
    intro _ tag htag
    simp only [List.mem_cons, List.not_mem_nil, or_false] at htag
    obtain rfl | rfl := htag <;> rfl

/-- The text of a footnote, in which there is no other arrow. -/
theorem note (mark : Mark) (hends : ends.filterMap FootnoteEnd.note? = []) (h : Shows ends ps) :
    Shows (.note mark :: ends) (Html.wrap "li" [("id", mark.noteId)] (ps ++ arrowPieces mark)) := by
  let arrow : Tag := ⟨"a", [("class", "arrow"), ("href", '#' :: mark.originId)], false⟩
  have htags : tags (Html.wrap "li" [("id", mark.noteId)] (ps ++ arrowPieces mark)) =
      ⟨"li", [("id", mark.noteId)], false⟩ :: (tags ps ++ [arrow]) := by
    rw [tags_wrap, tags_append, arrowPieces, tags_wrap]
    rfl
  have hnotes : noteLinks ps = [] := by
    rw [h.notes_eq, hends]
    rfl
  have hsource : ∀ l : List Tag, linksFrom Tag.noteId? Tag.arrow? l = [] →
      linksFrom Tag.noteId? Tag.arrow? (l ++ [arrow]) = [] := by
    intro l hl
    rw [linksFrom_append (hl ▸ fun link hlink => absurd hlink List.not_mem_nil), hl]
    rfl
  have hfirst : (tags ps ++ [arrow]).findSome? Tag.arrow? = some ('#' :: mark.originId) := by
    rw [List.findSome?_append, List.findSome?_eq_none_iff.mpr (h.arrowless hends)]
    rfl
  constructor
  · have horigins : ∀ link ∈ originLinks ps, link.2.isSome = true := by
      rw [h.origins_eq]
      intro link hlink
      obtain ⟨origin, -, rfl⟩ := List.mem_map.mp hlink
      rfl
    rw [originLinks, htags, linksFrom_cons_none (by rfl), linksFrom_append horigins]
    exact (List.append_nil _).trans h.origins_eq
  · have hcons : linksFrom Tag.noteId? Tag.arrow? (⟨"li", [("id", mark.noteId)], false⟩ :: (tags ps ++ [arrow])) =
        (mark.noteId, (tags ps ++ [arrow]).findSome? Tag.arrow?) ::
          linksFrom Tag.noteId? Tag.arrow? (tags ps ++ [arrow]) := rfl
    have hmarks : (FootnoteEnd.note mark :: ends).filterMap FootnoteEnd.note? = [mark] := congrArg (mark :: ·) hends
    rw [noteLinks, htags, hcons, hfirst, hsource _ hnotes, hmarks]
    rfl
  · exact fun hnone => absurd hnone (List.cons_ne_nil _ _)

end Shows

theorem isNeutral_of_isPlainTag {tag : Tag} (h : IsPlainTag tag) : tag.isNeutral = true := by
  have hnames : ∀ name ∈ plainNames, (name != "sup" && name != "li") = true ∧ (name != "a") = true := by decide
  cases h with
  | wrapper place h =>
      cases h with
      | plain h _ =>
          rw [Tag.isNeutral, (hnames _ h).1, (hnames _ h).2]
          rfl
      | link | item | sup => rfl
  | lineBreak | graphic | entry => rfl

/-- Is the piece no end of a footnote's links? -/
def Piece.isNeutral : Piece → Bool
  | .opens _ tag => tag.isNeutral
  | _ => true

theorem admitsPlain_isNeutral : AdmitsPlain fun p => p.isNeutral = true where
  opens _ htag := isNeutral_of_isPlainTag htag
  closes _ _ := rfl
  char _ := rfl
  relay indent isRaw tag h := by
    have hrelay : Tag.isNeutral { tag with attributes := tag.attributes.map fun a => (a.1, relay indent a.2) } =
        tag.isNeutral := by
      rw [Tag.isNeutral, Tag.isNeutral, List.all_map, List.head?_map, Option.all_map]
      rfl
    exact hrelay.trans h

theorem Shows.of_pieces {ps : List Piece} (h : ∀ p ∈ ps, p.isNeutral = true) : Shows [] ps := by
  refine .of_forall_isNeutral fun tag htag => ?_
  obtain ⟨p, hp, heq⟩ := List.mem_filterMap.mp htag
  have hneutral := h p hp
  cases p with
  | opens isRaw own =>
      obtain rfl := Option.some.inj heq
      exact hneutral
  | _ => cases heq

theorem composes_shows : Composes fun _ ends ps => Shows ends ps where
  shown _ t := Shows.nil.of_tags (tags_shown t)
  append hps hqs := hps.append hqs
  trim hps := hps.of_tags (filterMap_trimPieces (fun _ _ => rfl) _)
  blank hps hblank := hps.of_tags (filterMap_blank (fun _ _ => rfl) (List.all_eq_true.mp hblank)).symm
  wrap hwrapper hcontent := hcontent.wrap (isNeutral_of_isPlainTag (.wrapper _ hwrapper))
  heading level _ _ hcontent := (hcontent.wrap (by rfl)).wrap (by cases level <;> rfl)
  lineBreak _ := Shows.nil.neutral (by decide) rfl
  graphic _ _ := Shows.nil.neutral (by rfl) rfl
  origin mark := .origin mark
  note mark _ _ hends hcontent := hcontent.note mark hends

theorem isNeutral_urlPieces (place : Place) (t : Text) : ∀ p ∈ urlPieces place t, p.isNeutral = true := by
  have hraw : ∀ p ∈ raw t, p.isNeutral = true := by
    intro p hp
    obtain ⟨c, -, rfl⟩ := List.mem_map.mp hp
    rfl
  cases place with
  | heading => exact forall_mem_wrap (by rfl) hraw rfl
  | body =>
      exact List.forall_mem_cons.mpr
        ⟨by rfl, List.forall_mem_append.mpr ⟨hraw, List.forall_mem_singleton.mpr rfl⟩⟩

/-- The links in a document are those for the footnotes and items that it shows. -/
theorem shows_pieces (d : Document) (words : Words) (outline : Option Bool) :
    Shows (Forest.blockEnds d.children) (d.pieces (d.sheet words outline .raw)) := by
  have hraw : AllowsRaw (fun _ ends ps => Shows ends ps) (d.sheet words outline .raw) d.children := by
    refine ⟨fun n _ _ place => .of_pieces (isNeutral_urlPieces place _), fun n _ _ => Shows.nil.of_tags (tags_raw _),
      fun n _ number _ => Shows.nil.of_tags (tags_raw number), fun entries hentries indent => ?_⟩
    obtain ⟨isArticle, -, rfl⟩ := Option.map_eq_some_iff.mp hentries
    refine .of_pieces (admitsPlain_isNeutral.relayPieces indent (admitsPlain_isNeutral.headings isArticle ?_ ?_))
    · exact fun n _ _ => isNeutral_urlPieces .heading _
    · intro n _ number _ p hp
      obtain ⟨c, -, rfl⟩ := List.mem_map.mp hp
      rfl
  exact ((composes_shows.laid_blocksSteps hraw).1.laidOut 0).of_tags (d.filterMap_pieces (fun _ _ => rfl) _)

end Manuscript.Html
