import Manuscript.Html.Body
import Manuscript.Proofs.Salt.References

/-!
HTML of documents that are written alike.

Main statements: the HTML of such documents is alike (`html_alike`), and so is that of their outlines (`outline_alike`).
-/

namespace Manuscript

/-- Entries that are the same but for related ids and titles. -/
structure OutlineEntry.Like (like : Likeness) (e e' : OutlineEntry) : Prop where
  depth : e.depth = e'.depth
  level : e.level = e'.level
  id : like.named e.id e'.id
  number : e.number = e'.number
  title : like.shown e.title e'.title

namespace Salts

open Html

variable {first second : Text} {calls : List Call} {t t' u u' : Text}

theorem Alike.between (l r : Text) (h : (of first second calls).Alike t t') :
    (of first second calls).Alike (l ++ t ++ r) (l ++ t' ++ r) :=
  ((Alike.refl l).append h).append (.refl r)

section Inlines

variable {a a' : Attrs} {n n' : Node} {children children' : List Node}

theorem attrs_alike (ha : a.Like (written first second calls) a') (base : Option Text) :
    (of first second calls).Alike (attrs a base) (attrs a' base) := by
  have hclasses : List.Forall₂ (of first second calls).Alike (base.toList ++ a.classes) (base.toList ++ a'.classes) :=
    List.rel_append (List.forall₂_same.mpr fun t _ => .refl t) ha.classes
  have hid := ha.id
  unfold attrs
  dsimp only
  refine Alike.append ?_ ?_
  · generalize a.id = x, a'.id = x' at hid ⊢
    cases hid with
    | none => exact .refl []
    | some hid => exact hid.escapeAttribute.between _ _
  · generalize base.toList ++ a.classes = ts, base.toList ++ a'.classes = ts' at hclasses ⊢
    cases hclasses with
    | nil => exact .refl []
    | cons hone hrest => exact (Alike.escapeAttribute (.join _ (.cons hone hrest))).between _ _

theorem plainTexts_alike (h : List.Forall₂ (Node.Like (written first second calls)) children children') :
    (of first second calls).Alike (Node.plainTexts children) (Node.plainTexts children') := by
  induction children using Forest.induction generalizing children' with
  | nil =>
      cases h
      exact .refl []
  | cons n rest ihChildren ihRest =>
      obtain ⟨kind, a, number, children⟩ := n
      cases h with
      | cons hn hrest =>
          cases hn with
          | node hkind _ _ _ hchildren =>
              have hinside := ihChildren hchildren
              have hlater := ihRest hrest
              cases hkind with
              | text ht => exact (Alike.append ht hinside).append hlater
              | bare hbare =>
                  cases kind with
                  | text => cases hbare
                  | _ => exact ((Alike.refl []).append hinside).append hlater
              | _ => exact ((Alike.refl []).append hinside).append hlater

theorem ref_alike (place : Html.Place) (hlabel : (of first second calls).Alike t t') (style : RefStyle)
    {target target' : Option Target} (htarget : Option.Rel (Target.Like (written first second calls)) target target')
    {phrase phrase' : Option Text} (hphrase : Option.Rel (of first second calls).Alike phrase phrase') :
    (of first second calls).Alike (ref place t style target phrase) (ref place t' style target' phrase') := by
  cases htarget with
  | none => exact hlabel.escapeText.between _ _
  | @some target target' htarget =>
      have hword := (Alike.escapeText (rel_getD hphrase (.refl []))).append (.refl "<span class=\"ref\">")
      have hshown := (hword.append (.refl (escapeText (refNumber style target'.number)))).append (.refl "</span>")
      unfold ref
      dsimp only
      rw [htarget.2]
      cases place with
      | heading => exact hshown
      | body => exact ((Alike.between _ _ (Alike.escapeAttribute htarget.1)).append hshown).append (.refl _)

/-- Nodes are shown alike within a line if what is inside them is. -/
theorem inline_alike (place : Html.Place) (h : n.Like (written first second calls) n')
    (hcontent : (of first second calls).Alike (inlines place n.children) (inlines place n'.children)) :
    (of first second calls).Alike (inline place n) (inline place n') := by
  cases h with
  | @node kind kind' hkind a a' ha number children children' hjoined hchildren =>
      dsimp only at hcontent
      cases hkind with
      | text ht => exact Alike.escapeText ht
      | link hhref =>
          cases place with
          | heading => exact hcontent
          | body =>
              have hopening := ((Alike.escapeAttribute hhref).between "<a href=\"" "\"").append (attrs_alike ha none)
              exact ((hopening.append (.refl ">")).append hcontent).append (.refl "</a>")
      | graphic hsrc =>
          have haddress := Alike.escapeAttribute hsrc
          exact ((haddress.between "<img src=\"" "\" alt=\"").append haddress).append (.refl "\" />")
      | ref hlabel style htarget hphrase => exact ref_alike place hlabel style htarget hphrase
      | bare hbare =>
          cases kind with
          | text | link | ref | graphic => cases hbare
          | emph => exact hcontent.between "<em>" "</em>"
          | strong => exact hcontent.between "<strong>" "</strong>"
          | inlineCode => exact hcontent.between "<code class=\"tt\">" "</code>"
          | span => exact (((attrs_alike ha none).between "<span" ">").append hcontent).append (.refl "</span>")
          | inlineMath => exact hcontent.between "<span class=\"inline_math\">" "</span>"
          | url =>
              have haddress := (plainTexts_alike hchildren).trim
              cases place with
              | heading => exact haddress.between "<span class=\"url\">" "</span>"
              | body =>
                  exact ((haddress.between "<a href=\"" "\" class=\"url\">").append haddress).append (.refl "</a>")
          | footnote mark =>
              cases place with
              | heading => exact .refl []
              | body =>
                  cases mark with
                  | none => exact hcontent.between "<span class=\"footnote\">" "</span>"
                  | some mark => exact .refl _
          | intersentenceSpace | lineBreak | tableOfContents | footnoteList | footnoteItem => exact .refl _
          | _ => exact hcontent

theorem inlines_alike (place : Html.Place)
    (h : List.Forall₂ (Node.Like (written first second calls)) children children') :
    (of first second calls).Alike (inlines place children) (inlines place children') := by
  induction children using Forest.induction generalizing children' with
  | nil =>
      cases h
      exact .refl []
  | cons n rest ihChildren ihRest =>
      cases h with
      | cons hn hrest =>
          have hinside := inline_alike place hn (by
            cases hn with
            | node _ _ _ _ hchildren => exact ihChildren hchildren)
          exact hinside.append (ihRest hrest)

theorem headingTitle_alike (h : List.Forall₂ (Node.Like (written first second calls)) children children') :
    (of first second calls).Alike (headingTitle children) (headingTitle children') := by
  have htitle := title?_rel h
  unfold headingTitle
  generalize Node.title? children = x, Node.title? children' = x' at htitle ⊢
  cases htitle with
  | none => exact .refl []
  | some hboth =>
      cases hboth.1 with
      | node _ _ _ _ hinside => exact inlines_alike .heading hinside

end Inlines

section Blocks

variable {n n' : Node} {children children' : List Node}

theorem isBlock_eq (h : n.Like (written first second calls) n') : isBlock n = isBlock n' := by
  cases h with
  | node hkind => cases hkind <;> rfl

theorem line_alike (indent : Nat) (h : (of first second calls).Alike t t') :
    (of first second calls).Alike (line indent t) (line indent t') :=
  h.between _ _

theorem element_alike (indent : Nat) (tag : Text) (hattributes : (of first second calls).Alike t t')
    (hcontent : (of first second calls).Alike u u') :
    (of first second calls).Alike (element indent tag t u) (element indent tag t' u') := by
  have hopening := hattributes.between ("<" ++ tag) ">"
  exact ((line_alike indent hopening).append hcontent).append (.refl _)

theorem lineUnlessBlank_alike (indent : Nat) (hshown : (of first second calls).Alike t t')
    (h : (of first second calls).Alike u u') :
    (of first second calls).Alike (lineUnlessBlank indent t u) (lineUnlessBlank indent t' u') := by
  unfold lineUnlessBlank
  rw [hshown.isBlankOnly_eq]
  split
  · exact .refl []
  · exact line_alike indent h

theorem caption_alike (header : Text) (h : List.Forall₂ (Node.Like (written first second calls)) children children') :
    (of first second calls).Alike (caption header children) (caption header children') :=
  (inlines_alike .body h).between
    ("<div class=\"caption\">" ++ header ++ "<span class=\"description\">") "</span></div>"

theorem flatMap_alike {f g : Node → Text}
    (hfg : ∀ n n', n.Like (written first second calls) n' → (of first second calls).Alike (f n) (g n'))
    (h : List.Forall₂ (Node.Like (written first second calls)) children children') :
    (of first second calls).Alike (children.flatMap f) (children'.flatMap g) := by
  rw [List.flatMap_def, List.flatMap_def]
  exact .flatten (List.rel_map hfg h)

theorem noteContent_alike (h : List.Forall₂ (Node.Like (written first second calls)) children children') :
    (of first second calls).Alike (noteContent children) (noteContent children') := by
  refine flatMap_alike (fun n n' hn => ?_) h
  have hwhole := inline_alike .body hn (by
    cases hn with
    | node _ _ _ _ hinside => exact inlines_alike .body hinside)
  cases hn with
  | node hkind _ _ _ hinside =>
      simp only [hkind.eq_iff .paragraph rfl]
      split
      · exact inlines_alike .body hinside
      · exact hwhole

theorem footnoteList_alike (indent : Nat) (chapter : UInt32)
    (h : List.Forall₂ (Node.Like (written first second calls)) children children') :
    (of first second calls).Alike (footnoteList indent chapter children) (footnoteList indent chapter children') := by
  have hsymbol (n n' : Node) (hn : n.Like (written first second calls) n') : isSymbolNote n = isSymbolNote n' := by
    cases hn with
    | node hkind => cases hkind <;> rfl
  unfold footnoteList
  rw [any_eq_of_forall₂ hsymbol h]
  refine element_alike indent "div" (.refl _) (element_alike _ "ol" (.refl _) (flatMap_alike (fun n n' hn => ?_) h))
  cases hn with
  | @node kind _ hkind _ _ _ _ _ _ _ hinside =>
      cases hkind with
      | bare hbare =>
          cases kind with
          | footnoteItem mark =>
              refine line_alike _ ?_
              exact (((noteContent_alike hinside).trim.between _ _).append (.refl _)).append (.refl _)
          | _ => exact .refl []
      | _ => exact .refl []

theorem itemLines_alike (indent : Nat) (h : List.Forall₂ (Node.Like (written first second calls)) children children')
    (hblocks : (of first second calls).Alike t t') :
    (of first second calls).Alike (itemLines indent children t) (itemLines indent children' t') := by
  unfold itemLines
  rw [any_eq_of_forall₂ (fun _ _ hn => isBlock_eq hn) h]
  split
  · exact element_alike indent "li" (.refl []) hblocks
  · exact line_alike indent ((inlines_alike .body h).trim.between "<li>" "</li>")

theorem heading_alike (setting setting' : Setting) (hwords : setting.words = setting'.words) (level : Level)
    {a a' : Attrs} (ha : a.Like (written first second calls) a') (number : Option Text)
    (h : List.Forall₂ (Node.Like (written first second calls)) children children') :
    (of first second calls).Alike (heading setting level a number children)
      (heading setting' level a' number children') := by
  have hid := Alike.escapeAttribute (rel_getD ha.id (.refl []))
  unfold heading
  rw [hwords]
  exact (((hid.between _ _).append (.refl _)).append (headingTitle_alike h)).append (.refl _)
    |>.append (.refl _) |>.append (.refl _)

end Blocks

section Documents

variable {setting setting' : Setting}

variable (first second calls) in
/-- Settings with the same words and with outlines that are alike in HTML. -/
structure SettingLike (setting setting' : Setting) : Prop where
  words : setting.words = setting'.words
  outline : Option.Rel (fun o o' => (of first second calls).Alike (Outline.html o) (Outline.html o')) setting.outline
    setting'.outline

theorem settingLike (words : Words) {o o' : Outline}
    (h : (of first second calls).Alike (Outline.html o) (Outline.html o')) :
    SettingLike first second calls ⟨words, some o⟩ ⟨words, some o'⟩ :=
  ⟨rfl, .some h⟩

variable (hsetting : SettingLike first second calls setting setting')

include hsetting

theorem outlineLines_alike (indent : Nat) :
    (of first second calls).Alike (outlineLines indent setting.outline) (outlineLines indent setting'.outline) := by
  have houtline := hsetting.outline
  generalize setting.outline = x, setting'.outline = x' at houtline ⊢
  cases houtline with
  | none => exact .refl []
  | some hhtml =>
      unfold outlineLines
      dsimp only
      rw [List.flatMap_def, List.flatMap_def]
      exact .flatten (List.rel_map (fun _ _ hline => line_alike indent hline) hhtml.lines)

omit hsetting

variable (first second calls setting setting') in
/-- Nodes that are alike as blocks, as contents of a float and as items of a list. -/
structure BlocksAlike (l l' : List Node) : Prop where
  blocks : ∀ indent, (of first second calls).Alike (blocks setting indent l) (blocks setting' indent l')
  contents : ∀ indent header,
    (of first second calls).Alike (floatBlocks setting indent header l) (floatBlocks setting' indent header l')
  items : ∀ indent, (of first second calls).Alike (items setting indent l) (items setting' indent l')

/-- Nodes are alike as blocks if what is inside them is. -/
theorem block_alike (hsetting : SettingLike first second calls setting setting') {n n' : Node}
    (h : n.Like (written first second calls) n')
    (hinside : BlocksAlike first second calls setting setting' n.children n'.children)
    (indent : Nat) : (of first second calls).Alike (block setting indent n) (block setting' indent n') := by
  have hinline := inline_alike .body h (by
    cases h with
    | node _ _ _ _ hchildren => exact inlines_alike .body hchildren)
  have hline := lineUnlessBlank_alike indent hinline hinline
  cases h with
  | @node kind kind' hkind a a' ha number children children' hjoined hchildren =>
      dsimp only at hinside
      have hcontent := inlines_alike .body hchildren
      have hverbatim := (plainTexts_alike hchildren).trimChar (c := '\n') (by decide)
      cases hkind with
      | bare hbare =>
          cases kind with
          | text | link | ref | graphic => cases hbare
          | document => exact hinside.blocks indent
          | frontmatter => exact element_alike indent "div" (.refl _) (hinside.blocks _)
          | mainmatter => exact element_alike indent "div" (.refl _) (hinside.blocks _)
          | heading level =>
              have hheading := line_alike (indent + 1)
                (heading_alike setting setting' hsetting.words level ha number hchildren)
              exact element_alike indent "div" (attrs_alike ha _) (hheading.append (hinside.blocks _))
          | float kind =>
              have hheader : captionHeader setting kind number = captionHeader setting' kind number := by
                unfold captionHeader
                rw [hsetting.words]
              have hcontents : (of first second calls).Alike
                  (floatBlocks setting (indent + 1) (captionHeader setting kind number) children)
                  (floatBlocks setting' (indent + 1) (captionHeader setting' kind number) children') := by
                rw [← hheader]
                exact hinside.contents _ _
              exact element_alike indent "div" (attrs_alike ha _) (hcontents.append (.refl _))
          | title | footnoteItem => exact .refl []
          | caption => exact line_alike indent (caption_alike [] hchildren)
          | paragraph =>
              have htag := (((attrs_alike ha none).between "<p" ">").append hcontent).append (.refl "</p>")
              exact lineUnlessBlank_alike indent hcontent htag
          | verbatim => exact line_alike indent (hverbatim.escapeText.between "<pre class=\"verbatim\">" "</pre>")
          | codeBlock => exact element_alike indent "div" (attrs_alike ha _) (line_alike _ hverbatim)
          | displayMath => exact line_alike indent (hcontent.trim.between "<div class=\"equation\">" "</div>")
          | list isOrdered => exact element_alike indent _ (attrs_alike ha none) (hinside.items _)
          | item => exact itemLines_alike indent hchildren (hinside.blocks _)
          | tableOfContents => exact outlineLines_alike hsetting indent
          | footnoteList chapter => exact footnoteList_alike indent chapter hchildren
          | _ => exact hline
      | _ => exact hline

theorem blocks_alike (hsetting : SettingLike first second calls setting setting') {l l' : List Node}
    (h : List.Forall₂ (Node.Like (written first second calls)) l l') :
    BlocksAlike first second calls setting setting' l l' := by
  induction l using Forest.induction generalizing l' with
  | nil =>
      cases h
      exact ⟨fun _ => .refl [], fun _ _ => .refl [], fun _ => .refl []⟩
  | cons n rest ihChildren ihRest =>
      cases h with
      | @cons _ n' _ rest' hn hrest =>
          have hlater := ihRest hrest
          have hinside : BlocksAlike first second calls setting setting' n.children n'.children := by
            cases hn with
            | node _ _ _ _ hchildren => exact ihChildren hchildren
          have hblock := block_alike hsetting hn hinside
          refine ⟨fun indent => (hblock indent).append (hlater.blocks indent), fun indent header => ?_,
            fun indent => ?_⟩
          · have hcaption : n.kind = .caption ↔ n'.kind = .caption := by
              cases hn with
              | node hkind => exact hkind.eq_iff _ rfl
            rw [floatBlocks, floatBlocks]
            simp only [hcaption]
            refine Alike.append ?_ (hlater.contents indent header)
            split
            · refine line_alike indent ?_
              cases hn with
              | node _ _ _ _ hchildren => exact caption_alike header hchildren
            · exact hblock indent
          · refine Alike.append ?_ (hlater.items indent)
            cases hn with
            | node _ _ _ _ hchildren => exact itemLines_alike indent hchildren (hinside.blocks _)

/-- The HTML of documents that are written alike is alike. -/
theorem html_alike (hsetting : SettingLike first second calls setting setting') {d d' : Document}
    (h : List.Forall₂ (Node.Like (written first second calls)) d.children d'.children) :
    (of first second calls).Alike (d.html setting) (d'.html setting') := by
  have hblocks := (blocks_alike hsetting h).blocks 0
  exact rel_getD (hblocks.before? (c := '\n') (by decide)) hblocks

end Documents

section Outlines

open Outline

theorem ofHeading?_rel (isArticle : Bool) {n n' : Node} (h : n.Like (written first second calls) n') :
    Option.Rel (OutlineEntry.Like (written first second calls))
      (ofHeading? isArticle n.kind n.attrs n.number n.children)
      (ofHeading? isArticle n'.kind n'.attrs n'.number n'.children) := by
  cases h with
  | @node kind kind' hkind a a' ha number children children' hjoined hchildren =>
      cases hkind with
      | bare hbare =>
          cases kind with
          | heading level =>
              have hid := ha.id
              unfold ofHeading?
              simp only [Option.bind_eq_bind, Option.bind_some]
              cases depth? isArticle level with
              | none => exact .none
              | some depth =>
                  simp only [Option.bind_some]
                  exact rel_bind hid fun id id' _ _ hid => .some ⟨rfl, rfl, hid, rfl, headingTitle_alike hchildren⟩
          | _ => exact .none
      | _ => exact .none

theorem ofNodes_like (isArticle : Bool) {l l' : List Node}
    (h : List.Forall₂ (Node.Like (written first second calls)) l l') :
    List.Forall₂ (OutlineEntry.Like (written first second calls)) (ofNodes isArticle l) (ofNodes isArticle l') := by
  induction l using Forest.induction generalizing l' with
  | nil =>
      cases h
      exact .nil
  | cons n rest ihChildren ihRest =>
      cases h with
      | cons hn hrest =>
          have hentry := ofHeading?_rel isArticle hn
          cases hn with
          | @node kind kind' hkind a a' ha number children children' hjoined hchildren =>
              refine List.rel_append (List.rel_append ?_ (ihChildren hchildren)) (ihRest hrest)
              dsimp only at hentry
              generalize ofHeading? isArticle kind a number children = x,
                ofHeading? isArticle kind' a' number children' = x' at hentry ⊢
              cases hentry with
              | none => exact .nil
              | some hentry => exact .cons hentry .nil

/-- The HTML of outlines that are alike is alike. -/
theorem outline_alike {o o' : Outline} (h : List.Forall₂ (OutlineEntry.Like (written first second calls)) o o') :
    (of first second calls).Alike (Outline.html o) (Outline.html o') := by
  suffices hitems : ∀ depth, (of first second calls).Alike (Outline.items depth o) (Outline.items depth o') from
    (hitems 0).between _ _
  induction h with
  | nil => exact fun depth => .refl _
  | @cons e e' _ _ hone _ ih =>
      intro depth
      obtain ⟨depth₁, level, id, number, title⟩ := e
      obtain ⟨depth₂, level', id', number', title'⟩ := e'
      obtain ⟨rfl, rfl, hid, rfl, htitle⟩ := hone
      refine ((Alike.refl _).append ?_).append (ih _)
      have hlink := (Alike.escapeAttribute hid).between
        ("<li class=\"" ++ level.name ++ "\"><a href=\"#") "\" class=\"heading\">"
      exact ((hlink.append (.refl _)).append htitle).append (.refl _)

end Outlines

end Salts

end Manuscript
