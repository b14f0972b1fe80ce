import Manuscript.Proofs.Footnotes.Sentences
import Manuscript.Proofs.LabelNames
import Manuscript.Proofs.Salt.Footnotes
import Manuscript.Proofs.Source.Separation
import Manuscript.Proofs.Source.Shielded

/-!
Footnotes among texts with tokens in them, and among the same texts with the characters that the tokens stand for.

Main statement: footnotes are placed alike in both just if tokens hide no end of a sentence before a footnote, where that
matters, and none hides that only blanks follow one (`isSeenThrough_iff`).
-/

namespace Manuscript

open Forest (preorder)

/-! Documents with other texts -/

/-- The kind of a node, with another text if it is one. -/
def Kind.mapText (f : Text → Text) : Kind → Kind
  | .text t => .text (f t)
  | kind => kind

mutual

/-- A node with other texts. -/
def Node.mapTexts (f : Text → Text) : Node → Node
  | ⟨kind, a, number, children⟩ => ⟨kind.mapText f, a, number, Forest.mapTexts f children⟩

/-- Some nodes with other texts. -/
def Forest.mapTexts (f : Text → Text) : List Node → List Node
  | [] => []
  | n :: rest => n.mapTexts f :: Forest.mapTexts f rest

end

/-- A document with other texts. -/
def Document.mapTexts (f : Text → Text) (d : Document) : Document := ⟨d.children.map (Node.mapTexts f)⟩

/-- The texts that are shown are mapped, and nothing else. -/
def mapping (f : Text → Text) : Likeness := ⟨fun t t' => t' = f t, fun _ _ => True, Eq⟩

section Mapping

variable {f : Text → Text}

theorem Forest.mapTexts_eq_map (l : List Node) : Forest.mapTexts f l = l.map (Node.mapTexts f) := by
  induction l with
  | nil => rfl
  | cons n rest ih => rw [Forest.mapTexts, ih, List.map_cons]

theorem Node.mapTexts_eq (n : Node) :
    n.mapTexts f = ⟨n.kind.mapText f, n.attrs, n.number, n.children.map (Node.mapTexts f)⟩ := by
  obtain ⟨kind, a, number, children⟩ := n
  rw [Node.mapTexts, Forest.mapTexts_eq_map]

theorem Node.kind_mapTexts (n : Node) : (n.mapTexts f).kind = n.kind.mapText f := by rw [Node.mapTexts_eq]

theorem Attrs.like_mapping_iff {a a' : Attrs} : a.Like (mapping f) a' ↔ a' = a := by
  have hsame : ∀ t t' : Text, (mapping f).named t t' → t' = t := fun _ _ h => h.symm
  constructor
  · rintro ⟨hid, hlabel, hstarred, hseq, hclasses⟩
    have hid := eq_of_rel hsame hid
    have hlabel := eq_of_rel hsame hlabel
    have hseq := eq_of_rel hsame hseq
    have hclasses := List.forall₂_eq_eq_eq ▸ hclasses
    obtain ⟨id, label, isStarred, seq, classes⟩ := a'
    simp only at hid hlabel hstarred hseq hclasses
    rw [hid, hlabel, ← hstarred, hseq, ← hclasses]
  · rintro rfl
    exact ⟨rel_refl (fun _ => rfl) _, rel_refl (fun _ => rfl) _, rfl, rel_refl (fun _ => rfl) _,
      List.forall₂_same.mpr fun _ _ => rfl⟩

theorem Kind.like_mapping_iff {kind kind' : Kind} : kind.Like (mapping f) kind' ↔ kind' = kind.mapText f := by
  constructor
  · intro h
    cases h with
    | @bare kind hbare => cases kind <;> first | rfl | cases hbare
    | text h => exact congrArg Kind.text h
    | link h => exact congrArg Kind.link h.symm
    | graphic h => exact congrArg Kind.graphic h.symm
    | ref hlabel style htarget hphrase =>
        obtain rfl := hlabel
        have htarget := eq_of_rel (fun target target' h => by
          obtain ⟨hid, hnumber⟩ := h
          cases target
          cases target'
          exact congrArg₂ Target.mk hid.symm hnumber.symm) htarget
        have hphrase := eq_of_rel (fun _ _ h => h.symm) hphrase
        rw [htarget, hphrase]
        rfl
  · rintro rfl
    cases kind with
    | text t => exact .text rfl
    | link href => exact .link rfl
    | graphic src => exact .graphic rfl
    | ref label style target phrase =>
        exact .ref rfl style (rel_refl (fun _ => ⟨rfl, rfl⟩) _) (rel_refl (fun _ => rfl) _)
    | _ => exact .bare rfl

/-- Nodes are like their mapped forms, and like nothing else. -/
theorem forall₂_like_mapping_iff {l l' : List Node} :
    List.Forall₂ (Node.Like (mapping f)) l l' ↔ l' = l.map (Node.mapTexts f) := by
  induction l using Forest.induction generalizing l' with
  | nil => simp
  | cons n rest ihChildren ihRest =>
      rw [List.forall₂_cons_left_iff]
      constructor
      · rintro ⟨n', rest', hn, hrest, rfl⟩
        cases hn with
        | node hkind ha number hjoined hchildren =>
            rw [ihRest.mp hrest, List.map_cons, Node.mapTexts_eq, Kind.like_mapping_iff.mp hkind,
              Attrs.like_mapping_iff.mp ha, ihChildren.mp hchildren]
      · rintro rfl
        refine ⟨_, _, ?_, ihRest.mpr rfl, rfl⟩
        obtain ⟨kind, a, number, children⟩ := n
        rw [Node.mapTexts_eq]
        exact .node (Kind.like_mapping_iff.mpr rfl) (Attrs.like_mapping_iff.mpr rfl) number trivial (ihChildren.mpr rfl)

theorem like_mapping_iff {n n' : Node} : n.Like (mapping f) n' ↔ n' = n.mapTexts f := by
  have hlist : List.Forall₂ (Node.Like (mapping f)) [n] [n'] ↔ [n'] = [n].map (Node.mapTexts f) :=
    forall₂_like_mapping_iff
  simpa using hlist

end Mapping

namespace Footnotes

namespace Site

/-- Are there too many or too few spaces at a site, in view of another one that may end a sentence, or have nothing after
it, where this one does not? -/
def Departs (s s' : Site) : Prop :=
  s.endsSentence = false ∧ s'.endsSentence = true ∧ (0 < s.spaces ∨ s'.hasMore = true) ∨
    s.endsSentence = true ∧ s.spaces = 0 ∧ s.hasMore = true ∧ s'.hasMore = false

theorem spaces_eq_iff_not_departs {s s' : Site} (hspaces : s'.spaces = s.spaces)
    (hends : s.endsSentence = true → s'.endsSentence = true) (hmore : s'.hasMore = true → s.hasMore = true) :
    s.spaced.spaces = s'.spaced.spaces ↔ ¬ s.Departs s' := by
  obtain ⟨ends, spaces, more⟩ := s
  obtain ⟨ends', spaces', more'⟩ := s'
  obtain rfl : spaces' = spaces := hspaces
  cases ends <;> cases ends' <;> cases more <;> cases more' <;> simp_all [Departs, spaced] <;> omega

end Site

/-! Siblings with other texts -/

theorem isSubstance_of_text {n : Node} {t : Text} (h : n.kind = .text t) : isSubstance n = !Text.isBlankOnly t := by
  rw [isSubstance, h]

section Siblings

variable {f : Text → Text}

theorem surroundings_map (before : Option Node) (l : List Node) :
    surroundings (before.map (Node.mapTexts f)) (l.map (Node.mapTexts f)) =
      (surroundings before l).map fun p => (p.1.map (Node.mapTexts f), p.2.map (Node.mapTexts f)) := by
  induction l generalizing before with
  | nil => rfl
  | cons n rest ih =>
      have hrest := ih (some n)
      rw [Option.map_some] at hrest
      have hn : isFootnote (n.mapTexts f) = isFootnote n := (isFootnote_eq (like_mapping_iff.mpr rfl)).symm
      rw [List.map_cons, surroundings, surroundings, hn]
      split
      · rw [hrest, List.map_cons]
      · exact hrest

theorem sites_map (l : List Node) :
    sites none (l.map (Node.mapTexts f)) =
      (surroundings none l).map fun p => .of (p.1.map (Node.mapTexts f)) (p.2.map (Node.mapTexts f)) := by
  have hmap := surroundings_map (f := f) none l
  rw [Option.map_none] at hmap
  rw [sites, hmap, List.map_map]
  rfl

/-- Other texts are no inter-sentence spaces. -/
theorem spaces_of_map (before : Option Node) (later : List Node) :
    (Site.of (before.map (Node.mapTexts f)) (later.map (Node.mapTexts f))).spaces = (Site.of before later).spaces :=
  (length_takeWhile_of_forall₂ (fun _ _ hone => isSpaceMark_eq hone) (forall₂_like_mapping_iff.mpr rfl)).symm

theorem spacedAlike_map_iff (l : List Node) :
    SpacedAlike none l none (l.map (Node.mapTexts f)) ↔
      ∀ p ∈ surroundings none l, (Site.of p.1 p.2).spaced.spaces =
        (Site.of (p.1.map (Node.mapTexts f)) (p.2.map (Node.mapTexts f))).spaced.spaces := by
  rw [SpacedAlike, sites_map, sites, List.map_map, List.map_map]
  exact List.map_inj_left

/-- It does not matter whether the texts of siblings are mapped before or after spaces are put right, just if as many
spaces are left after each footnote. -/
theorem spaceSentences_map_iff (l : List Node) :
    spaceSentences none (l.map (Node.mapTexts f)) = (spaceSentences none l).map (Node.mapTexts f) ↔
      SpacedAlike none l none (l.map (Node.mapTexts f)) := by
  constructor
  · intro h
    have hspaces : ∀ l : List Node,
        (sites none (l.map (Node.mapTexts f))).map (·.spaces) = (sites none l).map (·.spaces) := by
      intro l
      rw [sites_map, sites, List.map_map, List.map_map]
      exact List.map_congr_left fun p _ => spaces_of_map p.1 p.2
    have hleft := hspaces (spaceSentences none l)
    rw [← h, sites_spaceSentences, sites_spaceSentences, List.map_map, List.map_map] at hleft
    exact hleft.symm
  · intro h
    exact forall₂_like_mapping_iff.mp (spaceSentences_like (fun _ _ => trivial) l (forall₂_like_mapping_iff.mpr rfl) h)

end Siblings

end Footnotes

open Footnotes

namespace Cache

/-- Do tokens make a difference to the spaces after a footnote, between the sibling before it and those after it? -/
inductive Hides (c : Cache) (before : Option Node) (later : List Node) : Prop
  /-- A space is missing, or taken away, since the end of a sentence is not seen. -/
  | ending {n : Node} {t : Text} (hbefore : before = some n) (htext : n.kind = .text t) (hveiled : c.VeilsEnd t)
      (hspace : later.head?.any isSpaceMark = true ∨ (later.map (Node.mapTexts c.revealed)).any isSubstance = true)
  /-- A space is put in, since blanks are taken for more. -/
  | blanks (hends : before.any endsSentence = true) (hspace : later.head?.any isSpaceMark = false)
      (hmore : later.any isSubstance = true)
      (hrevealed : (later.map (Node.mapTexts c.revealed)).any isSubstance = false)

variable {c : Cache} (hcoded : ∀ e ∈ c.entries, e.kind = .unicode → IsCoded e)

theorem endsSentence_mapTexts_iff (n : Node) :
    endsSentence (n.mapTexts c.revealed) = true ↔ ∃ t, n.kind = .text t ∧ isEnded (c.revealed t) = true := by
  have hkind : (n.mapTexts c.revealed).kind = n.kind.mapText c.revealed := n.kind_mapTexts
  cases h : n.kind with
  | text t =>
      rw [h] at hkind
      rw [endsSentence_of_text hkind]
      exact ⟨fun hended => ⟨t, rfl, hended⟩, fun ⟨_, htext, hended⟩ => Kind.text.inj htext ▸ hended⟩
  | _ =>
      rw [h] at hkind
      simp [endsSentence, hkind, Kind.mapText]

include hcoded

/-- What ends a sentence still does so when tokens are revealed. -/
theorem any_endsSentence_map {before : Option Node} (h : before.any endsSentence = true) :
    (before.map (Node.mapTexts c.revealed)).any endsSentence = true := by
  cases before with
  | none => cases h
  | some n =>
      rw [Option.any_some] at h
      rw [Option.map_some, Option.any_some, endsSentence_mapTexts_iff]
      cases hkind : n.kind with
      | text t =>
          rw [endsSentence_of_text hkind] at h
          exact ⟨t, rfl, isEnded_revealed_of_isEnded hcoded h⟩
      | _ =>
          rw [endsSentence, hkind] at h
          cases h

/-- The end of a sentence is seen only when tokens are revealed, just if it was hidden in the text before. -/
theorem exists_veilsEnd_iff (before : Option Node) :
    (∃ n t, before = some n ∧ n.kind = .text t ∧ c.VeilsEnd t) ↔
      before.any endsSentence = false ∧ (before.map (Node.mapTexts c.revealed)).any endsSentence = true := by
  cases before with
  | none => simp
  | some n =>
      rw [Option.map_some, Option.any_some, Option.any_some, endsSentence_mapTexts_iff]
      constructor
      · rintro ⟨m, t, hm, htext, hveiled⟩
        obtain rfl := Option.some.inj hm
        obtain ⟨hopen, hended⟩ := (veilsEnd_iff hcoded t).mp hveiled
        exact ⟨(endsSentence_of_text htext).trans hopen, t, htext, hended⟩
      · rintro ⟨hopen, t, htext, hended⟩
        rw [endsSentence_of_text htext] at hopen
        exact ⟨n, t, rfl, htext, (veilsEnd_iff hcoded t).mpr ⟨hopen, hended⟩⟩

/-- Blanks stay blanks when tokens are revealed. -/
theorem any_isSubstance_of_map {later : List Node}
    (h : (later.map (Node.mapTexts c.revealed)).any isSubstance = true) : later.any isSubstance = true := by
  rw [List.any_map, List.any_eq_true] at h
  obtain ⟨n, hn, hsubstance⟩ := h
  refine List.any_eq_true.mpr ⟨n, hn, ?_⟩
  have hkind : (n.mapTexts c.revealed).kind = n.kind.mapText c.revealed := n.kind_mapTexts
  rw [Function.comp_apply] at hsubstance
  cases h : n.kind with
  | text t =>
      rw [h] at hkind
      rw [isSubstance_of_text hkind] at hsubstance
      rw [isSubstance_of_text h]
      cases hblank : Text.isBlankOnly t with
      | false => rfl
      | true =>
          rw [revealed_of_isBlankOnly hcoded hblank, hblank] at hsubstance
          cases hsubstance
  | intersentenceSpace =>
      rw [h] at hkind
      rw [isSubstance, hkind] at hsubstance
      cases hsubstance
  | _ => rw [isSubstance, h]

/-- What tokens hide makes the difference between the site of a footnote as it is and with tokens revealed. -/
theorem hides_iff (before : Option Node) (later : List Node) :
    c.Hides before later ↔ (Site.of before later).Departs
      (.of (before.map (Node.mapTexts c.revealed)) (later.map (Node.mapTexts c.revealed))) := by
  have hhead := head?_any_isSpaceMark_iff later
  rw [Site.Departs, ← and_assoc]
  refine Iff.trans ?_ (or_congr_left (and_congr_left' (exists_veilsEnd_iff hcoded before)))
  constructor
  · rintro (⟨hbefore, htext, hveiled, hspace⟩ | ⟨hends, hspace, hmore, hrevealed⟩)
    · exact .inl ⟨⟨_, _, hbefore, htext, hveiled⟩, hspace.imp_left hhead.mp⟩
    · refine .inr ⟨hends, Nat.eq_zero_of_not_pos fun hpos => ?_, hmore, hrevealed⟩
      rw [hhead.mpr hpos] at hspace
      cases hspace
  · rintro (⟨⟨n, t, hbefore, htext, hveiled⟩, hspace⟩ | ⟨hends, hspace, hmore, hrevealed⟩)
    · exact .ending hbefore htext hveiled (hspace.imp_left hhead.mpr)
    · refine .blanks hends ((Bool.not_eq_true _).mp fun hmark => ?_) hmore hrevealed
      exact (hhead.mp hmark).ne' hspace

/-- As many spaces are left after a footnote as with tokens revealed, unless tokens hide something. -/
theorem spaces_eq_iff (before : Option Node) (later : List Node) :
    (Site.of before later).spaced.spaces =
        (Site.of (before.map (Node.mapTexts c.revealed)) (later.map (Node.mapTexts c.revealed))).spaced.spaces ↔
      ¬ c.Hides before later := by
  rw [hides_iff hcoded]
  exact Site.spaces_eq_iff_not_departs (spaces_of_map before later) (any_endsSentence_map hcoded)
    (any_isSubstance_of_map hcoded)

end Cache

/-- The siblings at the top of a document and inside each of its nodes. -/
def Document.siblings (d : Document) : List (List Node) := d.children :: (preorder d.children).map Node.children

/-- Footnotes are placed as if tokens were the characters that they stand for. -/
structure Document.IsSeenThrough (d : Document) (cache : Cache) (style : FootnoteStyle) : Prop where
  /-- The same spaces are put in and taken away among any siblings. -/
  siblings : ∀ l ∈ d.siblings, spaceSentences none (l.map (Node.mapTexts cache.revealed)) =
    (spaceSentences none l).map (Node.mapTexts cache.revealed)
  /-- The document with the characters comes out the same, but for the characters. -/
  placed : (d.mapTexts cache.revealed).placeFootnotes style =
    ((d.placeFootnotes style).1.mapTexts cache.revealed, (d.placeFootnotes style).2)

theorem Document.isSeenThrough_iff_not_hides {cache : Cache}
    (hcoded : ∀ e ∈ cache.entries, e.kind = .unicode → Cache.IsCoded e) (d : Document) (style : FootnoteStyle) :
    d.IsSeenThrough cache style ↔ ∀ l ∈ d.siblings, ∀ p ∈ surroundings none l, ¬ cache.Hides p.1 p.2 := by
  have hspaced : ∀ l : List Node, SpacedAlike none l none (l.map (Node.mapTexts cache.revealed)) ↔
      ∀ p ∈ surroundings none l, ¬ cache.Hides p.1 p.2 := by
    intro l
    rw [spacedAlike_map_iff]
    exact forall₂_congr fun p _ => Cache.spaces_eq_iff hcoded p.1 p.2
  constructor
  · intro h l hl
    exact (hspaced l).mp ((spaceSentences_map_iff l).mp (h.siblings l hl))
  · intro h
    constructor
    case siblings => exact fun l hl => (spaceSentences_map_iff l).mpr ((hspaced l).mpr (h l hl))
    case placed =>
      have hlike : List.Forall₂ (Node.Like (mapping cache.revealed)) d.children
          (d.mapTexts cache.revealed).children :=
        forall₂_like_mapping_iff.mpr rfl
      have hinside : ∀ n ∈ preorder d.children, ∀ n', n.Like (mapping cache.revealed) n' →
          SpacedAlike none n.children none n'.children := by
        intro n hn n' hn'
        rw [like_mapping_iff.mp hn', Node.mapTexts_eq]
        exact (hspaced _).mpr (h _ (List.mem_cons_of_mem _ (List.mem_map_of_mem hn)))
      obtain ⟨hchildren, hcount⟩ := placed_like (fun _ _ => trivial) style hlike
        ((hspaced _).mpr (h _ List.mem_cons_self)) hinside
      refine Prod.ext ?_ hcount.symm
      exact congrArg Document.mk (forall₂_like_mapping_iff.mp hchildren)

namespace Source

variable {highlighter : Highlighter} {format : Format}

theorem Item.isCoded_of_call? {t salt : Text} {i : Item} {call : Call} {e : Entry} (hi : i ∈ items t)
    (hcall : i.call? = some call) (he : call.cached? salt = some e) (hkind : e.kind = .unicode) : Cache.IsCoded e := by
  have hsorted := isSorted_of_mem_items hi
  cases i with
  | beyondAscii first others =>
      obtain rfl := Option.some.inj hcall
      obtain rfl := Option.some.inj he
      refine ⟨digest_ne_nil _, fun ch hch => mem_hexDigits_of_mem_digest hch, ?_⟩
      rw [Draft.text_plain]
      exact hsorted
  | verb | math | link =>
      obtain rfl := Option.some.inj hcall
      obtain rfl := Option.some.inj he
      cases hkind
  | escaped | character => cases hcall

/-- Of all that is cached, only runs of characters beyond ASCII are to be seen through. -/
theorem Passage.isCoded_of_mem_calls {p : Passage} {salt : Text} {call : Call} {e : Entry} (h : call ∈ p.calls)
    (he : call.cached? salt = some e) (hkind : e.kind = .unicode) : Cache.IsCoded e := by
  cases p with
  | prose line =>
      obtain ⟨i, hi, hcall⟩ := List.mem_filterMap.mp h
      exact Item.isCoded_of_call? hi hcall he hkind
  | hint | code | comment => cases h
  | rawHtml | literal =>
      obtain rfl := List.mem_singleton.mp h
      obtain rfl := Option.some.inj he
      cases hkind
  | math =>
      obtain hlabel | hbody := List.mem_append.mp h
      · obtain ⟨name, -, rfl⟩ := List.mem_map.mp hlabel
        cases he
      · obtain rfl := List.mem_singleton.mp hbody
        obtain rfl := Option.some.inj he
        cases hkind

end Source

namespace Conversion

variable (c : Conversion) (w : Workspace) (source : Text)

/-- What stands for characters beyond ASCII in a run is told from them. -/
theorem isCoded_of_mem_gather {e : Entry} (he : e ∈ (c.gather w source).2.cache.entries)
    (hkind : e.kind = .unicode) : Cache.IsCoded e := by
  rw [cache_gather] at he
  obtain ⟨call, hcall, hcached⟩ := Cache.exists_call_of_mem_build he
  obtain ⟨request, hrequest, hcall⟩ := List.mem_filterMap.mp hcall
  cases request with
  | cache same =>
      obtain rfl := Option.some.inj hcall
      obtain ⟨p, -, s, hmem⟩ := Source.exists_of_mem_requests hrequest
      obtain hcall | ⟨_, _, _, _, _, _, -, rfl⟩ := Source.Passage.of_mem_requests hmem
      · exact Source.Passage.isCoded_of_mem_calls hcall hcached hkind
      · obtain rfl := Option.some.inj hcached
        cases hkind
  | lookUp | highlight | keep => cases hcall

/-- The document that a manuscript becomes, before its footnotes are placed. -/
def unplaced (parsed : Document) : Document :=
  (parsed.finished c.words (c.gather w source).2.cache c.isArticle).1

/-- Footnotes are placed as if tokens were the characters that they stand for, just if no token hides closing characters
after the end of a sentence before a footnote, where that matters, and none hides that only blanks follow one. -/
theorem isSeenThrough_iff (parsed : Document) :
    (c.unplaced w source parsed).IsSeenThrough (c.gather w source).2.cache c.footnotes ↔
      ∀ l ∈ (c.unplaced w source parsed).siblings, ∀ p ∈ surroundings none l,
        ¬ (c.gather w source).2.cache.Hides p.1 p.2 :=
  Document.isSeenThrough_iff_not_hides (fun _ => c.isCoded_of_mem_gather w source) _ c.footnotes

end Conversion

namespace ClosingQuote

open AccentedLabel (conversion workspace cache tokens parsed)

/-- A footnote after a sentence whose closing quotation mark is not ASCII. -/
def source : Text := "<document><p>He said “stop.”<footnote>x</footnote> Then left.</p></document>"

/-- No space is put in after the footnote, as it would be after the quotation mark itself. -/
theorem not_isSeenThrough :
    (conversion.gather workspace source).1 = .ok (tokens source) ∧
      conversion.parser (tokens source) = .ok (parsed source) ∧
      ¬ (conversion.unplaced workspace source (parsed source)).IsSeenThrough (cache source) conversion.footnotes := by
  have hfacts : (conversion.gather workspace source).1.toOption.isSome = true ∧
      (Document.parse? (tokens source)).isSome = true ∧
      (preorder (((conversion.unplaced workspace source (parsed source)).mapTexts
        (cache source).revealed).placeFootnotes conversion.footnotes).1.children).countP isSpaceMark = 1 ∧
      (preorder (((conversion.unplaced workspace source (parsed source)).placeFootnotes
        conversion.footnotes).1.mapTexts (cache source).revealed).children).countP isSpaceMark = 0 := by
    decide +kernel
  obtain ⟨hgather, hparse, hrevealed, htokens⟩ := hfacts
  refine ⟨AccentedLabel.gather_eq hgather, AccentedLabel.parser_eq hparse, fun h => ?_⟩
  rw [h.placed] at hrevealed
  exact absurd (htokens.symm.trans hrevealed) (by decide)

end ClosingQuote

end Manuscript
