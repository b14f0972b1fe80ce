import Manuscript.Proofs.Footnotes.Place
import Manuscript.Proofs.Footnotes.Sentences
import Manuscript.Proofs.Footnotes.Spacing
import Manuscript.Proofs.Salt.References

/-!
Footnotes of documents that are alike.

Main statements: the footnotes get the same marks and stand in lists that are alike, as long as spaces are put right alike
after them (`placed_like`), and so they do in documents that are written alike (`placeFootnotes_like`).
-/

namespace Manuscript

namespace Footnotes

/-- Footnotes with the same mark and related contents. -/
structure Note.Like (like : Likeness) (note note' : Note) : Prop where
  mark : note.mark = note'.mark
  content : List.Forall₂ (Node.Like like) note.content note'.content

/-- Footnotes of the same chapters. -/
abbrev Notes.Like (like : Likeness) : List (UInt32 × List Note) → List (UInt32 × List Note) → Prop :=
  List.Forall₂ fun l l' => l.1 = l'.1 ∧ List.Forall₂ (Note.Like like) l.2 l'.2

/-- States in which as much has been collected of related documents. -/
structure State.Like (like : Likeness) (s s' : State) : Prop where
  chapter : s.chapter = s'.chapter
  notes : Notes.Like like s.notes.toList s'.notes.toList

section States

variable {like : Likeness} {s s' : State} {notes notes' : Notes}

theorem get?_rel (h : Notes.Like like notes.toList notes'.toList) (k : UInt32) :
    Option.Rel (List.Forall₂ (Note.Like like)) (notes.get? k) (notes'.get? k) := by
  obtain ⟨pairs⟩ := notes
  obtain ⟨pairs'⟩ := notes'
  unfold SortedMap.get?
  dsimp only at h ⊢
  induction h with
  | nil => exact .none
  | @cons l l' _ _ hone _ ih =>
      by_cases hk : l'.1 = k
      · rw [List.find?_cons_of_pos (by simpa using hone.1.trans hk), List.find?_cons_of_pos (by simpa using hk)]
        exact .some hone.2
      · rw [List.find?_cons_of_neg (by simpa [hone.1] using hk), List.find?_cons_of_neg (by simpa using hk)]
        exact ih

theorem insert_like (h : Notes.Like like notes.toList notes'.toList) (k : UInt32) {new new' : List Note}
    (hnew : List.Forall₂ (Note.Like like) new new') :
    Notes.Like like (notes.insert k new).toList (notes'.insert k new').toList := by
  obtain ⟨pairs⟩ := notes
  obtain ⟨pairs'⟩ := notes'
  unfold SortedMap.insert
  dsimp only at h ⊢
  induction h with
  | nil => exact .cons ⟨rfl, hnew⟩ .nil
  | @cons l l' rest rest' hone hrest ih =>
      obtain ⟨k₁, v₁⟩ := l
      obtain ⟨k₂, v₂⟩ := l'
      obtain rfl : k₁ = k₂ := hone.1
      rw [SortedMap.insertInto, SortedMap.insertInto]
      split
      · exact .cons ⟨rfl, hnew⟩ hrest
      · split
        · exact .cons ⟨rfl, hnew⟩ (.cons hone hrest)
        · exact .cons hone ih

theorem of_like (h : Notes.Like like notes.toList notes'.toList) (k : UInt32) :
    List.Forall₂ (Note.Like like) (notes.of k) (notes'.of k) := by
  have hfound := get?_rel h k
  unfold Notes.of
  generalize notes.get? k = x, notes'.get? k = x' at hfound ⊢
  cases hfound with
  | none => exact .nil
  | some hnotes => exact hnotes

theorem add_like (h : s.Like like s') (style : FootnoteStyle) :
    (s.add style).1 = (s'.add style).1 ∧ (s.add style).2.Like like (s'.add style).2 := by
  have hnotes := of_like h.notes s.chapter
  unfold State.add
  rw [← h.chapter]
  dsimp only
  rw [hnotes.length_eq]
  exact ⟨rfl, rfl, insert_like h.notes s.chapter (List.rel_append hnotes (.cons ⟨rfl, .nil⟩ .nil))⟩

theorem modify_like {l l' : List Note} (h : List.Forall₂ (Note.Like like) l l') (index : Nat)
    {content content' : List Node} (hcontent : List.Forall₂ (Node.Like like) content content') :
    List.Forall₂ (Note.Like like) (l.modify index ({ · with content := content }))
      (l'.modify index ({ · with content := content' })) := by
  induction h generalizing index with
  | nil =>
      rw [List.modify_nil, List.modify_nil]
      exact .nil
  | cons hone hrest ih =>
      cases index with
      | zero => exact .cons ⟨hone.mark, hcontent⟩ hrest
      | succ index => exact .cons hone (ih index)

theorem fill_like (h : s.Like like s') (index : Nat) {content content' : List Node}
    (hcontent : List.Forall₂ (Node.Like like) content content') :
    (s.fill index content).Like like (s'.fill index content') := by
  have hfound := get?_rel h.notes s.chapter
  unfold State.fill
  rw [← h.chapter]
  generalize s.notes.get? s.chapter = x, s'.notes.get? s.chapter = x' at hfound ⊢
  cases hfound with
  | none => exact h
  | some hnotes => exact ⟨rfl, insert_like h.notes s.chapter (modify_like hnotes _ hcontent)⟩

theorem count_eq (h : Notes.Like like notes.toList notes'.toList) : notes.count = notes'.count := by
  suffices hfold : ∀ n, notes.toList.foldl (fun n p => n + p.2.length) n =
      notes'.toList.foldl (fun n p => n + p.2.length) n from
    hfold 0
  intro n
  generalize notes.toList = l, notes'.toList = l' at h
  induction h generalizing n with
  | nil => rfl
  | cons hone _ ih =>
      rw [List.foldl_cons, List.foldl_cons, hone.2.length_eq]
      exact ih _

end States

section Alike

variable {like : Likeness} {n n' : Node}

theorem isFootnote_eq (h : n.Like like n') : isFootnote n = isFootnote n' := by
  cases h with
  | node hkind => cases hkind <;> rfl

theorem isSpaceMark_eq (h : n.Like like n') : isSpaceMark n = isSpaceMark n' := by
  cases h with
  | node hkind =>
      unfold isSpaceMark
      rw [decide_eq_decide]
      exact hkind.eq_iff _ rfl

theorem chapterNumber?_eq (h : n.Like like n') : n.chapterNumber? = n'.chapterNumber? := by
  cases h with
  | node hkind => cases hkind <;> rfl

/-- As many nodes at the start of related lists pass a test. -/
theorem length_takeWhile_of_forall₂ {r : Node → Node → Prop} {p : Node → Bool} (hp : ∀ n m, r n m → p n = p m)
    {l m : List Node} (h : List.Forall₂ r l m) : (l.takeWhile p).length = (m.takeWhile p).length := by
  induction h with
  | nil => rfl
  | cons hone _ ih =>
      rw [List.takeWhile_cons, List.takeWhile_cons, hp _ _ hone]
      split
      · exact congrArg (· + 1) ih
      · rfl

/-- Nodes that do the same to the footnotes around them. -/
structure Resembles (n m : Node) : Prop where
  isFootnote_eq : isFootnote n = isFootnote m
  isSpaceMark_eq : isSpaceMark n = isSpaceMark m
  endsSentence_eq : endsSentence n = endsSentence m
  isSubstance_eq : isSubstance n = isSubstance m

theorem sites_eq_of_resembles {before before' : Option Node}
    (hbefore : before.any endsSentence = before'.any endsSentence) {l m : List Node} (h : List.Forall₂ Resembles l m) :
    sites before l = sites before' m := by
  induction h generalizing before before' with
  | nil => rfl
  | @cons n n' rest rest' hn hrest ih =>
      have hof : Site.of before rest = Site.of before' rest' := by
        rw [Site.of, Site.of, hbefore, length_takeWhile_of_forall₂ (fun _ _ hone => hone.isSpaceMark_eq) hrest,
          any_eq_of_forall₂ (fun _ _ hone => hone.isSubstance_eq) hrest]
      have hnext : (some n).any endsSentence = (some n').any endsSentence := hn.endsSentence_eq
      cases hfootnote : isFootnote n' with
      | false => rw [sites_cons_neg hfootnote, sites_cons_neg (hn.isFootnote_eq.trans hfootnote), ih hnext]
      | true => rw [sites_cons_pos hfootnote, sites_cons_pos (hn.isFootnote_eq.trans hfootnote), hof, ih hnext]

/-- What is collected from a node is one of its kind. -/
theorem resembles_collected (style : FootnoteStyle) (s : State) (l : List Node) :
    List.Forall₂ Resembles l (Footnotes.nodes style s l).1 := by
  induction l generalizing s with
  | nil => exact .nil
  | cons n rest ih =>
      have hfirst : List.Forall₂ Resembles [n] (Footnotes.nodes style s [n]).1 := by
        cases hn : isFootnote n with
        | true =>
            rw [nodes_singleton_pos s hn]
            obtain ⟨mark, hmark⟩ := Forest.exists_mark_of_isFootnote hn
            refine .cons ⟨hn, ?_, ?_, ?_⟩ .nil <;> simp [isSpaceMark, endsSentence, isSubstance, hmark]
        | false =>
            rw [nodes_singleton_neg s hn]
            exact .cons ⟨rfl, rfl, rfl, rfl⟩ .nil
      rw [nodes_cons]
      exact List.rel_append hfirst (ih _)

/-- As many spaces are left after the footnotes among some siblings as after those among others. -/
def SpacedAlike (before : Option Node) (l : List Node) (before' : Option Node) (l' : List Node) : Prop :=
  (sites before l).map (·.spaced.spaces) = (sites before' l').map (·.spaced.spaces)

theorem SpacedAlike.collected {l l' : List Node} (h : SpacedAlike none l none l') (style : FootnoteStyle)
    (s s' : State) :
    SpacedAlike none (Footnotes.nodes style s l).1 none (Footnotes.nodes style s' l').1 := by
  unfold SpacedAlike
  rw [← sites_eq_of_resembles rfl (resembles_collected style s l),
    ← sites_eq_of_resembles rfl (resembles_collected style s' l')]
  exact h

variable (hjoined : ∀ t t', like.joined t t')

include hjoined

theorem like_spaceMark : spaceMark.Like like spaceMark :=
  .node (.bare rfl) Attrs.like_none none (hjoined _ _) .nil

/-- Where as many spaces are left after each footnote, siblings stay alike. -/
theorem spaceSentences_like {before before' : Option Node} (l : List Node) {l' : List Node}
    (h : List.Forall₂ (Node.Like like) l l') (hspaces : SpacedAlike before l before' l') :
    List.Forall₂ (Node.Like like) (spaceSentences before l) (spaceSentences before' l') := by
  match l, l', h with
  | [], [], .nil => exact .nil
  | n :: rest, n' :: rest', .cons hn hrest =>
      unfold SpacedAlike at hspaces
      cases hfootnote : isFootnote n' with
      | false =>
          have hfootnote' := (isFootnote_eq hn).trans hfootnote
          rw [sites_cons_neg hfootnote, sites_cons_neg hfootnote'] at hspaces
          rw [spaceSentences_cons_neg hfootnote, spaceSentences_cons_neg hfootnote']
          exact .cons hn (spaceSentences_like rest hrest hspaces)
      | true =>
          have hfootnote' := (isFootnote_eq hn).trans hfootnote
          rw [sites_cons_pos hfootnote, sites_cons_pos hfootnote', List.map_cons, List.map_cons] at hspaces
          obtain ⟨hleft, hlater⟩ := List.cons.inj hspaces
          have hfound : (Site.of before rest).spaces = (Site.of before' rest').spaces := by
            exact length_takeWhile_of_forall₂ (fun _ _ hone => isSpaceMark_eq hone) hrest
          rw [spaceSentences_cons_pos hfootnote, spaceSentences_cons_pos hfootnote', hleft, hfound]
          refine .cons hn ?_
          split
          · exact .cons (like_spaceMark hjoined) (spaceSentences_like rest hrest hlater)
          · split
            · -- There are spaces, and the first of them goes.
              rename_i hless
              cases hrest with
              | nil => simp [Site.of] at hless
              | @cons m m' rest rest' hm hrest =>
                  have hmark : isSpaceMark m' = true := by
                    by_contra hmark
                    simp [Site.of, hmark] at hless
                  have hmark' := (isSpaceMark_eq hm).trans hmark
                  rw [sites_cons_space hfootnote hmark, sites_cons_space hfootnote' hmark'] at hlater
                  exact spaceSentences_like rest hrest hlater
            · exact spaceSentences_like rest hrest hlater
termination_by l.length

section Collecting

variable {s s' : State}

/-- As long as spaces are put right alike, alike is what is collected. -/
theorem collected_like (style : FootnoteStyle) (hs : s.Like like s') {l l' : List Node}
    (h : List.Forall₂ (Node.Like like) l l')
    (hspaced : ∀ n ∈ Forest.preorder l, ∀ n', n.Like like n' → SpacedAlike none n.children none n'.children) :
    List.Forall₂ (Node.Like like) (Footnotes.nodes style s l).1 (Footnotes.nodes style s' l').1 ∧
      (Footnotes.nodes style s l).2.Like like (Footnotes.nodes style s' l').2 := by
  induction l using Forest.induction generalizing s s' l' with
  | nil =>
      cases h
      exact ⟨.nil, hs⟩
  | cons n rest ihChildren ihRest =>
      cases h with
      | @cons _ n' _ rest' hn hrest =>
          rw [Forest.preorder_cons, List.forall_mem_cons, List.forall_mem_append] at hspaced
          obtain ⟨hself, hchildren, hlater⟩ := hspaced
          have hspaces := hself n' hn
          have hfootnote := isFootnote_eq hn
          have hchapter := chapterNumber?_eq hn
          have hfirst : List.Forall₂ (Node.Like like) (Footnotes.nodes style s [n]).1
                (Footnotes.nodes style s' [n']).1 ∧
              (Footnotes.nodes style s [n]).2.Like like (Footnotes.nodes style s' [n']).2 := by
            cases hmarked : isFootnote n' with
            | true =>
                rw [nodes_singleton_pos _ (hfootnote.trans hmarked), nodes_singleton_pos _ hmarked]
                obtain ⟨hmark, hadded⟩ := add_like hs style
                cases hn with
                | node hkind ha number _ hinner =>
                    obtain ⟨hinside, hstate⟩ := ihChildren hadded hinner hchildren
                    dsimp only
                    rw [hmark]
                    exact ⟨.cons (.node (.bare rfl) ha number (hjoined _ _) .nil) .nil,
                      fill_like hstate _ (spaceSentences_like hjoined _ hinside (hspaces.collected style _ _))⟩
            | false =>
                rw [nodes_singleton_neg _ (hfootnote.trans hmarked), nodes_singleton_neg _ hmarked]
                have hentered : State.Like like
                    { s with chapter := n.chapterNumber?.getD s.chapter }
                    { s' with chapter := n'.chapterNumber?.getD s'.chapter } :=
                  ⟨congrArg₂ Option.getD hchapter hs.chapter, hs.notes⟩
                cases hn with
                | node hkind ha number _ hinner =>
                    obtain ⟨hinside, hstate⟩ := ihChildren hentered hinner hchildren
                    have hspaced := spaceSentences_like hjoined _ hinside (hspaces.collected style _ _)
                    exact ⟨.cons (.node hkind ha number (hjoined _ _) hspaced) .nil, hstate⟩
          obtain ⟨hrestLike, hlast⟩ := ihRest hfirst.2 hrest hlater
          rw [nodes_cons, nodes_cons _ n']
          exact ⟨List.rel_append hfirst.1 hrestLike, hlast⟩

end Collecting

section Placing

variable {notes notes' : List (UInt32 × List Note)}

theorem listNodes_like (h : Notes.Like like notes notes') :
    List.Forall₂ (Node.Like like) (listNodes notes) (listNodes notes') := by
  refine List.rel_map ?_ h
  rintro ⟨chapter, notes⟩ ⟨chapter', notes'⟩ ⟨hchapter, hnotes⟩
  obtain rfl : chapter = chapter' := hchapter
  refine .node (.bare rfl) Attrs.like_none none (hjoined _ _) (List.rel_map ?_ hnotes)
  rintro ⟨mark, content⟩ ⟨mark', content'⟩ ⟨hmark, hcontent⟩
  obtain rfl : mark = mark' := hmark
  exact .node (.bare rfl) Attrs.like_none none (hjoined _ _) hcontent

omit hjoined in
theorem due_like (h : Notes.Like like notes notes') (hn : n.Like like n') :
    Notes.Like like (due notes n).1 (due notes' n').1 ∧ Notes.Like like (due notes n).2 (due notes' n').2 := by
  have hchapter := chapterNumber?_eq hn
  unfold due
  rw [hchapter]
  split
  · exact ⟨List.rel_filter (fun l l' hone => by simp [hone.1]) h, List.rel_filter (fun l l' hone => by simp [hone.1]) h⟩
  · exact ⟨.nil, h⟩

theorem place_like (hnotes : Notes.Like like notes notes') {l l' : List Node}
    (h : List.Forall₂ (Node.Like like) l l') :
    List.Forall₂ (Node.Like like) (place notes l).1 (place notes' l').1 ∧
      Notes.Like like (place notes l).2 (place notes' l').2 := by
  induction l using Forest.induction generalizing notes notes' l' with
  | nil =>
      cases h
      exact ⟨.nil, hnotes⟩
  | cons n rest ihChildren ihRest =>
      cases h with
      | @cons _ n' _ rest' hn hrest =>
          obtain ⟨hlists, hdue⟩ := due_like hnotes hn
          have hfootnote := isFootnote_eq hn
          have hfirst : (placeIn (due notes n).2 n).1.Like like (placeIn (due notes' n').2 n').1 ∧
              Notes.Like like (placeIn (due notes n).2 n).2 (placeIn (due notes' n').2 n').2 := by
            cases hmarked : isFootnote n' with
            | true =>
                rw [placeIn_pos _ (hfootnote.trans hmarked), placeIn_pos _ hmarked]
                exact ⟨hn, hdue⟩
            | false =>
                rw [placeIn_neg _ (hfootnote.trans hmarked), placeIn_neg _ hmarked]
                cases hn with
                | node hkind ha number _ hchildren =>
                    obtain ⟨hinside, hleft⟩ := ihChildren hdue hchildren
                    exact ⟨.node hkind ha number (hjoined _ _) hinside, hleft⟩
          obtain ⟨hlater, hleft⟩ := ihRest hfirst.2 hrest
          exact ⟨List.rel_append (listNodes_like hjoined hlists) (.cons hfirst.1 hlater), hleft⟩

end Placing

/-- The footnotes of documents that are alike get the same marks and are placed alike, as long as spaces are put right
alike. -/
theorem placed_like (style : FootnoteStyle) {d d' : Document}
    (h : List.Forall₂ (Node.Like like) d.children d'.children)
    (hspaced : SpacedAlike none d.children none d'.children)
    (hinside : ∀ n ∈ Forest.preorder d.children, ∀ n', n.Like like n' → SpacedAlike none n.children none n'.children) :
    List.Forall₂ (Node.Like like) (d.placeFootnotes style).1.children (d'.placeFootnotes style).1.children ∧
      (d.placeFootnotes style).2 = (d'.placeFootnotes style).2 := by
  have hstart : State.Like like ⟨0, .empty⟩ ⟨0, .empty⟩ := ⟨rfl, .nil⟩
  obtain ⟨hmarked, hlast⟩ := collected_like hjoined style hstart h hinside
  obtain ⟨hplaced, hrest⟩ :=
    place_like hjoined hlast.notes (spaceSentences_like hjoined _ hmarked (hspaced.collected style _ _))
  exact ⟨List.rel_append hplaced (listNodes_like hjoined hrest), count_eq hlast.notes⟩

end Alike

end Footnotes

namespace Salts

open Footnotes

variable {first second : Text} {calls : List Call} {n n' : Node}

theorem Alike.isEnded_eq {s : Salts} {t t' : Text} (h : s.Alike t t') : isEnded t = isEnded t' := by
  have htrimmed := (h.trimEndWhere isBlank_eq_false_of_mem_hexDigits).trimEndWhere isCloser_eq_false_of_mem_hexDigits
  exact htrimmed.getLast?_any_eq isStop_eq_false_of_mem_hexDigits

theorem endsSentence_eq (h : n.Like (written first second calls) n') : endsSentence n = endsSentence n' := by
  cases h with
  | node hkind =>
      cases hkind with
      | text ht => exact Alike.isEnded_eq ht
      | _ => rfl

theorem isSubstance_eq (h : n.Like (written first second calls) n') : isSubstance n = isSubstance n' := by
  cases h with
  | node hkind =>
      cases hkind with
      | text ht => exact congrArg not (Alike.isBlankOnly_eq ht)
      | _ => rfl

theorem resembles_of_like (h : n.Like (written first second calls) n') : Resembles n n' :=
  ⟨isFootnote_eq h, isSpaceMark_eq h, endsSentence_eq h, isSubstance_eq h⟩

theorem spacedAlike_of_like {l l' : List Node} (h : List.Forall₂ (Node.Like (written first second calls)) l l') :
    SpacedAlike none l none l' :=
  congrArg _ (sites_eq_of_resembles rfl (h.imp fun _ _ => resembles_of_like))

/-- The footnotes of documents that are written alike get the same marks and are placed alike. -/
theorem placeFootnotes_like (style : FootnoteStyle) {d d' : Document}
    (h : List.Forall₂ (Node.Like (written first second calls)) d.children d'.children) :
    List.Forall₂ (Node.Like (written first second calls)) (d.placeFootnotes style).1.children
        (d'.placeFootnotes style).1.children ∧ (d.placeFootnotes style).2 = (d'.placeFootnotes style).2 := by
  refine placed_like (fun _ _ => trivial) style h (spacedAlike_of_like h) fun n _ n' hn => ?_
  cases hn with
  | node _ _ _ _ hchildren => exact spacedAlike_of_like hchildren

end Salts

end Manuscript
