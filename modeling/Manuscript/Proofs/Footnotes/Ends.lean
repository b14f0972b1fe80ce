import Manuscript.Proofs.Footnotes.Chapters
import Manuscript.Proofs.Html.Shown

/-!
The footnotes and items that a document shows once the contents of its footnotes are in lists.

Main statement: no footnote is shown twice, and if chapters stand in blocks only, each footnote has its item where items
are shown (`exists_shownOnce`).
-/

namespace Manuscript

namespace Forest

open Footnotes (isList mark? marksIn marksIn_cons)

/-- The marks of the footnotes that some nodes show as blocks. -/
def shownOrigins (l : List Node) : List Mark := (blockEnds l).filterMap FootnoteEnd.origin?

/-- The marks of the items that some nodes show as blocks. -/
def shownNotes (l : List Node) : List Mark := (blockEnds l).filterMap FootnoteEnd.note?

theorem blockEnds_append (l more : List Node) : blockEnds (l ++ more) = blockEnds l ++ blockEnds more := by
  induction l with
  | nil => rfl
  | cons n l ih => rw [List.cons_append, blockEnds, blockEnds, ih, List.append_assoc]

theorem origins_inlineEnds_sublist (place : Html.Place) (l : List Node) :
    ((inlineEnds place l).filterMap FootnoteEnd.origin?).Sublist (marksIn l) := by
  induction l using Forest.induction with
  | nil => exact .refl _
  | cons n rest ihChildren ihRest =>
      rw [inlineEnds, List.filterMap_append, marksIn_cons, ← List.append_assoc]
      refine List.Sublist.append ?_ ihRest
      obtain ⟨kind, a, number, children⟩ := n
      have hchildren := ihChildren.trans (List.sublist_append_right (mark? ⟨kind, a, number, children⟩).toList _)
      cases kind with
      | footnote mark =>
          cases place with
          | heading => exact List.nil_sublist _
          | body =>
              cases mark with
              | none => exact hchildren
              | some mark => exact List.sublist_append_left [mark] _
      | _ => first | exact List.nil_sublist _ | exact hchildren

theorem origins_noteEnds_sublist (l : List Node) :
    ((noteEnds l).filterMap FootnoteEnd.origin?).Sublist (marksIn l) := by
  induction l with
  | nil => exact .refl _
  | cons n l ih =>
      rw [noteEnds, List.flatMap_cons, List.filterMap_append, marksIn_cons, ← List.append_assoc]
      refine List.Sublist.append ?_ ih
      obtain ⟨kind, a, number, children⟩ := n
      cases kind with
      | footnoteItem mark => exact origins_inlineEnds_sublist .body children
      | _ => exact List.nil_sublist _

theorem origins_itemEndsOf_sublist {l : List Node} {ends : List FootnoteEnd}
    (h : (ends.filterMap FootnoteEnd.origin?).Sublist (marksIn l)) :
    ((itemEndsOf l ends).filterMap FootnoteEnd.origin?).Sublist (marksIn l) := by
  unfold itemEndsOf
  split
  · exact h
  · exact origins_inlineEnds_sublist .body l

theorem origins_blockEnds_sublist (l : List Node) :
    ((blockEnds l).filterMap FootnoteEnd.origin?).Sublist (marksIn l) ∧
      ((itemsEnds l).filterMap FootnoteEnd.origin?).Sublist (marksIn l) := by
  induction l using Forest.induction with
  | nil => exact ⟨.refl _, .refl _⟩
  | cons n rest ihChildren ihRest =>
      obtain ⟨hblocks, hitems⟩ := ihChildren
      have hinline := origins_inlineEnds_sublist .body [n]
      rw [inlineEnds, inlineEnds, List.append_nil, marksIn_cons] at hinline
      have hnil : marksIn [] = [] := rfl
      rw [hnil, List.append_nil] at hinline
      rw [blockEnds, itemsEnds, List.filterMap_append, List.filterMap_append, marksIn_cons, ← List.append_assoc]
      have hinside : ∀ {ends : List Mark}, ends.Sublist (marksIn n.children) →
          ends.Sublist ((mark? n).toList ++ marksIn n.children) :=
        fun h => h.trans (List.sublist_append_right _ _)
      obtain ⟨kind, a, number, children⟩ := n
      refine ⟨List.Sublist.append ?_ ihRest.1, (hinside (origins_itemEndsOf_sublist hblocks)).append ihRest.2⟩
      cases kind with
      | document | frontmatter | mainmatter | heading level | float kind => exact hinside hblocks
      | title | footnoteItem mark | verbatim | codeBlock | tableOfContents => exact List.nil_sublist _
      | caption | paragraph | displayMath => exact hinside (origins_inlineEnds_sublist .body children)
      | list isOrdered => exact hinside hitems
      | item => exact hinside (origins_itemEndsOf_sublist hblocks)
      | footnoteList chapter => exact hinside (origins_noteEnds_sublist children)
      | _ => exact hinline

/-- Items are shown in lists only. -/
theorem notes_blockEnds_eq_nil {l : List Node} (h : ∀ n ∈ preorder l, isList n.kind = false) :
    (blockEnds l).filterMap FootnoteEnd.note? = [] ∧ (itemsEnds l).filterMap FootnoteEnd.note? = [] := by
  induction l using Forest.induction with
  | nil => exact ⟨rfl, rfl⟩
  | cons n rest ihChildren ihRest =>
      simp only [preorder_cons, List.forall_mem_cons, List.forall_mem_append] at h
      obtain ⟨hn, hchildren, hrest⟩ := h
      obtain ⟨hblocks, hitems⟩ := ihChildren hchildren
      have hitem : (itemEndsOf n.children (blockEnds n.children)).filterMap FootnoteEnd.note? = [] := by
        unfold itemEndsOf
        split
        · exact hblocks
        · exact notes_inlineEnds .body n.children
      have hinline := notes_inlineEnds .body [n]
      rw [inlineEnds, inlineEnds, List.append_nil] at hinline
      rw [blockEnds, itemsEnds, List.filterMap_append, List.filterMap_append, (ihRest hrest).1, (ihRest hrest).2,
        List.append_nil, List.append_nil]
      obtain ⟨kind, a, number, children⟩ := n
      refine ⟨?_, hitem⟩
      cases kind with
      | document | frontmatter | mainmatter | heading level | float kind => exact hblocks
      | title | footnoteItem mark | verbatim | codeBlock | tableOfContents => rfl
      | caption | paragraph | displayMath => exact notes_inlineEnds .body children
      | list isOrdered => exact hitems
      | item => exact hitem
      | footnoteList chapter => cases hn
      | _ => exact hinline

end Forest

namespace Footnotes

open Forest

theorem shownNotes_append (l more : List Node) : shownNotes (l ++ more) = shownNotes l ++ shownNotes more := by
  rw [shownNotes, blockEnds_append, List.filterMap_append]
  rfl

/-- The marks of the footnotes in a list. -/
def marksOf (list : UInt32 × List Note) : List Mark := list.2.map Note.mark

/-- The marks of the footnotes in what the footnotes in a list hold. -/
def marksHeld (list : UInt32 × List Note) : List Mark := marksInNotes list.2

theorem marksIn_listNodes (notes : List (UInt32 × List Note)) :
    marksIn (listNodes notes) = notes.flatMap marksHeld := by
  have hitems : ∀ notes : List Note,
      marksIn (notes.map fun note => .new (.footnoteItem note.mark) note.content) = marksInNotes notes := by
    intro notes
    induction notes with
    | nil => rfl
    | cons note notes ih =>
        rw [List.map_cons, marksIn_cons, ih]
        rfl
  induction notes with
  | nil => rfl
  | cons p notes ih =>
      have hcons : listNodes (p :: notes) = listNode p.1 p.2 :: listNodes notes := rfl
      rw [hcons, marksIn_cons, ih, List.flatMap_cons]
      exact congrArg (· ++ notes.flatMap marksHeld) (hitems p.2)

/-- A list that is shown shows its items. -/
theorem shownNotes_listNodes (notes : List (UInt32 × List Note)) :
    shownNotes (listNodes notes) = notes.flatMap marksOf := by
  have hitems : ∀ notes : List Note,
      (noteEnds (notes.map fun note => .new (.footnoteItem note.mark) note.content)).filterMap FootnoteEnd.note? =
        notes.map Note.mark := by
    intro notes
    induction notes with
    | nil => rfl
    | cons note notes ih =>
        have hcontent := notes_inlineEnds .body note.content
        rw [noteEnds] at ih ⊢
        rw [List.map_cons, List.flatMap_cons, List.filterMap_append, ih, List.map_cons]
        change (note.mark :: (inlineEnds .body note.content).filterMap FootnoteEnd.note?) ++ _ = _
        rw [hcontent]
        rfl
  induction notes with
  | nil => rfl
  | cons p notes ih =>
      have hcons : listNodes (p :: notes) = [listNode p.1 p.2] ++ listNodes notes := rfl
      have hlist : shownNotes [listNode p.1 p.2] = p.2.map Note.mark := by
        rw [shownNotes, blockEnds, blockEnds, List.append_nil]
        exact hitems p.2
      rw [hcons, shownNotes_append, hlist, ih, List.flatMap_cons, marksOf]

/-! Placing lists -/

/-- What is counted among nodes and in lists is the same after lists have been placed. -/
def Keeps (inNodes : List Node → List Mark) (inList : UInt32 × List Note → List Mark)
    (notes : List (UInt32 × List Note)) (l : List Node) (r : List Node × List (UInt32 × List Note)) : Prop :=
  (inNodes r.1 ++ r.2.flatMap inList).Perm (inNodes l ++ notes.flatMap inList)

theorem place_cons (notes : List (UInt32 × List Note)) (n : Node) (rest : List Node) :
    place notes (n :: rest) =
      (listNodes (due notes n).1 ++ ([(placeIn (due notes n).2 n).1] ++ (place (placeIn (due notes n).2 n).2 rest).1),
        (place (placeIn (due notes n).2 n).2 rest).2) := rfl

/-- Lists go in front of a node, inside it and then among the nodes after it. -/
theorem keeps_place_cons {inNodes : List Node → List Mark} {inList : UInt32 × List Note → List Mark}
    (happend : ∀ l more, inNodes (l ++ more) = inNodes l ++ inNodes more) {notes : List (UInt32 × List Note)}
    {n : Node} {rest : List Node} (hdue : inNodes (listNodes (due notes n).1) = (due notes n).1.flatMap inList)
    (hfirst : Keeps inNodes inList (due notes n).2 [n] ([(placeIn (due notes n).2 n).1], (placeIn (due notes n).2 n).2))
    (hrest : Keeps inNodes inList (placeIn (due notes n).2 n).2 rest (place (placeIn (due notes n).2 n).2 rest)) :
    Keeps inNodes inList notes (n :: rest) (place notes (n :: rest)) := by
  have hcons : inNodes (n :: rest) = inNodes [n] ++ inNodes rest := happend [n] rest
  have hperm := (perm_due notes n).flatMap_right inList
  rw [List.flatMap_append] at hperm
  unfold Keeps at hfirst hrest ⊢
  rw [place_cons, hcons, happend, happend, hdue]
  rw [List.perm_iff_count] at hfirst hrest hperm ⊢
  intro mark
  have hfirst := hfirst mark
  have hrest := hrest mark
  have hperm := hperm mark
  simp only [List.count_append] at hfirst hrest hperm ⊢
  omega

theorem marksIn_singleton {n : Node} (h : isFootnote n = false) : marksIn [n] = marksIn n.children := by
  have hnil : marksIn [] = [] := rfl
  rw [marksIn_cons, mark?_eq_none h, hnil, List.append_nil]
  rfl

/-- Placing lists keeps all footnotes. -/
theorem keeps_marksIn_place (notes : List (UInt32 × List Note)) (l : List Node) :
    Keeps marksIn marksHeld notes l (place notes l) := by
  induction l using Forest.induction generalizing notes with
  | nil => exact .refl _
  | cons n rest ihChildren ihRest =>
      refine keeps_place_cons marksIn_append (marksIn_listNodes _) ?_ (ihRest _)
      cases hn : isFootnote n with
      | true =>
          rw [placeIn_pos _ hn]
          exact .refl _
      | false =>
          have hchildren := ihChildren (due notes n).2
          unfold Keeps at hchildren ⊢
          rw [placeIn_neg _ hn, marksIn_singleton hn, marksIn_singleton (by exact hn)]
          exact hchildren

theorem due_eq {n : Node} (h : n.kind ≠ .heading .chapter) (notes : List (UInt32 × List Note)) :
    due notes n = ([], notes) := by
  rw [due, Node.chapterNumber?_eq_none h]

theorem place_eq_self {l : List Node} (h : ∀ m ∈ preorder l, m.kind ≠ .heading .chapter)
    (notes : List (UInt32 × List Note)) : place notes l = (l, notes) := by
  induction l using Forest.induction generalizing notes with
  | nil => rfl
  | cons n rest ihChildren ihRest =>
      simp only [preorder_cons, List.forall_mem_cons, List.forall_mem_append] at h
      obtain ⟨hn, hchildren, hrest⟩ := h
      have hdue := due_eq hn notes
      have hfirst : placeIn notes n = (n, notes) := by
        cases hfootnote : isFootnote n with
        | true => exact placeIn_pos notes hfootnote
        | false =>
            rw [placeIn_neg notes hfootnote, ihChildren hchildren]
            cases n
            rfl
      rw [place_cons, hdue, hfirst, ihRest hrest]
      rfl

/-- A node of each kind is still there after lists have been placed. -/
theorem any_isBlock_place {l : List Node} (h : l.any Html.isBlock = true) (notes : List (UInt32 × List Note)) :
    (place notes l).1.any Html.isBlock = true := by
  induction l generalizing notes with
  | nil => cases h
  | cons n rest ih =>
      have hfirst : Html.isBlock (placeIn (due notes n).2 n).1 = Html.isBlock n := by
        cases hfootnote : isFootnote n with
        | true => rw [placeIn_pos _ hfootnote]
        | false => rw [placeIn_neg _ hfootnote]; rfl
      rw [place_cons, List.any_append, List.any_append, List.any_cons, hfirst]
      rw [List.any_cons, Bool.or_eq_true] at h
      rcases h with h | h
      · rw [h, Bool.true_or, Bool.true_or, Bool.or_true]
      · rw [ih h, Bool.or_true, Bool.or_true]

/-- Around a chapter are blocks. -/
theorem any_isBlock_of_chapter {l : List Node} (h : BlockChapters l)
    (hchapter : ¬∀ m ∈ preorder l, m.kind ≠ .heading .chapter) : l.any Html.isBlock = true := by
  push Not at hchapter
  obtain ⟨m, hm, hkind⟩ := hchapter
  obtain ⟨n, hn, heq⟩ := mem_preorder_iff.mp hm
  refine List.any_eq_true.mpr ⟨n, hn, ?_⟩
  obtain rfl | hinside := heq
  · rw [Html.isBlock, hkind]
  · have hholds : holdsBlocks n.kind = true := by
      by_contra hholds
      exact (h n (mem_preorder_of_mem hn)).inside (Bool.eq_false_of_not_eq_true hholds) m hinside hkind
    obtain ⟨kind, a, number, children⟩ := n
    cases kind <;> first | rfl | cases hholds

/-- The items that some nodes show as the contents of an item of a list. -/
def notesInItem (l : List Node) : List Mark := (itemEndsOf l (blockEnds l)).filterMap FootnoteEnd.note?

/-- The items that some nodes show as items of a list. -/
def notesInItems (l : List Node) : List Mark := (itemsEnds l).filterMap FootnoteEnd.note?

theorem notesInItem_eq {l : List Node} (h : l.any Html.isBlock = true) : notesInItem l = shownNotes l := by
  rw [notesInItem, itemEndsOf, if_pos h, shownNotes]

theorem notesInItems_append (l more : List Node) : notesInItems (l ++ more) = notesInItems l ++ notesInItems more := by
  have happend : itemsEnds (l ++ more) = itemsEnds l ++ itemsEnds more := by
    induction l with
    | nil => rfl
    | cons n l ih => rw [List.cons_append, itemsEnds, itemsEnds, ih, List.append_assoc]
  rw [notesInItems, happend, List.filterMap_append]
  rfl

theorem shownNotes_singleton (n : Node) : shownNotes [n] = n.blockEnds.filterMap FootnoteEnd.note? := by
  rw [shownNotes, blockEnds, blockEnds, List.append_nil]

theorem notesInItems_singleton (n : Node) : notesInItems [n] = notesInItem n.children := by
  cases n
  rw [notesInItems, itemsEnds, itemsEnds, List.append_nil]
  rfl

/-- Placing lists inside a node keeps all items that are shown in it, if it keeps those that its children show. -/
theorem keeps_shownNotes_placeIn {n : Node} (hn : HoldsChapters n) {notes : List (UInt32 × List Note)}
    (hblocks : Keeps shownNotes marksOf notes n.children (place notes n.children))
    (hitem : Keeps notesInItem marksOf notes n.children (place notes n.children))
    (hitems : (∀ m ∈ n.children, m.kind ≠ .heading .chapter) →
      Keeps notesInItems marksOf notes n.children (place notes n.children)) :
    Keeps shownNotes marksOf notes [n] ([(placeIn notes n).1], (placeIn notes n).2) := by
  cases hfootnote : isFootnote n with
  | true =>
      rw [placeIn_pos _ hfootnote]
      exact .refl _
  | false =>
      rw [placeIn_neg _ hfootnote]
      by_cases hchapters : ∀ m ∈ preorder n.children, m.kind ≠ .heading .chapter
      · rw [place_eq_self hchapters]
        cases n
        exact .refl _
      · obtain ⟨kind, a, number, children⟩ := n
        unfold Keeps
        rw [shownNotes_singleton, shownNotes_singleton]
        cases kind with
        | document | frontmatter | mainmatter | heading level | float kind => exact hblocks
        | list isOrdered => exact hitems (hn.inList isOrdered rfl)
        | item => exact hitem
        | _ => exact absurd (hn.inside rfl) hchapters

/-- Where chapters stand in blocks, placing lists keeps all items that are shown. -/
theorem keeps_shownNotes_place {l : List Node} (h : BlockChapters l) (notes : List (UInt32 × List Note)) :
    Keeps shownNotes marksOf notes l (place notes l) ∧
      ((∀ m ∈ l, m.kind ≠ .heading .chapter) → Keeps notesInItems marksOf notes l (place notes l)) := by
  induction l using Forest.induction generalizing notes with
  | nil => exact ⟨.refl _, fun _ => .refl _⟩
  | cons n rest ihChildren ihRest =>
      have hn : HoldsChapters n := h n (mem_preorder_of_mem List.mem_cons_self)
      have hchildren : BlockChapters n.children := fun m hm => h m (by simp [hm])
      have hrest : BlockChapters rest := fun m hm => h m (by simp [hm])
      have hitem : ∀ notes, Keeps notesInItem marksOf notes n.children (place notes n.children) := by
        intro notes
        by_cases hchapters : ∀ m ∈ preorder n.children, m.kind ≠ .heading .chapter
        · rw [place_eq_self hchapters]
          exact .refl _
        · have hblock := any_isBlock_of_chapter hchildren hchapters
          have hblocks := (ihChildren hchildren notes).1
          unfold Keeps at hblocks ⊢
          rwa [notesInItem_eq hblock, notesInItem_eq (any_isBlock_place hblock notes)]
      refine ⟨?blocks, fun hdirect => ?items⟩
      case blocks =>
        obtain ⟨hblocks, hitems⟩ := ihChildren hchildren (due notes n).2
        exact keeps_place_cons shownNotes_append (shownNotes_listNodes _)
          (keeps_shownNotes_placeIn hn hblocks (hitem _) hitems) (ihRest hrest _).1
      case items =>
        -- No list goes among the items themselves.
        obtain ⟨hfirst, hlater⟩ := List.forall_mem_cons.mp hdirect
        refine keeps_place_cons notesInItems_append ?_ ?_ ((ihRest hrest _).2 hlater)
        · rw [due_eq hfirst]
          rfl
        · cases hfootnote : isFootnote n with
          | true =>
              rw [placeIn_pos _ hfootnote]
              exact .refl _
          | false =>
              have hcontent := hitem (due notes n).2
              unfold Keeps at hcontent ⊢
              rw [placeIn_neg _ hfootnote, notesInItems_singleton, notesInItems_singleton]
              exact hcontent

/-! All footnotes -/

/-- In a document with `marks` for its footnotes no footnote is shown twice, and each has its item where items are
shown. -/
structure ShownOnce (l : List Node) (marks : List Mark) : Prop where
  distinct : (marks.map fun mark => (mark.chapter, mark.index)).Nodup
  origins : (shownOrigins l).Subperm marks
  notes : (shownNotes l).Perm marks

/-- Footnotes that are counted in each chapter are told apart by their chapters and indices. -/
theorem nodup_of_indices {marks : List Mark}
    (h : ∀ k, (marks.filter (·.chapter = k)).map Mark.index = List.range' 1 (marks.countP (·.chapter = k))) :
    (marks.map fun mark => (mark.chapter, mark.index)).Nodup := by
  refine List.nodup_iff_count_le_one.mpr fun ⟨chapter, index⟩ => ?_
  have hcount : (marks.map fun mark => (mark.chapter, mark.index)).count (chapter, index) =
      ((marks.filter (·.chapter = chapter)).map Mark.index).count index := by
    rw [List.count, List.countP_map, List.count, List.countP_map, List.countP_filter]
    refine List.countP_congr fun mark _ => ?_
    simp [and_comm]
  rw [hcount, h]
  exact List.nodup_iff_count_le_one.mp List.nodup_range' index

/-- Once the footnotes of a document are placed, none is shown twice, and the text of each is shown where chapters stand
in blocks. -/
theorem exists_shownOnce {d : Document} (hd : Clean d.children) (hchapters : BlockChapters d.children)
    (style : FootnoteStyle) :
    ∃ marks, (d.placeFootnotes style).2 = marks.length ∧ ShownOnce (d.placeFootnotes style).1.children marks := by
  obtain ⟨marks, marked, new, h⟩ := @collected_nodes style d.children hd ⟨0, .empty⟩
  have hblocks := @BlockChapters.nodes style d.children hchapters ⟨0, .empty⟩
  rw [Document.placeFootnotes]
  generalize nodes style ⟨0, .empty⟩ d.children = r at h hblocks
  obtain ⟨children, s⟩ := r
  have hsorted : s.notes.keys.Pairwise (· < ·) := h.sorted .nil
  have hof : ∀ k, s.notes.of k = new.filter (·.mark.chapter = k) := h.filed
  have hfiled : (s.notes.toList.flatMap Prod.snd).Perm new := perm_flatMap_toList hsorted hof
  have hmarks := keeps_marksIn_place s.notes.toList (spaceSentences none children)
  have hnotes := (keeps_shownNotes_place hblocks s.notes.toList).1
  simp only
  generalize place s.notes.toList (spaceSentences none children) = r at hmarks hnotes
  obtain ⟨placed, left⟩ := r
  refine ⟨marks, ?count, nodup_of_indices h.indices, ?origins, ?notes⟩
  case count =>
    rw [count_eq_length hsorted hof, ← h.newMarks, List.length_map]
  case origins =>
    have hshown : (shownOrigins (placed ++ listNodes left)).Sublist (marksIn (placed ++ listNodes left)) :=
      (origins_blockEnds_sublist _).1
    have hheld : (s.notes.toList.flatMap marksHeld).Perm (marksInNotes new) := by
      have hflat := hfiled.flatMap_right fun note => marksIn note.content
      rwa [List.flatMap_assoc] at hflat
    rw [marksIn_append, marksIn_listNodes] at hshown
    have hbefore : (marksIn (spaceSentences none children) ++ s.notes.toList.flatMap marksHeld).Subperm
        (marksIn children ++ marksInNotes new) :=
      (marksIn_spaceSentences_sublist none children).subperm.append hheld.subperm
    exact hshown.subperm.trans (hmarks.subperm.trans (hbefore.trans h.once))
  case notes =>
    have hbody : shownNotes (spaceSentences none children) = [] :=
      (notes_blockEnds_eq_nil fun n hn => (settled_spaceSentences h.settled none n hn).notList).1
    have hlisted : (s.notes.toList.flatMap marksOf).Perm marks := by
      have hmap := hfiled.map Note.mark
      rwa [List.map_flatMap, h.newMarks] at hmap
    change (shownNotes (placed ++ listNodes left)).Perm marks
    rw [shownNotes_append, shownNotes_listNodes]
    unfold Keeps at hnotes
    rw [hbody, List.nil_append] at hnotes
    exact hnotes.trans hlisted

end Footnotes

end Manuscript
