import Mathlib
import Manuscript.Proofs.Footnotes.Collect

/-!
Placing the lists of footnotes.  The lists of the chapters before a numbered chapter are put in front of it, and
those that are left at the end.

Main statement: what is collected from a list of nodes is placed without loss (`exists_distributed`).
-/

namespace Manuscript.Footnotes

open Forest

/-- The nodes without lists of footnotes among them and inside them. -/
def withoutLists (l : List Node) : List Node := without isList l

/-- The lists of footnotes among some nodes and inside them. -/
def listsIn (l : List Node) : List Node := (preorder l).filter fun n => isList n.kind

/-- The item of a footnote in a list, without inter-sentence spaces. -/
def Note.item (note : Note) : Node := .new (.footnoteItem note.mark) (withoutSpaces note.content)

/-- The footnotes hold nothing but settled nodes. -/
def SettledNotes (marks : List Mark) (notes : List (UInt32 × List Note)) : Prop :=
  ∀ p ∈ notes, ∀ note ∈ p.2, ∀ n ∈ preorder note.content, Settled marks n

/-- What comes of placing lists among some nodes: the lists that are placed and those that are left are the ones that
there were, and nothing else changes. -/
structure Placed (notes : List (UInt32 × List Note)) (l : List Node) (marks : List Mark)
    (r : List Node × List (UInt32 × List Note)) : Prop where
  body : withoutLists r.1 = l
  lists : (listsIn r.1 ++ listNodes r.2).Perm (listNodes notes)
  left : ∀ p ∈ r.2, p ∈ notes
  settled : ∀ n ∈ preorder r.1, isFootnote n = true → Settled marks n

theorem withoutLists_append (l more : List Node) :
    withoutLists (l ++ more) = withoutLists l ++ withoutLists more :=
  without_append _ l more

theorem listsIn_append (l more : List Node) : listsIn (l ++ more) = listsIn l ++ listsIn more := by
  simp [listsIn]

theorem listsIn_eq_nil {l : List Node} {marks : List Mark} (h : ∀ n ∈ preorder l, Settled marks n) :
    listsIn l = [] :=
  List.filter_eq_nil_iff.mpr fun n hn => by simp [(h n hn).notList]

/-- The nodes in the items of a list: the items and what is in them. -/
theorem mem_preorder_children_listNode {chapter : UInt32} {notes : List Note} {n : Node}
    (h : n ∈ preorder (listNode chapter notes).children) :
    ∃ note ∈ notes, n.kind = .footnoteItem note.mark ∨ n ∈ preorder note.content := by
  obtain ⟨item, hitem, hn⟩ := mem_preorder_iff.mp h
  obtain ⟨note, hnote, rfl⟩ := List.mem_map.mp hitem
  refine ⟨note, hnote, ?_⟩
  rcases hn with rfl | hn
  · exact Or.inl rfl
  · exact Or.inr hn

theorem isFootnote_eq_false_of_kind {n : Node} {kind : Kind} (h : n.kind = kind)
    (hkind : ∀ mark, kind ≠ .footnote mark) : isFootnote n = false := by
  by_contra hn
  obtain ⟨mark, hmark⟩ := exists_mark_of_isFootnote (Bool.of_not_eq_false hn)
  exact hkind mark (h.symm.trans hmark)

theorem settled_of_mem_listNodes {marks : List Mark} {notes : List (UInt32 × List Note)}
    (h : SettledNotes marks notes) {n : Node} (hn : n ∈ preorder (listNodes notes)) (hfootnote : isFootnote n = true) :
    Settled marks n := by
  obtain ⟨list, hlist, hn⟩ := mem_preorder_iff.mp hn
  obtain ⟨⟨chapter, notes'⟩, hp, rfl⟩ := List.mem_map.mp hlist
  rcases hn with rfl | hn
  · cases hfootnote
  · obtain ⟨note, hnote, hitem | hcontent⟩ := mem_preorder_children_listNode hn
    · rw [isFootnote_eq_false_of_kind hitem nofun] at hfootnote
      cases hfootnote
    · exact h _ hp note hnote n hcontent

theorem listsIn_listNodes {marks : List Mark} {notes : List (UInt32 × List Note)} (h : SettledNotes marks notes) :
    listsIn (listNodes notes) = listNodes notes := by
  induction notes with
  | nil => rfl
  | cons p notes ih =>
      obtain ⟨chapter, notes'⟩ := p
      have hrest := ih fun q hq => h q (List.mem_cons_of_mem _ hq)
      have hinside : (preorder (listNode chapter notes').children).filter (fun n => isList n.kind) = [] := by
        refine List.filter_eq_nil_iff.mpr fun n hn => ?_
        obtain ⟨note, hnote, hitem | hcontent⟩ := mem_preorder_children_listNode hn
        · simp [hitem, isList]
        · simp [(h _ List.mem_cons_self note hnote n hcontent).notList]
      have hcons : listNodes ((chapter, notes') :: notes) = listNode chapter notes' :: listNodes notes := rfl
      rw [listsIn] at hrest ⊢
      rw [hcons, preorder_cons, List.filter_cons_of_pos rfl, List.filter_append, hinside, hrest, List.nil_append]

theorem withoutLists_listNodes (notes : List (UInt32 × List Note)) : withoutLists (listNodes notes) = [] := by
  induction notes with
  | nil => rfl
  | cons p notes ih => exact (without_cons_pos rfl _).trans ih

theorem perm_due (notes : List (UInt32 × List Note)) (n : Node) :
    ((due notes n).1 ++ (due notes n).2).Perm notes := by
  unfold due
  split
  · rename_i chapter _
    simp only [decide_not]
    exact List.filter_append_perm (fun p => decide (p.1 < chapter)) notes
  · exact .refl _

namespace SettledNotes

variable {marks : List Mark} {notes more lists later : List (UInt32 × List Note)}

theorem of_subset (h : SettledNotes marks more) (hsub : ∀ p ∈ notes, p ∈ more) : SettledNotes marks notes :=
  fun p hp => h p (hsub p hp)

theorem left_of_perm (h : SettledNotes marks notes) (hperm : (lists ++ later).Perm notes) : SettledNotes marks lists :=
  h.of_subset fun _ hp => hperm.mem_iff.mp (List.mem_append_left later hp)

theorem right_of_perm (h : SettledNotes marks notes) (hperm : (lists ++ later).Perm notes) :
    SettledNotes marks later :=
  h.of_subset fun _ hp => hperm.mem_iff.mp (List.mem_append_right lists hp)

end SettledNotes

theorem listNodes_append (notes more : List (UInt32 × List Note)) :
    listNodes (notes ++ more) = listNodes notes ++ listNodes more :=
  List.map_append

theorem placeIn_pos (notes : List (UInt32 × List Note)) {n : Node} (hn : isFootnote n = true) :
    placeIn notes n = (n, notes) := by
  obtain ⟨kind, a, number, children⟩ := n
  cases kind with
  | footnote mark => rfl
  | _ => cases hn

theorem placeIn_neg (notes : List (UInt32 × List Note)) {n : Node} (hn : isFootnote n = false) :
    placeIn notes n = ({ n with children := (place notes n.children).1 }, (place notes n.children).2) := by
  obtain ⟨kind, a, number, children⟩ := n
  cases kind with
  | footnote mark => cases hn
  | _ => rfl

namespace Placed

variable {notes : List (UInt32 × List Note)} {l : List Node} {marks : List Mark}
  {r : List Node × List (UInt32 × List Note)}

/-- Lists are placed among some nodes and then among the nodes after them. -/
theorem append {l' : List Node} {r' : List Node × List (UInt32 × List Note)} (h : Placed notes l marks r)
    (h' : Placed r.2 l' marks r') : Placed notes (l ++ l') marks (r.1 ++ r'.1, r'.2) where
  body := by rw [withoutLists_append, h.body, h'.body]
  lists := by
    rw [listsIn_append, List.append_assoc]
    exact (h'.lists.append_left _).trans h.lists
  left p hp := h.left p (h'.left p hp)
  settled n hn := by
    rcases List.mem_append.mp (preorder_append r.1 r'.1 ▸ hn) with hn | hn
    · exact h.settled n hn
    · exact h'.settled n hn

/-- Some of the lists are put in front of the nodes. -/
theorem prepend {lists later : List (UInt32 × List Note)} (hnotes : SettledNotes marks notes)
    (hperm : (lists ++ later).Perm notes) (h : Placed later l marks r) :
    Placed notes l marks (listNodes lists ++ r.1, r.2) where
  body := by rw [withoutLists_append, withoutLists_listNodes, List.nil_append, h.body]
  lists := by
    rw [listsIn_append, listsIn_listNodes (hnotes.left_of_perm hperm), List.append_assoc]
    refine (h.lists.append_left _).trans ?_
    rw [← listNodes_append]
    exact hperm.map _
  left p hp := hperm.mem_iff.mp (List.mem_append_right lists (h.left p hp))
  settled n hn hfootnote := by
    rcases List.mem_append.mp (preorder_append (listNodes lists) r.1 ▸ hn) with hn | hn
    · exact settled_of_mem_listNodes (hnotes.left_of_perm hperm) hn hfootnote
    · exact h.settled n hn hfootnote

/-- With those that are left at the end all lists are there. -/
theorem perm_listsIn (hnotes : SettledNotes marks notes) (h : Placed notes l marks r) :
    (listsIn (r.1 ++ listNodes r.2)).Perm (listNodes notes) := by
  rw [listsIn_append, listsIn_listNodes (hnotes.of_subset h.left)]
  exact h.lists

theorem withoutLists_eq (h : Placed notes l marks r) : withoutLists (r.1 ++ listNodes r.2) = l := by
  rw [withoutLists_append, withoutLists_listNodes, List.append_nil, h.body]

end Placed

/-- Placing lists inside a node is placing them in the list of that node alone. -/
theorem placed_placeIn {notes : List (UInt32 × List Note)} {n : Node} {marks : List Mark}
    (hn : ∀ m ∈ preorder [n], Settled marks m)
    (h : Placed notes n.children marks (place notes n.children)) :
    Placed notes [n] marks ([(placeIn notes n).1], (placeIn notes n).2) := by
  have hself : Settled marks n := hn n (mem_preorder_of_mem List.mem_cons_self)
  cases hfootnote : isFootnote n with
  | true =>
      rw [placeIn_pos notes hfootnote]
      constructor
      · exact without_eq_self fun m hm => (hn m hm).notList
      · rw [listsIn_eq_nil hn]
        exact .refl _
      · exact fun p hp => hp
      · exact fun m hm _ => hn m hm
  | false =>
      rw [placeIn_neg notes hfootnote]
      constructor
      · have hbody : without isList (place notes n.children).1 = n.children := h.body
        have hcons := without_cons_neg (n := { n with children := (place notes n.children).1 }) hself.notList []
        refine hcons.trans ?_
        simp only [hbody]
        cases n
        rfl
      · rw [listsIn, preorder_cons, preorder_nil, List.append_nil, List.filter_cons_of_neg (by simp [hself.notList])]
        exact h.lists
      · exact h.left
      · intro m hm hmark
        rw [preorder_cons, preorder_nil, List.append_nil] at hm
        rcases List.mem_cons.mp hm with rfl | hm
        · exact absurd (hmark.symm.trans hfootnote) Bool.true_eq_false.mp
        · exact h.settled m hm hmark

/-- Placing lists loses none of them and changes nothing else. -/
theorem placed_place {notes : List (UInt32 × List Note)} {l : List Node} {marks : List Mark}
    (hnotes : SettledNotes marks notes) (hl : ∀ n ∈ preorder l, Settled marks n) :
    Placed notes l marks (place notes l) := by
  induction l using Forest.induction generalizing notes with
  | nil => exact ⟨rfl, .refl _, fun p hp => hp, fun n hn => by cases hn⟩
  | cons n rest ihChildren ihRest =>
      -- Some lists go in front of the node; those that are left go through its inside and on to the nodes after it.
      have hperm := perm_due notes n
      have hlater := hnotes.right_of_perm hperm
      have hchildren := ihChildren hlater fun m hm => hl m (by simp [hm])
      have hself : ∀ m ∈ preorder [n], Settled marks m := by
        intro m hm
        apply hl
        rw [← List.singleton_append, preorder_append]
        exact List.mem_append_left _ hm
      have hfirst := placed_placeIn hself hchildren
      have hrest := ihRest (hlater.of_subset hfirst.left) fun m hm => hl m (by simp [hm])
      exact (hfirst.append hrest).prepend hnotes hperm

/-- The footnotes `before` have been numbered by chapter and their contents moved to lists, which gives the nodes
`after`: `marks` are the marks of the footnotes in the order of the document, and `marked` is what it was before, but
with the marks. -/
structure Distributed (style : FootnoteStyle) (before after : List Node) (count : Nat) (marks : List Mark)
    (marked : List Node) : Prop where
  keys : marks.map Mark.chapter = chapterKeys 0 (preorder before)
  indices : ∀ k, (marks.filter (·.chapter = k)).map Mark.index = List.range' 1 (marks.countP (·.chapter = k))
  displays : ∀ m ∈ marks, m.display = display style m.index
  assigned : assign marks before = (marked, [])
  /-- The footnotes of the marked document have the marks, in this order. -/
  given : (notesIn marked).map Note.mark = marks
  counted : count = (preorder before).countP isFootnote
  /-- No chapter has two lists. -/
  listed : ((listsIn after).map Node.kind).Nodup
  /-- The list of a chapter holds the footnotes of the chapter. -/
  items : ∀ k, withoutSpaces (((listsIn after).filter (·.kind = .footnoteList k)).flatMap Node.children) =
    ((notesIn marked).filter (·.mark.chapter = k)).map Note.item
  /-- Apart from the lists, only the contents of footnotes are gone. -/
  left : withoutSpaces (withoutLists after) = withoutSpaces (hollow marked)
  emptied : ∀ f ∈ preorder after, isFootnote f = true → f.children = [] ∧ ∃ m ∈ marks, f.kind = .footnote (some m)

theorem length_chapterKeys (chapter : UInt32) (l : List Node) :
    (chapterKeys chapter l).length = l.countP isFootnote := by
  induction l generalizing chapter with
  | nil => rfl
  | cons n l ih =>
      rw [chapterKeys, List.countP_cons]
      cases isFootnote n <;> simp [ih]

/-- Taking the footnotes chapter by chapter takes every footnote once. -/
theorem perm_flatMap_filter {keys : List UInt32} (hkeys : keys.Nodup) {new : List Note}
    (hmem : ∀ note ∈ new, note.mark.chapter ∈ keys) :
    (keys.flatMap fun k => new.filter (·.mark.chapter = k)).Perm new := by
  induction keys generalizing new with
  | nil =>
      cases new with
      | nil => exact .refl _
      | cons note new => cases hmem note List.mem_cons_self
  | cons k keys ih =>
      rw [List.nodup_cons] at hkeys
      have hlater := @ih hkeys.2 (new.filter fun note => !decide (note.mark.chapter = k)) (by
        intro note hnote
        obtain ⟨hnote, hne⟩ := List.mem_filter.mp hnote
        exact (List.mem_cons.mp (hmem note hnote)).resolve_left (by simpa using hne))
      have hsame : ∀ k' ∈ keys,
          (new.filter fun note => !decide (note.mark.chapter = k)).filter (·.mark.chapter = k') =
            new.filter (·.mark.chapter = k') := by
        intro k' hk'
        rw [List.filter_filter]
        congr 1
        funext note
        by_cases heq : note.mark.chapter = k'
        · have hne : note.mark.chapter ≠ k := fun hk => hkeys.1 (hk ▸ heq ▸ hk')
          simp [heq, heq ▸ hne]
        · simp [heq]
      rw [List.flatMap_congr hsame] at hlater
      rw [List.flatMap_cons]
      exact (hlater.append_left _).trans (List.filter_append_perm (fun note => decide (note.mark.chapter = k)) new)

theorem of_eq_of_mem {notes : Notes} (hsorted : notes.keys.Pairwise (· < ·)) {p : UInt32 × List Note}
    (hp : p ∈ notes.toList) : notes.of p.1 = p.2 := by
  rw [Notes.of, (SortedMap.mem_toList_iff (SortedMap.nodup_keys hsorted)).mp hp]
  rfl

/-- The footnotes that are filed by chapter are those of all chapters. -/
theorem perm_flatMap_toList {notes : Notes} (hsorted : notes.keys.Pairwise (· < ·)) {new : List Note}
    (hnotes : ∀ k, notes.of k = new.filter (·.mark.chapter = k)) : (notes.toList.flatMap Prod.snd).Perm new := by
  have hmem : ∀ note ∈ new, note.mark.chapter ∈ notes.keys := by
    intro note hnote
    have hfound : note ∈ notes.of note.mark.chapter := by
      rw [hnotes]
      exact List.mem_filter.mpr ⟨hnote, by simp⟩
    cases hget : notes.get? note.mark.chapter with
    | none => simp [Notes.of, hget] at hfound
    | some l =>
        exact List.mem_map_of_mem ((SortedMap.mem_toList_iff (SortedMap.nodup_keys hsorted)).mpr hget)
  have hfiled : ∀ p ∈ notes.toList, p.2 = new.filter (·.mark.chapter = p.1) := by
    intro p hp
    rw [← hnotes, of_eq_of_mem hsorted hp]
  have hperm := perm_flatMap_filter (SortedMap.nodup_keys hsorted) hmem
  rw [SortedMap.keys, List.flatMap_map] at hperm
  rwa [List.flatMap_congr hfiled]

theorem count_eq_length {notes : Notes} (hsorted : notes.keys.Pairwise (· < ·)) {new : List Note}
    (hnotes : ∀ k, notes.of k = new.filter (·.mark.chapter = k)) : notes.count = new.length := by
  have hfold : ∀ (l : List (UInt32 × List Note)) (n : Nat),
      l.foldl (fun n p => n + p.2.length) n = n + (l.flatMap Prod.snd).length := by
    intro l
    induction l with
    | nil => simp
    | cons p l ih =>
        intro n
        rw [List.foldl_cons, ih, List.flatMap_cons, List.length_append, Nat.add_assoc]
  rw [Notes.count, hfold, Nat.zero_add, (perm_flatMap_toList hsorted hnotes).length_eq]

/-- The footnotes that are collected from a document are filed without nodes that are not settled. -/
theorem Collected.settledNotes {style : FootnoteStyle} {l marked : List Node} {marks : List Mark} {new : List Note}
    {r : List Node × State} (h : Collected style ⟨0, .empty⟩ l marks marked new r) :
    SettledNotes marks r.2.notes.toList := by
  intro p hp note hnote
  have hfiled : r.2.notes.of p.1 = new.filter (·.mark.chapter = p.1) := h.filed p.1
  rw [← of_eq_of_mem (h.sorted .nil) hp, hfiled] at hnote
  exact h.settledContents note (List.mem_filter.mp hnote).1

/-- Among lists of different chapters, the list of a chapter is found by its key. -/
theorem filter_listNodes {notes : List (UInt32 × List Note)} (hkeys : (notes.map Prod.fst).Nodup) (k : UInt32) :
    (listNodes notes).filter (·.kind = .footnoteList k) =
      ((notes.find? fun p => p.1 = k).map fun p => listNode p.1 p.2).toList := by
  induction notes with
  | nil => rfl
  | cons p notes ih =>
      obtain ⟨chapter, notes'⟩ := p
      rw [List.map_cons, List.nodup_cons] at hkeys
      have hcons : listNodes ((chapter, notes') :: notes) = listNode chapter notes' :: listNodes notes := rfl
      have hkind : (listNode chapter notes').kind = .footnoteList chapter := rfl
      rw [hcons]
      by_cases hk : chapter = k
      · subst hk
        have hnone : notes.find? (fun p => p.1 = chapter) = none := by
          refine List.find?_eq_none.mpr fun q hq heq => hkeys.1 ?_
          exact List.mem_map.mpr ⟨q, hq, of_decide_eq_true heq⟩
        rw [List.filter_cons_of_pos (by simp [hkind]), ih hkeys.2, hnone, List.find?_cons_of_pos (by simp)]
        rfl
      · rw [List.filter_cons_of_neg (by simp [hkind, hk]), ih hkeys.2, List.find?_cons_of_neg (by simp [hk])]

/-- The items of a chapter's list, as they are written. -/
theorem flatMap_children_filter_listNodes {notes : Notes} (hkeys : notes.keys.Nodup) (k : UInt32) :
    ((listNodes notes.toList).filter (·.kind = .footnoteList k)).flatMap Node.children =
      (notes.of k).map fun note => .new (.footnoteItem note.mark) note.content := by
  rw [filter_listNodes hkeys, Notes.of, SortedMap.get?]
  cases notes.toList.find? fun p => p.1 = k with
  | none => rfl
  | some p => exact List.append_nil _

theorem withoutSpaces_items (notes : List Note) :
    withoutSpaces (notes.map fun note => .new (.footnoteItem note.mark) note.content) = notes.map Note.item := by
  induction notes with
  | nil => rfl
  | cons note notes ih =>
      rw [List.map_cons, List.map_cons, ← ih]
      exact without_cons_neg (by simp [Node.new]) _

/-- Footnotes that are the same without inter-sentence spaces have the same items. -/
theorem map_item_filter_eq {new more : List Note} (h : new.map Note.tidy = more.map Note.tidy) (k : UInt32) :
    (new.filter (·.mark.chapter = k)).map Note.item = (more.filter (·.mark.chapter = k)).map Note.item := by
  have htidy : ∀ notes : List Note, (notes.filter (·.mark.chapter = k)).map Note.item =
      ((notes.map Note.tidy).filter (·.mark.chapter = k)).map
        fun note => .new (.footnoteItem note.mark) note.content := by
    intro notes
    rw [List.filter_map, List.map_map]
    rfl
  rw [htidy, htidy, h]

/-- Where the lists among some nodes are those of the chapters in some order, the list of a chapter can be told from
the others. -/
theorem filter_eq_of_perm {l : List Node} {notes : Notes} (hkeys : notes.keys.Nodup)
    (h : l.Perm (listNodes notes.toList)) (k : UInt32) :
    l.filter (·.kind = .footnoteList k) = (listNodes notes.toList).filter (·.kind = .footnoteList k) := by
  -- There is at most one list of the kind, so the order cannot matter.
  have hperm := h.filter (·.kind = .footnoteList k)
  rw [filter_listNodes hkeys] at hperm ⊢
  cases hfind : notes.toList.find? fun p => p.1 = k with
  | none =>
      rw [hfind] at hperm
      exact hperm.eq_nil
  | some p =>
      rw [hfind] at hperm
      exact List.perm_singleton.mp hperm

theorem nodup_kinds_of_perm {l : List Node} {notes : Notes} (hkeys : notes.keys.Nodup)
    (h : l.Perm (listNodes notes.toList)) : (l.map Node.kind).Nodup := by
  refine (h.map Node.kind).nodup_iff.mpr ?_
  have hkinds : (listNodes notes.toList).map Node.kind = notes.keys.map .footnoteList := by
    rw [listNodes, List.map_map, SortedMap.keys, List.map_map]
    rfl
  rw [hkinds]
  exact hkeys.map fun a b heq => Kind.footnoteList.inj heq

/-- Footnotes are moved to the lists of their chapters without loss. -/
theorem exists_distributed {d : Document} (hd : Clean d.children) (style : FootnoteStyle) :
    ∃ marks marked, Distributed style d.children (d.placeFootnotes style).1.children (d.placeFootnotes style).2 marks
      marked := by
  obtain ⟨marks, marked, new, h⟩ := @collected_nodes style d.children hd ⟨0, .empty⟩
  rw [Document.placeFootnotes]
  generalize nodes style ⟨0, .empty⟩ d.children = r at h
  obtain ⟨children, s⟩ := r
  have hsorted : s.notes.keys.Pairwise (· < ·) := h.sorted .nil
  have hkeys := SortedMap.nodup_keys hsorted
  have hof : ∀ k, s.notes.of k = new.filter (·.mark.chapter = k) := h.filed
  have hnotes : SettledNotes marks s.notes.toList := h.settledNotes
  have hbody := settled_spaceSentences h.settled none
  have hplaced := placed_place hnotes hbody
  simp only
  generalize place s.notes.toList (spaceSentences none children) = r at hplaced
  obtain ⟨placed, left⟩ := r
  have hleft : SettledNotes marks left := hnotes.of_subset hplaced.left
  have hlists : (listsIn (placed ++ listNodes left)).Perm (listNodes s.notes.toList) := hplaced.perm_listsIn hnotes
  have hgiven : (notesIn marked).map Note.mark = marks := by
    have hmarks := congrArg (List.map Note.mark) h.contents
    rw [List.map_map, List.map_map] at hmarks
    exact hmarks.symm.trans h.newMarks
  refine ⟨marks, marked, h.keys, ?indices, h.displays, ?assigned, hgiven, ?counted, ?listed, ?items, ?left, ?emptied⟩
  case indices => exact h.indices
  case assigned => simpa using h.assigned []
  case counted =>
    rw [count_eq_length hsorted hof, ← length_chapterKeys 0, ← h.keys, ← h.newMarks, List.length_map,
      List.length_map]
  case listed => exact nodup_kinds_of_perm hkeys hlists
  case items =>
    intro k
    rw [filter_eq_of_perm hkeys hlists, flatMap_children_filter_listNodes hkeys, hof, withoutSpaces_items]
    exact map_item_filter_eq h.contents k
  case left =>
    have hbody : withoutLists (placed ++ listNodes left) = spaceSentences none children := hplaced.withoutLists_eq
    rw [hbody, withoutSpaces_spaceSentences]
    exact h.nodes
  case emptied =>
    intro f hf hfootnote
    rcases List.mem_append.mp (preorder_append placed (listNodes left) ▸ hf) with hf | hf
    · exact (hplaced.settled f hf hfootnote).footnote hfootnote
    · exact (settled_of_mem_listNodes hleft hf hfootnote).footnote hfootnote

end Manuscript.Footnotes
