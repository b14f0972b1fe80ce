import Mathlib.Data.List.Perm.Subperm
import Mathlib.Data.List.Range
import Manuscript.Proofs.Document.Forest
import Manuscript.Proofs.SortedMap

/-!
Collecting footnotes.  Each footnote is given a mark where it is met first, before the footnotes inside it, and its
contents are filed under its mark after them.

Main statement: what is collected from a list of nodes are the footnotes of the list in the order of the document,
with the marks that continue the count of their chapters (`collected_nodes`).
-/

namespace Manuscript.Footnotes

open Forest

/-- The nodes without inter-sentence spaces among them and inside them. -/
def withoutSpaces (l : List Node) : List Node := without (fun kind => kind = .intersentenceSpace) l

/-- Is the kind that of a list of footnotes? -/
def isList : Kind → Bool
  | .footnoteList _ => true
  | _ => false

/-- The last numbered chapter among some nodes, or the one before them. -/
def lastChapter (chapter : UInt32) (l : List Node) : UInt32 :=
  l.foldl (fun chapter n => n.chapterNumber?.getD chapter) chapter

/-- The chapters that the footnotes among some nodes belong to: each to the last numbered chapter before it. -/
def chapterKeys (chapter : UInt32) : List Node → List UInt32
  | [] => []
  | n :: rest =>
    let chapter := n.chapterNumber?.getD chapter
    if isFootnote n then chapter :: chapterKeys chapter rest else chapterKeys chapter rest

/-- A marked footnote with what it holds; the footnotes inside it have no contents there. -/
def noteOf? (n : Node) : Option Note :=
  match n.kind with
  | .footnote (some mark) => some ⟨mark, hollow n.children⟩
  | _ => none

/-- The marked footnotes among some nodes and inside them, in the order of the document. -/
def notesIn (l : List Node) : List Note := (preorder l).filterMap noteOf?

/-- The mark of a footnote that has one. -/
def mark? (n : Node) : Option Mark :=
  match n.kind with
  | .footnote mark => mark
  | _ => none

/-- The marks of the footnotes among some nodes and inside them, in the order of the document. -/
def marksIn (l : List Node) : List Mark := (preorder l).filterMap mark?

/-- The marks of the footnotes in what some footnotes hold. -/
def marksInNotes (notes : List Note) : List Mark := notes.flatMap fun note => marksIn note.content

/-- The footnote without inter-sentence spaces. -/
def Note.tidy (note : Note) : Note := { note with content := withoutSpaces note.content }

/-- What holds of every node once the footnotes are collected: it is no list of footnotes, and if it is a footnote,
it has one of the marks and no contents. -/
structure Settled (marks : List Mark) (n : Node) : Prop where
  notList : isList n.kind = false
  footnote : isFootnote n = true → n.children = [] ∧ ∃ m ∈ marks, n.kind = .footnote (some m)

/-- What is collected from some nodes: `marks` are given to the footnotes in them, which makes them `marked`, and the
`new` footnotes are added to those of their chapters. -/
structure Collected (style : FootnoteStyle) (s : State) (l : List Node) (marks : List Mark) (marked : List Node)
    (new : List Note) (r : List Node × State) : Prop where
  assigned : ∀ more, assign (marks ++ more) l = (marked, more)
  keys : marks.map Mark.chapter = chapterKeys s.chapter (preorder l)
  indices : ∀ k, (marks.filter (·.chapter = k)).map Mark.index =
    List.range' ((s.notes.of k).length + 1) (marks.countP (·.chapter = k))
  displays : ∀ m ∈ marks, m.display = display style m.index
  nodes : withoutSpaces r.1 = withoutSpaces (hollow marked)
  chapter : r.2.chapter = lastChapter s.chapter (preorder l)
  filed : ∀ k, r.2.notes.of k = s.notes.of k ++ new.filter (·.mark.chapter = k)
  newMarks : new.map Note.mark = marks
  contents : new.map Note.tidy = (notesIn marked).map Note.tidy
  sorted : s.notes.keys.Pairwise (· < ·) → r.2.notes.keys.Pairwise (· < ·)
  settled : ∀ n ∈ preorder r.1, Settled marks n
  settledContents : ∀ note ∈ new, ∀ n ∈ preorder note.content, Settled marks n
  /-- No footnote is left twice; one in an inter-sentence space may be gone. -/
  once : (marksIn r.1 ++ marksInNotes new).Subperm marks

theorem withoutSpaces_append (l more : List Node) :
    withoutSpaces (l ++ more) = withoutSpaces l ++ withoutSpaces more :=
  without_append _ l more

/-- Inter-sentence spaces are all that is put in and taken out between sentences. -/
theorem withoutSpaces_spaceSentences (before : Option Node) (l : List Node) :
    withoutSpaces (spaceSentences before l) = withoutSpaces l := by
  have hcons : ∀ (n : Node) {l more : List Node}, withoutSpaces l = withoutSpaces more →
      withoutSpaces (n :: l) = withoutSpaces (n :: more) := by
    intro n l more heq
    have happend := congrArg (withoutSpaces [n] ++ ·) heq
    simpa only [← withoutSpaces_append, List.singleton_append] using happend
  fun_induction spaceSentences before l with
  | case1 => rfl
  | case2 => rfl
  | case3 before n next rest _ ih => exact hcons n ih
  | case4 before n next rest _ _ _ ih => exact hcons n ih
  | case5 before n next rest _ _ _ ih => exact hcons n ih
  | case6 before n next rest _ _ hmark ih =>
      refine hcons n (ih.trans ?_)
      rw [withoutSpaces, withoutSpaces, without_cons_pos (by simpa [isSpaceMark] using hmark)]
  | case7 before n next rest _ _ _ ih => exact hcons n ih

theorem mem_preorder_spaceSentences (before : Option Node) (l : List Node) :
    ∀ n ∈ preorder (spaceSentences before l), n ∈ preorder l ∨ n = spaceMark := by
  have hcons : ∀ (n : Node) {l more : List Node}, (∀ m ∈ preorder l, m ∈ preorder more ∨ m = spaceMark) →
      ∀ m ∈ preorder (n :: l), m ∈ preorder (n :: more) ∨ m = spaceMark := by
    intro n l more hl m hm
    rcases List.mem_cons.mp (preorder_cons n l ▸ hm) with rfl | hm
    · exact Or.inl (mem_preorder_of_mem List.mem_cons_self)
    · rcases List.mem_append.mp hm with hinside | hlater
      · exact Or.inl (by simp [hinside])
      · exact (hl m hlater).imp_left fun hmem => by simp [hmem]
  fun_induction spaceSentences before l with
  | case1 => exact fun n hn => Or.inl hn
  | case2 => exact fun n hn => Or.inl hn
  | case3 before n next rest _ ih => exact hcons n ih
  | case4 before n next rest _ _ _ ih =>
      refine hcons n fun m hm => ?_
      rcases List.mem_cons.mp (preorder_cons spaceMark _ ▸ hm) with rfl | hm
      · exact Or.inr rfl
      · exact ih m hm
  | case5 before n next rest _ _ _ ih => exact hcons n ih
  | case6 before n next rest _ _ _ ih =>
      exact hcons n fun m hm => (ih m hm).imp_left fun hmem => by simp [hmem]
  | case7 before n next rest _ _ _ ih => exact hcons n ih

theorem marksIn_cons (n : Node) (rest : List Node) :
    marksIn (n :: rest) = (mark? n).toList ++ (marksIn n.children ++ marksIn rest) := by
  rw [marksIn, preorder_cons, List.filterMap_cons, List.filterMap_append]
  cases mark? n <;> rfl

theorem marksIn_append (l more : List Node) : marksIn (l ++ more) = marksIn l ++ marksIn more := by
  simp [marksIn]

theorem mark?_eq_none {n : Node} (h : isFootnote n = false) : mark? n = none := by
  obtain ⟨kind, a, number, children⟩ := n
  cases kind with
  | footnote mark => cases h
  | _ => rfl

/-- Between sentences no footnote is put in. -/
theorem marksIn_spaceSentences_sublist (before : Option Node) (l : List Node) :
    (marksIn (spaceSentences before l)).Sublist (marksIn l) := by
  have hcons : ∀ (n : Node) {l more : List Node}, (marksIn l).Sublist (marksIn more) →
      (marksIn (n :: l)).Sublist (marksIn (n :: more)) := by
    intro n l more h
    rw [marksIn_cons, marksIn_cons]
    exact (h.append_left _).append_left _
  fun_induction spaceSentences before l with
  | case1 => exact .refl _
  | case2 => exact .refl _
  | case3 before n next rest _ ih => exact hcons n ih
  | case4 before n next rest _ _ _ ih => exact hcons n ih
  | case5 before n next rest _ _ _ ih => exact hcons n ih
  | case6 before n next rest _ _ _ ih =>
      refine hcons n (ih.trans ?_)
      rw [marksIn_cons]
      exact (List.sublist_append_right _ _).trans (List.sublist_append_right _ _)
  | case7 before n next rest _ _ _ ih => exact hcons n ih

theorem Settled.mono {marks more : List Mark} {n : Node} (h : Settled marks n) (hsub : ∀ m ∈ marks, m ∈ more) :
    Settled more n :=
  ⟨h.notList, fun hn => ⟨(h.footnote hn).1, (h.footnote hn).2.imp fun m hm => ⟨hsub m hm.1, hm.2⟩⟩⟩

theorem settled_spaceMark (marks : List Mark) : Settled marks spaceMark :=
  ⟨rfl, nofun⟩

theorem settled_spaceSentences {marks : List Mark} {l : List Node} (h : ∀ n ∈ preorder l, Settled marks n)
    (before : Option Node) : ∀ n ∈ preorder (spaceSentences before l), Settled marks n := by
  intro n hn
  rcases mem_preorder_spaceSentences before l n hn with hmem | rfl
  · exact h n hmem
  · exact settled_spaceMark marks

theorem lastChapter_append (chapter : UInt32) (l more : List Node) :
    lastChapter chapter (l ++ more) = lastChapter (lastChapter chapter l) more :=
  List.foldl_append

theorem chapterKeys_append (chapter : UInt32) (l more : List Node) :
    chapterKeys chapter (l ++ more) = chapterKeys chapter l ++ chapterKeys (lastChapter chapter l) more := by
  induction l generalizing chapter with
  | nil => rfl
  | cons n l ih =>
      rw [List.cons_append, chapterKeys, chapterKeys, ih]
      cases isFootnote n <;> rfl

theorem lastChapter_eq_self {l : List Node} (h : ∀ n ∈ l, n.chapterNumber? = none) (chapter : UInt32) :
    lastChapter chapter l = chapter := by
  induction l with
  | nil => rfl
  | cons n l ih =>
      have hrest := ih fun m hm => h m (List.mem_cons_of_mem n hm)
      rw [lastChapter, List.foldl_cons, h n List.mem_cons_self]
      exact hrest

theorem notesIn_cons_neg {n : Node} (h : isFootnote n = false) (rest : List Node) :
    notesIn (n :: rest) = notesIn n.children ++ notesIn rest := by
  have hnone : noteOf? n = none := by
    obtain ⟨kind, a, number, children⟩ := n
    cases kind with
    | footnote mark => cases h
    | _ => rfl
  simp [notesIn, hnone]

theorem notesIn_cons_pos {n : Node} {mark : Mark} (h : n.kind = .footnote (some mark)) (rest : List Node) :
    notesIn (n :: rest) = ⟨mark, hollow n.children⟩ :: (notesIn n.children ++ notesIn rest) := by
  have hsome : noteOf? n = some ⟨mark, hollow n.children⟩ := by
    rw [noteOf?, h]
  simp [notesIn, hsome]

theorem notesIn_append (l more : List Node) : notesIn (l ++ more) = notesIn l ++ notesIn more := by
  simp [notesIn]

theorem of_insert (notes : Notes) (chapter k : UInt32) (l : List Note) :
    Notes.of (notes.insert chapter l) k = if chapter = k then l else notes.of k := by
  rw [Notes.of, SortedMap.get?_insert]
  split <;> rfl

namespace State

theorem chapter_fill (s : State) (index : Nat) (content : List Node) :
    (s.fill index content).chapter = s.chapter := by
  unfold fill
  split <;> rfl

theorem of_add (s : State) (style : FootnoteStyle) (k : UInt32) :
    (s.add style).2.notes.of k = s.notes.of k ++ [⟨(s.add style).1, []⟩].filter (·.mark.chapter = k) := by
  simp only [add, of_insert]
  by_cases hk : s.chapter = k
  · subst hk
    simp
  · simp [hk]

theorem of_fill (s : State) (index : Nat) (content : List Node) (k : UInt32) :
    (s.fill index content).notes.of k =
      if s.chapter = k then (s.notes.of k).modify (index - 1) ({ · with content }) else s.notes.of k := by
  unfold fill
  by_cases hk : s.chapter = k
  · subst hk
    rw [if_pos rfl]
    split
    · rename_i hnone
      simp [Notes.of, hnone]
    · rename_i notes hsome
      rw [of_insert, if_pos rfl, Notes.of, hsome]
      rfl
  · rw [if_neg hk]
    split
    · rfl
    · rw [of_insert, if_neg hk]

end State

namespace State

theorem sorted_add {s : State} (hs : s.notes.keys.Pairwise (· < ·)) (style : FootnoteStyle) :
    (s.add style).2.notes.keys.Pairwise (· < ·) :=
  SortedMap.pairwise_keys_insert hs _ _

theorem sorted_fill {s : State} (hs : s.notes.keys.Pairwise (· < ·)) (index : Nat) (content : List Node) :
    (s.fill index content).notes.keys.Pairwise (· < ·) := by
  unfold fill
  split
  · exact hs
  · exact SortedMap.pairwise_keys_insert hs _ _

end State

theorem modify_length_append {α : Type} (l more : List α) (a : α) (f : α → α) :
    (l ++ a :: more).modify l.length f = l ++ f a :: more := by
  induction l with
  | nil => rfl
  | cons b l ih => rw [List.cons_append, List.length_cons, List.modify_succ_cons, ih, List.cons_append]

/-- The footnotes of a chapter are filed, or there are none. -/
theorem of_cases (notes : Notes) (chapter : UInt32) :
    notes.of chapter = [] ∨ (chapter, notes.of chapter) ∈ notes.toList := by
  rw [Notes.of]
  cases hget : notes.get? chapter with
  | none => exact .inl rfl
  | some l => exact .inr (SortedMap.mem_of_get? hget)

/-- Once the content of a footnote is filled in, each footnote has this content or is one from before. -/
theorem content_of_mem_modify {notes : List Note} {i : Nat} {content : List Node} {note : Note}
    (h : note ∈ notes.modify i ({ · with content })) : note.content = content ∨ note ∈ notes := by
  obtain ⟨j, hj⟩ := List.mem_iff_getElem?.mp h
  rw [List.getElem?_modify] at hj
  obtain ⟨old, hold, hnew⟩ := Option.map_eq_some_iff.mp hj
  split at hnew <;> subst hnew
  · exact .inl rfl
  · exact .inr (List.mem_of_getElem? hold)

variable {style : FootnoteStyle}

theorem chapterNumber?_of_isFootnote {n : Node} (h : isFootnote n = true) : n.chapterNumber? = none := by
  obtain ⟨mark, hmark⟩ := exists_mark_of_isFootnote h
  rw [Node.chapterNumber?, hmark]

namespace Collected

theorem countP_marks {s : State} {l marked : List Node} {marks : List Mark} {new : List Note} {r : List Node × State}
    (h : Collected style s l marks marked new r) (k : UInt32) :
    (r.2.notes.of k).length = (s.notes.of k).length + marks.countP (·.chapter = k) := by
  rw [h.filed, List.length_append, ← h.newMarks, List.countP_map, List.countP_eq_length_filter]
  rfl

theorem nil (s : State) : Collected style s [] [] [] [] ([], s) where
  assigned _ := rfl
  keys := rfl
  indices _ := rfl
  displays := by simp
  nodes := rfl
  chapter := rfl
  filed _ := by simp
  newMarks := rfl
  contents := rfl
  sorted h := h
  settled := by simp
  settledContents := by simp
  once := List.Subperm.refl []

/-- What is collected from some nodes and then from the nodes after them. -/
theorem append {s : State} {l l' marked marked' : List Node} {marks marks' : List Mark} {new new' : List Note}
    {r r' : List Node × State} (h : Collected style s l marks marked new r)
    (h' : Collected style r.2 l' marks' marked' new' r') :
    Collected style s (l ++ l') (marks ++ marks') (marked ++ marked') (new ++ new') (r.1 ++ r'.1, r'.2) where
  assigned more := by
    rw [List.append_assoc]
    exact assign_append (h.assigned _) (h'.assigned more)
  keys := by rw [List.map_append, h.keys, h'.keys, h.chapter, preorder_append, chapterKeys_append]
  indices k := by
    rw [List.filter_append, List.map_append, h.indices, h'.indices, h.countP_marks, List.countP_append,
      Nat.add_right_comm, List.range'_append_1]
  displays m hm := by
    rcases List.mem_append.mp hm with hm | hm
    · exact h.displays m hm
    · exact h'.displays m hm
  nodes := by rw [withoutSpaces_append, hollow_append, withoutSpaces_append, h.nodes, h'.nodes]
  chapter := by rw [h'.chapter, h.chapter, preorder_append, lastChapter_append]
  filed k := by rw [h'.filed, h.filed, List.filter_append, List.append_assoc]
  newMarks := by rw [List.map_append, h.newMarks, h'.newMarks]
  contents := by rw [notesIn_append, List.map_append, List.map_append, h.contents, h'.contents]
  sorted hs := h'.sorted (h.sorted hs)
  settled n hn := by
    rcases List.mem_append.mp (preorder_append r.1 r'.1 ▸ hn) with hn | hn
    · exact (h.settled n hn).mono fun m hm => List.mem_append_left marks' hm
    · exact (h'.settled n hn).mono fun m hm => List.mem_append_right marks hm
  settledContents note hnote n hn := by
    rcases List.mem_append.mp hnote with hnote | hnote
    · exact (h.settledContents note hnote n hn).mono fun m hm => List.mem_append_left marks' hm
    · exact (h'.settledContents note hnote n hn).mono fun m hm => List.mem_append_right marks hm
  once := by
    rw [marksIn_append, marksInNotes, List.flatMap_append]
    refine (List.Perm.subperm ?_).trans (h.once.append h'.once)
    rw [List.append_assoc, List.append_assoc]
    exact (List.perm_append_comm_assoc _ _ _).append_left _

/-- What is collected from a node that is no footnote is what is collected from its children. -/
theorem inside {s : State} {n : Node} {marked : List Node} {marks : List Mark} {new : List Note}
    {r : List Node × State} (hn : isFootnote n = false) (hlist : isList n.kind = false)
    (h : Collected style { s with chapter := n.chapterNumber?.getD s.chapter } n.children marks marked new r) :
    Collected style s [n] marks [{ n with children := marked }] new
      ([{ n with children := spaceSentences none r.1 }], r.2) where
  assigned more := assign_cons_neg hn (h.assigned more) rfl
  keys := by
    rw [h.keys, preorder_cons, chapterKeys, hn, preorder_nil, List.append_nil]
    rfl
  indices := h.indices
  displays := h.displays
  nodes := by
    have hhollow : hollow [{ n with children := marked }] = [{ n with children := hollow marked }] :=
      hollow_cons_neg (n := { n with children := marked }) hn []
    have hchildren : without _ (spaceSentences none r.1) = without _ (hollow marked) :=
      (withoutSpaces_spaceSentences none r.1).trans h.nodes
    rw [hhollow]
    cases hspace : decide (n.kind = .intersentenceSpace) with
    | true => rw [withoutSpaces, without_cons_pos hspace, withoutSpaces, without_cons_pos hspace]
    | false =>
        rw [withoutSpaces, without_cons_neg hspace, withoutSpaces, without_cons_neg hspace]
        simp only [hchildren]
  chapter := by
    rw [h.chapter, preorder_cons, preorder_nil, List.append_nil]
    rfl
  filed := h.filed
  newMarks := h.newMarks
  contents := by
    have hnotes := notesIn_cons_neg (n := { n with children := marked }) hn []
    rw [h.contents, hnotes]
    simp [notesIn]
  sorted := h.sorted
  settled m hm := by
    rw [preorder_cons, preorder_nil, List.append_nil] at hm
    rcases List.mem_cons.mp hm with rfl | hm
    · exact ⟨hlist, fun hfootnote => absurd (hfootnote.symm.trans hn) Bool.true_eq_false.mp⟩
    · exact settled_spaceSentences h.settled none m hm
  settledContents := h.settledContents
  once := by
    have hmark : mark? { n with children := spaceSentences none r.1 } = none := mark?_eq_none hn
    rw [marksIn_cons, hmark]
    refine List.Subperm.trans (List.Sublist.subperm ?_) h.once
    exact (List.append_nil (marksIn _) ▸ marksIn_spaceSentences_sublist none r.1).append_right _

/-- What is collected from a footnote is the footnote itself and what is collected from its contents. -/
theorem footnote {s : State} {n : Node} {marked : List Node} {marks : List Mark} {new : List Note}
    {r : List Node × State} (hn : isFootnote n = true)
    (hchapters : ∀ m ∈ preorder n.children, m.chapterNumber? = none)
    (h : Collected style (s.add style).2 n.children marks marked new r) :
    let mark := (s.add style).1
    let content := spaceSentences none r.1
    Collected style s [n] (mark :: marks) [{ n with kind := .footnote (some mark), children := marked }]
      (⟨mark, content⟩ :: new)
      ([{ n with kind := .footnote (some mark), children := [] }], r.2.fill mark.index content) where
  assigned more := assign_cons_pos hn (h.assigned more) rfl
  keys := by
    have hkeys : marks.map Mark.chapter = chapterKeys s.chapter (preorder n.children) := h.keys
    rw [preorder_cons, chapterKeys, chapterNumber?_of_isFootnote hn, hn, List.map_cons, hkeys, preorder_nil,
      List.append_nil]
    rfl
  indices k := by
    have hindices := h.indices k
    rw [State.of_add, List.length_append] at hindices
    have hchapter : (s.add style).1.chapter = s.chapter := rfl
    by_cases hk : s.chapter = k
    · subst hk
      have hindex : (s.add style).1.index = (s.notes.of s.chapter).length + 1 := rfl
      rw [List.filter_cons_of_pos (by simp [hchapter])] at hindices ⊢
      rw [List.countP_cons_of_pos (by simp [hchapter]), List.map_cons, hindices, List.range'_succ, hindex]
      rfl
    · rw [List.filter_cons_of_neg (by simp [hchapter, hk])] at hindices ⊢
      rw [List.countP_cons_of_neg (by simp [hchapter, hk]), hindices]
      rfl
  displays m hm := by
    rcases List.mem_cons.mp hm with rfl | hm
    · rfl
    · exact h.displays m hm
  nodes := by
    have hhollow := hollow_cons_pos
      (n := { n with kind := .footnote (some (s.add style).1), children := marked }) rfl []
    rw [hhollow]
    rfl
  chapter := by
    have hchapter : r.2.chapter = lastChapter s.chapter (preorder n.children) := h.chapter
    rw [State.chapter_fill, hchapter, preorder_cons, preorder_nil, List.append_nil, lastChapter, lastChapter,
      List.foldl_cons, chapterNumber?_of_isFootnote hn]
    rfl
  filed k := by
    -- No chapter inside the footnote goes on to another count, so its contents come to the place that was kept.
    have hchapter : r.2.chapter = s.chapter :=
      h.chapter.trans (lastChapter_eq_self hchapters _)
    have hmark : (s.add style).1.chapter = s.chapter := rfl
    rw [State.of_fill, hchapter, h.filed, State.of_add]
    by_cases hk : s.chapter = k
    · subst hk
      rw [if_pos rfl, List.filter_cons_of_pos (by simp [hmark]), List.filter_cons_of_pos (by simp [hmark]),
        List.append_assoc]
      exact modify_length_append _ _ _ _
    · rw [if_neg hk, List.filter_cons_of_neg (by simp [hmark, hk]), List.filter_cons_of_neg (by simp [hmark, hk])]
      simp
  newMarks := by rw [List.map_cons, h.newMarks]
  contents := by
    have hnotes := notesIn_cons_pos
      (n := { n with kind := .footnote (some (s.add style).1), children := marked }) rfl []
    have htidy : withoutSpaces (spaceSentences none r.1) = withoutSpaces (hollow marked) :=
      (withoutSpaces_spaceSentences none r.1).trans h.nodes
    have hnil : notesIn [] = [] := rfl
    rw [hnotes, List.map_cons, List.map_cons, hnil, List.append_nil, ← h.contents, Note.tidy, Note.tidy, htidy]
  sorted hs := by
    apply State.sorted_fill
    exact h.sorted (State.sorted_add hs style)
  settled m hm := by
    rw [preorder_cons, preorder_nil, List.append_nil] at hm
    obtain rfl := List.mem_singleton.mp hm
    exact ⟨rfl, fun _ => ⟨rfl, _, List.mem_cons_self, rfl⟩⟩
  settledContents note hnote m hm := by
    rcases List.mem_cons.mp hnote with rfl | hnote
    · exact (settled_spaceSentences h.settled none m hm).mono fun m hm => List.mem_cons_of_mem _ hm
    · exact (h.settledContents note hnote m hm).mono fun m hm => List.mem_cons_of_mem _ hm
  once := by
    refine (List.subperm_cons _).mpr (List.Subperm.trans (List.Sublist.subperm ?_) h.once)
    exact (marksIn_spaceSentences_sublist none r.1).append_right _

end Collected

theorem nodes_cons (s : State) (n : Node) (rest : List Node) :
    nodes style s (n :: rest) =
      ((nodes style s [n]).1 ++ (nodes style (nodes style s [n]).2 rest).1,
        (nodes style (nodes style s [n]).2 rest).2) := rfl

theorem nodes_singleton_pos (s : State) {n : Node} (hn : isFootnote n = true) :
    let mark := (s.add style).1
    let r := nodes style (s.add style).2 n.children
    let content := spaceSentences none r.1
    nodes style s [n] =
      ([{ n with kind := .footnote (some mark), children := [] }], r.2.fill mark.index content) := by
  obtain ⟨kind, a, number, children⟩ := n
  cases kind with
  | footnote mark => rfl
  | _ => cases hn

theorem nodes_singleton_neg (s : State) {n : Node} (hn : isFootnote n = false) :
    let r := nodes style { s with chapter := n.chapterNumber?.getD s.chapter } n.children
    nodes style s [n] = ([{ n with children := spaceSentences none r.1 }], r.2) := by
  obtain ⟨kind, a, number, children⟩ := n
  cases kind with
  | footnote mark => cases hn
  | _ => rfl

/-- There is no list of footnotes among some nodes and inside them, and no numbered chapter inside a footnote. -/
structure Clean (l : List Node) : Prop where
  lists : ∀ n ∈ preorder l, isList n.kind = false
  chapters : ∀ f ∈ preorder l, isFootnote f = true → ∀ n ∈ preorder f.children, n.chapterNumber? = none

theorem Clean.of_subset {l more : List Node} (h : Clean more) (hsub : ∀ n ∈ preorder l, n ∈ preorder more) :
    Clean l :=
  ⟨fun n hn => h.lists n (hsub n hn), fun f hf => h.chapters f (hsub f hf)⟩

/-- Collecting gives the footnotes marks in the order of the document, empties them and files what they hold. -/
theorem collected_nodes {l : List Node} (hl : Clean l) (s : State) :
    ∃ marks marked new, Collected style s l marks marked new (nodes style s l) := by
  induction l using Forest.induction generalizing s with
  | nil => exact ⟨[], [], [], .nil s⟩
  | cons n rest ihChildren ihRest =>
      have hself : n ∈ preorder (n :: rest) := mem_preorder_of_mem List.mem_cons_self
      have hchildren : Clean n.children := hl.of_subset fun m hm => by simp [hm]
      have hrest : Clean rest := hl.of_subset fun m hm => by simp [hm]
      have hfirst : ∃ marks marked new, Collected style s [n] marks marked new (nodes style s [n]) := by
        cases hn : isFootnote n with
        | true =>
            -- The footnote is counted before those inside it.
            obtain ⟨marks, marked, new, h⟩ := ihChildren hchildren (s.add style).2
            rw [nodes_singleton_pos s hn]
            exact ⟨_, _, _, h.footnote hn (hl.chapters n hself hn)⟩
        | false =>
            obtain ⟨marks, marked, new, h⟩ :=
              ihChildren hchildren { s with chapter := n.chapterNumber?.getD s.chapter }
            rw [nodes_singleton_neg s hn]
            exact ⟨_, _, _, h.inside hn (hl.lists n hself)⟩
      obtain ⟨marks, marked, new, h⟩ := hfirst
      obtain ⟨marks', marked', new', h'⟩ := ihRest hrest (nodes style s [n]).2
      rw [nodes_cons]
      exact ⟨_, _, _, h.append h'⟩

end Manuscript.Footnotes
