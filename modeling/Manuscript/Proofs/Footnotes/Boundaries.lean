import Manuscript.Proofs.Footnotes.Chapters
import Manuscript.Proofs.Numbering.Chapters

/-!
Where the lists of footnotes stand.  The list of a chapter is put right before the next numbered chapter, at whatever
depth that stands, or at the end of the document; lists that are due at one place stand there in the order of their
chapters.  A chapter in an inter-sentence space can be gone with it by then, and the lists that were due before it are
put before a later one.

Main statement: this holds of a document that has been parsed and numbered, and nothing but the lists, the marks and
contents of the footnotes and inter-sentence spaces is changed (`bounded_of_parse`).
-/

namespace Manuscript

mutual

/-- A node in which footnotes have no marks and no contents. -/
def Node.emptied : Node → Node
  | ⟨kind, a, number, children⟩ =>
    match kind with
    | .footnote _ => ⟨.footnote none, a, number, []⟩
    | kind => ⟨kind, a, number, Forest.emptied children⟩

/-- Some nodes in which footnotes have no marks and no contents. -/
def Forest.emptied : List Node → List Node
  | [] => []
  | n :: rest => n.emptied :: Forest.emptied rest

end

namespace Footnotes

open Forest

/-- The nodes without lists of footnotes, without the marks and contents of footnotes and without inter-sentence
spaces. -/
def frame (l : List Node) : List Node := emptied (withoutSpaces (withoutLists l))

/-- The nodes stand side by side among some nodes or inside one of them. -/
def Adjacent (siblings l : List Node) : Prop := siblings <:+: l ∨ ∃ n ∈ preorder l, siblings <:+: n.children

namespace Adjacent

variable {siblings l more : List Node}

theorem append_right (h : Adjacent siblings l) (more : List Node) : Adjacent siblings (l ++ more) := by
  rcases h with hwithin | ⟨n, hn, hwithin⟩
  · exact .inl (hwithin.trans (List.prefix_append l more).isInfix)
  · exact .inr ⟨n, preorder_append l more ▸ List.mem_append_left _ hn, hwithin⟩

theorem append_left (h : Adjacent siblings more) (l : List Node) : Adjacent siblings (l ++ more) := by
  rcases h with hwithin | ⟨n, hn, hwithin⟩
  · exact .inl (hwithin.trans (List.suffix_append l more).isInfix)
  · exact .inr ⟨n, preorder_append l more ▸ List.mem_append_right _ hn, hwithin⟩

theorem subset (h : Adjacent siblings l) : siblings ⊆ preorder l := by
  intro n hn
  rcases h with hwithin | ⟨m, hm, hwithin⟩
  · exact mem_preorder_of_mem (hwithin.subset hn)
  · exact mem_preorder_of_inside hm (mem_preorder_of_mem (hwithin.subset hn))

theorem inside {n : Node} (h : Adjacent siblings n.children) : Adjacent siblings [n] := by
  rcases h with hwithin | ⟨m, hm, hwithin⟩
  · exact .inr ⟨n, mem_preorder_of_mem List.mem_cons_self, hwithin⟩
  · exact .inr ⟨m, by simp [hm], hwithin⟩

end Adjacent

/-- Is the node a chapter with a number above `k`? -/
def isBeyond (k : UInt32) (n : Node) : Bool := n.chapterNumber?.any fun chapter => k < chapter

theorem isBeyond_iff {k : UInt32} {n : Node} : isBeyond k n = true ↔ ∃ j, n.chapterNumber? = some j ∧ k < j := by
  rw [isBeyond, Option.any_eq_true]
  simp

theorem isBeyond_eq_false {n : Node} (h : n.chapterNumber? = none) (k : UInt32) : isBeyond k n = false := by
  rw [isBeyond, h]
  rfl

/-- The list of the chapter `k` stands right before the first chapter that is left with a number above `k`, or at the
end if there is none.  What comes between the two, or after the list, are lists of chapters above `k`. -/
def IsInPlace (l : List Node) (k : UInt32) (list : Node) : Prop :=
  match (preorder l).find? (isBeyond k) with
  | some c => ∃ between, (∀ n ∈ between, ∃ k', n.kind = .footnoteList k' ∧ k < k' ∧ isBeyond k' c) ∧
      Adjacent (list :: between ++ [c]) l
  | none => ∃ later, (∀ n ∈ later, ∃ k', n.kind = .footnoteList k' ∧ k < k') ∧ list :: later <:+ l

/-- The list of the chapter `k` stands right before chapter `k + 1`, if that is among the `numbers` of chapters, or else
it is the last of the nodes. -/
def IsBeforeNext (numbers : List UInt32) (l : List Node) (k : UInt32) (list : Node) : Prop :=
  if k.toNat + 1 ∈ numbers.map UInt32.toNat then
    ∃ c, c.chapterNumber?.map UInt32.toNat = some (k.toNat + 1) ∧ Adjacent [list, c] l
  else l.getLast? = some list

theorem IsBeforeNext.mem_chapters {numbers : List UInt32} {k : UInt32} (hnext : k.toNat + 1 ∈ numbers.map UInt32.toNat)
    {l : List Node} {list : Node} (h : IsBeforeNext numbers l k list) :
    k.toNat + 1 ∈ (chapters l).map UInt32.toNat := by
  rw [IsBeforeNext, if_pos hnext] at h
  obtain ⟨c, hc, hadjacent⟩ := h
  obtain ⟨j, hj, hnumber⟩ := Option.map_eq_some_iff.mp hc
  refine List.mem_map.mpr ⟨j, List.mem_filterMap.mpr ⟨c, hadjacent.subset ?_, hj⟩, hnumber⟩
  exact List.mem_cons_of_mem _ List.mem_cons_self

theorem IsBeforeNext.getLast?_eq {numbers : List UInt32} {k : UInt32} (hnext : k.toNat + 1 ∉ numbers.map UInt32.toNat)
    {l : List Node} {list : Node} (h : IsBeforeNext numbers l k list) : l.getLast? = some list := by
  rwa [IsBeforeNext, if_neg hnext] at h

/-! Placing -/

/-- The footnotes hold no numbered chapters. -/
def Chapterless (notes : List (UInt32 × List Note)) : Prop :=
  ∀ p ∈ notes, ∀ note ∈ p.2, ∀ n ∈ preorder note.content, n.chapterNumber? = none

/-- The list of a chapter has been put where it belongs, or it is left. -/
def IsPlaced (p : UInt32 × List Note) (r : List Node × List (UInt32 × List Note)) : Prop :=
  match (preorder r.1).find? (isBeyond p.1) with
  | some c => ∃ between, (∀ q ∈ between, p.1 < q.1 ∧ isBeyond q.1 c) ∧ Adjacent (listNodes (p :: between) ++ [c]) r.1
  | none => p ∈ r.2

theorem chapterNumber?_of_mem_listNodes {notes : List (UInt32 × List Note)} (h : Chapterless notes) {n : Node}
    (hn : n ∈ preorder (listNodes notes)) : n.chapterNumber? = none := by
  obtain ⟨list, hlist, hn⟩ := mem_preorder_iff.mp hn
  obtain ⟨⟨chapter, notes'⟩, hp, rfl⟩ := List.mem_map.mp hlist
  rcases hn with rfl | hn
  · rfl
  · obtain ⟨note, hnote, hitem | hcontent⟩ := mem_preorder_children_listNode hn
    · exact Node.chapterNumber?_eq_none (hitem ▸ nofun)
    · exact h _ hp note hnote n hcontent

theorem find?_listNodes {notes : List (UInt32 × List Note)} (h : Chapterless notes) (k : UInt32) :
    (preorder (listNodes notes)).find? (isBeyond k) = none := by
  refine List.find?_eq_none.mpr fun n hn => ?_
  rw [isBeyond_eq_false (chapterNumber?_of_mem_listNodes h hn)]
  exact Bool.false_ne_true

namespace IsPlaced

variable {p : UInt32 × List Note} {lists left : List (UInt32 × List Note)}
  {r r' : List Node × List (UInt32 × List Note)}

/-- Nodes are put around others without a chapter before them. -/
theorem of_find?_eq (hfind : (preorder r'.1).find? (isBeyond p.1) = (preorder r.1).find? (isBeyond p.1))
    (hadjacent : ∀ siblings, Adjacent siblings r.1 → Adjacent siblings r'.1) (hleft : p ∈ r.2 → p ∈ r'.2)
    (h : IsPlaced p r) : IsPlaced p r' := by
  unfold IsPlaced at h ⊢
  rw [hfind]
  cases hfirst : (preorder r.1).find? (isBeyond p.1) with
  | some c =>
      rw [hfirst] at h
      obtain ⟨between, hbetween, hsiblings⟩ := h
      exact ⟨between, hbetween, hadjacent _ hsiblings⟩
  | none =>
      rw [hfirst] at h
      exact hleft h

/-- Lists are placed among some nodes and then among the nodes after them. -/
theorem append (h : IsPlaced p r) (h' : p ∈ r.2 → IsPlaced p r') : IsPlaced p (r.1 ++ r'.1, r'.2) := by
  cases hfirst : (preorder r.1).find? (isBeyond p.1) with
  | some c =>
      unfold IsPlaced at h ⊢
      rw [hfirst] at h
      rw [preorder_append, List.find?_append, hfirst, Option.some_or]
      obtain ⟨between, hbetween, hadjacent⟩ := h
      exact ⟨between, hbetween, hadjacent.append_right _⟩
  | none =>
      unfold IsPlaced at h
      rw [hfirst] at h
      refine of_find?_eq ?_ (fun _ hadjacent => hadjacent.append_left _) (fun hleft => hleft) (h' h)
      rw [preorder_append, List.find?_append, hfirst, Option.none_or]

/-- Lists of other chapters are put in front of the nodes. -/
theorem prepend (hlists : Chapterless lists) (h : IsPlaced p r) : IsPlaced p (listNodes lists ++ r.1, r.2) := by
  refine of_find?_eq ?_ (fun _ hadjacent => hadjacent.append_left _) (fun hleft => hleft) h
  rw [preorder_append, List.find?_append, find?_listNodes hlists, Option.none_or]

/-- Lists are placed inside a node. -/
theorem inside {n : Node} (hn : isBeyond p.1 n = false) (h : IsPlaced p (n.children, left)) :
    IsPlaced p ([n], left) := by
  refine of_find?_eq (r := (n.children, left)) ?_ (fun _ hadjacent => hadjacent.inside) (fun hleft => hleft) h
  rw [preorder_cons, preorder_nil, List.append_nil, List.find?_cons_of_neg (Bool.not_eq_true _ ▸ hn)]

end IsPlaced

theorem due_right_sublist (notes : List (UInt32 × List Note)) (n : Node) : (due notes n).2.Sublist notes := by
  unfold due
  split
  · exact List.filter_sublist
  · exact .refl _

theorem placeIn_right_sublist {notes : List (UInt32 × List Note)} {n : Node}
    (h : (place notes n.children).2.Sublist notes) : (placeIn notes n).2.Sublist notes := by
  cases hfootnote : isFootnote n with
  | true => rw [placeIn_pos _ hfootnote]
  | false =>
      rw [placeIn_neg _ hfootnote]
      exact h

/-- The lists that are left are in the order in which they were. -/
theorem place_right_sublist (notes : List (UInt32 × List Note)) (l : List Node) : (place notes l).2.Sublist notes := by
  induction l using Forest.induction generalizing notes with
  | nil => exact .refl _
  | cons n rest ihChildren ihRest =>
      exact (ihRest _).trans ((placeIn_right_sublist (ihChildren _)).trans (due_right_sublist notes n))

/-- The list of a chapter that is due before the node is put before it, and after it only those of the chapters in
between. -/
theorem isPlaced_due {notes : List (UInt32 × List Note)} (hsorted : (notes.map Prod.fst).Pairwise (· < ·))
    (hnotes : Chapterless notes) {p : UInt32 × List Note} (hp : p ∈ notes) {n n' : Node}
    (hn : n'.chapterNumber? = n.chapterNumber?) (hbeyond : isBeyond p.1 n) (rest : List Node)
    (left : List (UInt32 × List Note)) :
    IsPlaced p (listNodes (due notes n).1 ++ n' :: rest, left) := by
  cases hchapter : n.chapterNumber? with
  | none =>
      rw [isBeyond_eq_false hchapter] at hbeyond
      cases hbeyond
  | some chapter =>
      have hbeyond' (k : UInt32) : isBeyond k n' = decide (k < chapter) := by
        rw [isBeyond, hn, hchapter]
        rfl
      have hlt : p.1 < chapter := by simpa [isBeyond, hchapter] using hbeyond
      obtain ⟨earlier, later, rfl⟩ := List.append_of_mem hp
      rw [List.map_append, List.map_cons, List.pairwise_append, List.pairwise_cons] at hsorted
      have hdue : (due (earlier ++ p :: later) n).1 =
          earlier.filter (·.1 < chapter) ++ p :: later.filter (·.1 < chapter) := by
        rw [due, hchapter]
        simp only [List.filter_append]
        rw [List.filter_cons_of_pos (by simpa using hlt)]
      have hlists : Chapterless (due (earlier ++ p :: later) n).1 := fun q hq =>
        hnotes q ((perm_due _ n).mem_iff.mp (List.mem_append_left _ hq))
      have hfirst : (preorder (listNodes (due (earlier ++ p :: later) n).1 ++ n' :: rest)).find? (isBeyond p.1) =
          some n' := by
        rw [preorder_append, List.find?_append, find?_listNodes hlists, Option.none_or, preorder_cons,
          List.find?_cons_of_pos (by rw [hbeyond']; simpa using hlt)]
      unfold IsPlaced
      rw [hfirst]
      refine ⟨later.filter (·.1 < chapter), fun q hq => ?_, .inl ?_⟩
      · obtain ⟨hq, hqlt⟩ := List.mem_filter.mp hq
        rw [hbeyond']
        exact ⟨hsorted.2.1.1 _ (List.mem_map_of_mem hq), hqlt⟩
      · rw [hdue, listNodes_append]
        exact ⟨listNodes (earlier.filter (·.1 < chapter)), rest, by simp [listNodes]⟩

theorem mem_due_right {notes : List (UInt32 × List Note)} {p : UInt32 × List Note} (hp : p ∈ notes) {n : Node}
    (hbeyond : isBeyond p.1 n = false) : p ∈ (due notes n).2 := by
  unfold due
  cases hchapter : n.chapterNumber? with
  | none => exact hp
  | some chapter =>
      rw [isBeyond, hchapter] at hbeyond
      exact List.mem_filter.mpr ⟨hp, by simpa using hbeyond⟩

/-- Each list is put right before the first chapter with a number above that of its own, or it is left. -/
theorem isPlaced_place {notes : List (UInt32 × List Note)} (hsorted : (notes.map Prod.fst).Pairwise (· < ·))
    (hnotes : Chapterless notes) {l : List Node} (hl : ∀ n ∈ preorder l, isFootnote n = true → n.children = [])
    {p : UInt32 × List Note} (hp : p ∈ notes) : IsPlaced p (place notes l) := by
  induction l using Forest.induction generalizing notes with
  | nil => exact hp
  | cons n rest ihChildren ihRest =>
      simp only [preorder_cons, List.forall_mem_cons, List.forall_mem_append] at hl
      obtain ⟨hn, hchildren, hrest⟩ := hl
      have hnumber : (placeIn (due notes n).2 n).1.chapterNumber? = n.chapterNumber? := by
        cases hfootnote : isFootnote n with
        | true => rw [placeIn_pos _ hfootnote]
        | false =>
            rw [placeIn_neg _ hfootnote]
            rfl
      cases hbeyond : isBeyond p.1 n with
      | true => exact isPlaced_due hsorted hnotes hp hnumber hbeyond _ _
      | false =>
          -- The list goes through the inside of the node and on to the nodes after it.
          have hperm := perm_due notes n
          have hlists : Chapterless (due notes n).1 := fun q hq =>
            hnotes q (hperm.mem_iff.mp (List.mem_append_left _ hq))
          have hlater : Chapterless (due notes n).2 := fun q hq => hnotes q ((due_right_sublist notes n).subset hq)
          have hsorted' := hsorted.sublist ((due_right_sublist notes n).map Prod.fst)
          have hmem := mem_due_right hp hbeyond
          have hinside : IsPlaced p ([(placeIn (due notes n).2 n).1], (placeIn (due notes n).2 n).2) := by
            refine .inside ((congrArg (Option.any _) hnumber).trans hbeyond) ?_
            cases hfootnote : isFootnote n with
            | true =>
                rw [placeIn_pos _ hfootnote, hn hfootnote]
                exact hmem
            | false =>
                rw [placeIn_neg _ hfootnote]
                exact ihChildren hsorted' hlater hchildren hmem
          have hsublist := placeIn_right_sublist (place_right_sublist (due notes n).2 n.children)
          refine (hinside.append fun hleft => ?_).prepend hlists
          exact ihRest (hsorted'.sublist (hsublist.map Prod.fst)) (fun q hq => hlater q (hsublist.subset hq)) hrest
            hleft

/-- Once the lists that are left have been put at the end, each list is in its place. -/
theorem isInPlace_place {notes : List (UInt32 × List Note)} (hsorted : (notes.map Prod.fst).Pairwise (· < ·))
    (hnotes : Chapterless notes) {l : List Node} (hl : ∀ n ∈ preorder l, isFootnote n = true → n.children = [])
    {p : UInt32 × List Note} (hp : p ∈ notes) :
    IsInPlace ((place notes l).1 ++ listNodes (place notes l).2) p.1 (listNode p.1 p.2) := by
  have hplaced := isPlaced_place hsorted hnotes hl hp
  have hsublist := place_right_sublist notes l
  have hleft : Chapterless (place notes l).2 := fun q hq => hnotes q (hsublist.subset hq)
  unfold IsPlaced at hplaced
  unfold IsInPlace
  rw [preorder_append, List.find?_append, find?_listNodes hleft, Option.or_none]
  cases hfind : (preorder (place notes l).1).find? (isBeyond p.1) with
  | some c =>
      rw [hfind] at hplaced
      obtain ⟨between, hbetween, hadjacent⟩ := hplaced
      refine ⟨listNodes between, fun n hn => ?_, hadjacent.append_right _⟩
      obtain ⟨q, hq, rfl⟩ := List.mem_map.mp hn
      exact ⟨q.1, rfl, hbetween q hq⟩
  | none =>
      rw [hfind] at hplaced
      have hsorted := hsorted.sublist (hsublist.map Prod.fst)
      obtain ⟨earlier, later, hsplit⟩ := List.append_of_mem hplaced
      rw [hsplit, List.map_append, List.map_cons, List.pairwise_append, List.pairwise_cons] at hsorted
      refine ⟨listNodes later, fun n hn => ?_, ?_⟩
      · obtain ⟨q, hq, rfl⟩ := List.mem_map.mp hn
        exact ⟨q.1, rfl, hsorted.2.1.1 _ (List.mem_map_of_mem hq)⟩
      · rw [hsplit, listNodes_append, ← List.append_assoc]
        exact List.suffix_append _ _

/-- Where chapters are numbered one after the other, a list that is in its place stands before the next chapter. -/
theorem IsInPlace.isBeforeNext {l : List Node} {k : UInt32} {list : Node} (h : IsInPlace l k list)
    (hchain : (0 :: chapters l).IsChain fun k j => j = k + 1)
    (hkeys : ∀ n ∈ l, ∀ k', n.kind = .footnoteList k' → k' = 0 ∨ k' ∈ chapters l) :
    IsBeforeNext (chapters l) l k list := by
  have hfirst : (chapters l).find? (fun j => k < j) = ((preorder l).find? (isBeyond k)).bind Node.chapterNumber? :=
    List.find?_filterMap
  unfold IsInPlace at h
  unfold IsBeforeNext
  cases hfind : (preorder l).find? (isBeyond k) with
  | some c =>
      rw [hfind] at h hfirst
      obtain ⟨between, hbetween, hadjacent⟩ := h
      obtain ⟨j, hj, -⟩ := isBeyond_iff.mp (List.find?_some hfind)
      rw [Option.bind_some, hj] at hfirst
      have hnext : j.toNat = k.toNat + 1 := toNat_eq_of_find?_chain hchain UInt32.zero_le hfirst
      have hnil : between = [] := by
        refine List.eq_nil_iff_forall_not_mem.mpr fun n hn => ?_
        obtain ⟨k', -, hlt, hbeyond⟩ := hbetween n hn
        obtain ⟨j', hj', hlt'⟩ := isBeyond_iff.mp hbeyond
        obtain rfl : j = j' := Option.some.inj (hj.symm.trans hj')
        rw [UInt32.lt_iff_toNat_lt] at hlt hlt'
        omega
      rw [if_pos (hnext ▸ List.mem_map_of_mem (List.mem_of_find?_eq_some hfirst))]
      subst hnil
      exact ⟨c, by rw [hj, Option.map_some, hnext], hadjacent⟩
  | none =>
      rw [hfind] at h hfirst
      obtain ⟨later, hlater, hsuffix⟩ := h
      have hnone : ∀ j ∈ chapters l, ¬k < j := by simpa using hfirst
      have hnil : later = [] := by
        refine List.eq_nil_iff_forall_not_mem.mpr fun n hn => ?_
        obtain ⟨k', hkind, hlt⟩ := hlater n hn
        rcases hkeys n (hsuffix.subset (List.mem_cons_of_mem _ hn)) k' hkind with rfl | hmem
        · exact UInt32.not_lt_zero hlt
        · exact hnone k' hmem hlt
      have hnext : k.toNat + 1 ∉ (chapters l).map UInt32.toNat := by
        intro hmem
        obtain ⟨j, hj, heq⟩ := List.mem_map.mp hmem
        apply hnone j hj
        rw [UInt32.lt_iff_toNat_lt, heq]
        exact Nat.lt_succ_self _
      obtain ⟨earlier, rfl⟩ := hsuffix
      rw [if_neg hnext, hnil, List.getLast?_append, List.getLast?_singleton]
      rfl

/-! What is filed -/

/-- Footnotes are filed under a chapter only if there are some, and they hold no numbered chapter. -/
structure IsFiled (notes : List (UInt32 × List Note)) : Prop where
  nonempty : ∀ p ∈ notes, p.2 ≠ []
  chapterless : Chapterless notes

section

variable {style : FootnoteStyle} {s : State}

theorem isFiled_insert {notes : Notes} (h : IsFiled notes.toList) (chapter : UInt32) {l : List Note} (hne : l ≠ [])
    (hl : ∀ note ∈ l, ∀ n ∈ preorder note.content, n.chapterNumber? = none) :
    IsFiled (notes.insert chapter l).toList := by
  constructor
  · intro p hp
    obtain rfl | hp := SortedMap.mem_insert hp
    · exact hne
    · exact h.nonempty p hp
  · intro p hp
    obtain rfl | hp := SortedMap.mem_insert hp
    · exact hl
    · exact h.chapterless p hp

theorem isFiled_add (hs : IsFiled s.notes.toList) (style : FootnoteStyle) :
    IsFiled (s.add style).2.notes.toList := by
  refine isFiled_insert hs _ (List.append_ne_nil_of_right_ne_nil _ (List.cons_ne_nil _ _)) fun note hnote => ?_
  rcases List.mem_append.mp hnote with hnote | hnote
  · obtain hnone | hmem := of_cases s.notes s.chapter
    · rw [hnone] at hnote
      exact absurd hnote List.not_mem_nil
    · exact hs.chapterless _ hmem note hnote
  · rw [List.mem_singleton.mp hnote]
    exact fun n hn => absurd hn List.not_mem_nil

theorem isFiled_fill (hs : IsFiled s.notes.toList) (index : Nat) {content : List Node}
    (hcontent : ∀ n ∈ preorder content, n.chapterNumber? = none) : IsFiled (s.fill index content).notes.toList := by
  unfold State.fill
  split
  · exact hs
  · rename_i notes hget
    have hmem := SortedMap.mem_of_get? hget
    refine isFiled_insert hs _ ?_ fun note hnote => ?_
    · rw [ne_eq, ← List.length_eq_zero_iff, List.length_modify, List.length_eq_zero_iff]
      exact hs.nonempty _ hmem
    · obtain hnew | hnote := content_of_mem_modify hnote
      · rwa [hnew]
      · exact hs.chapterless _ hmem note hnote

/-- No chapter is filed where no chapter is nested in a footnote. -/
theorem isFiled_nodes {l : List Node} (hl : Clean l) (hs : IsFiled s.notes.toList) :
    IsFiled (nodes style s l).2.notes.toList := by
  induction l using Forest.induction generalizing s with
  | nil => exact hs
  | cons n rest ihChildren ihRest =>
      have hchildren : Clean n.children := hl.of_subset fun m hm => by simp [hm]
      have hrest : Clean rest := hl.of_subset fun m hm => by simp [hm]
      rw [nodes_cons]
      apply ihRest hrest
      cases hn : isFootnote n with
      | true =>
          rw [nodes_singleton_pos s hn]
          apply isFiled_fill (ihChildren hchildren (isFiled_add hs style))
          have hchapters := hl.chapters n (mem_preorder_of_mem List.mem_cons_self) hn
          exact forall_preorder_collected (P := fun n => n.chapterNumber? = none) rfl (fun _ _ => rfl)
            (fun _ _ hn => hn) hchapters _
      | false =>
          rw [nodes_singleton_neg s hn]
          exact ihChildren hchildren (s := { s with chapter := n.chapterNumber?.getD s.chapter }) hs

end

/-- The chapters that footnotes are filed under are those that the footnotes of the document belong to. -/
theorem Collected.mem_keys_iff {style : FootnoteStyle} {l marked : List Node} {marks : List Mark} {new : List Note}
    {r : List Node × State} (h : Collected style ⟨0, .empty⟩ l marks marked new r)
    (hfiled : IsFiled r.2.notes.toList) (k : UInt32) : k ∈ r.2.notes.keys ↔ k ∈ chapterKeys 0 (preorder l) := by
  have hkeys : k ∈ chapterKeys 0 (preorder l) ↔ ∃ note ∈ new, note.mark.chapter = k := by
    have hmarks : marks.map Mark.chapter = chapterKeys 0 (preorder l) := h.keys
    rw [← hmarks, ← h.newMarks, List.map_map, List.mem_map]
    rfl
  have hof : r.2.notes.of k = new.filter (·.mark.chapter = k) := h.filed k
  rw [hkeys]
  constructor
  · intro hk
    obtain ⟨⟨chapter, notes⟩, hp, rfl⟩ := List.mem_map.mp hk
    rw [of_eq_of_mem (h.sorted .nil) hp] at hof
    obtain ⟨note, hnote⟩ := List.exists_mem_of_ne_nil _ (hfiled.nonempty _ hp)
    rw [hof, List.mem_filter] at hnote
    exact ⟨note, hnote.1, of_decide_eq_true hnote.2⟩
  · rintro ⟨note, hnote, rfl⟩
    obtain hnone | hmem := of_cases r.2.notes note.mark.chapter
    · rw [hof, List.filter_eq_nil_iff] at hnone
      exact absurd (decide_eq_true rfl) (hnone note hnote)
    · exact List.mem_map_of_mem hmem

/-! What is left -/

theorem emptied_cons_pos {n : Node} (h : isFootnote n = true) (rest : List Node) :
    emptied (n :: rest) = { n with kind := .footnote none, children := [] } :: emptied rest := by
  obtain ⟨kind, a, number, children⟩ := n
  cases kind <;> first | rfl | cases h

theorem emptied_cons_neg {n : Node} (h : isFootnote n = false) (rest : List Node) :
    emptied (n :: rest) = { n with children := emptied n.children } :: emptied rest := by
  obtain ⟨kind, a, number, children⟩ := n
  cases kind <;> first | rfl | cases h

theorem emptied_withoutSpaces_cons {n : Node} (h : isFootnote n = true) (rest : List Node) :
    emptied (withoutSpaces (n :: rest)) =
      { n with kind := .footnote none, children := [] } :: emptied (withoutSpaces rest) := by
  obtain ⟨mark, hmark⟩ := exists_mark_of_isFootnote h
  rw [withoutSpaces, without_cons_neg (by rw [hmark]; rfl), emptied_cons_pos (by exact h)]
  rfl

theorem assign_footnote (marks : List Mark) {n : Node} (h : isFootnote n = true) :
    ∃ mark children, (n.assign marks).1 = { n with kind := .footnote mark, children } := by
  obtain ⟨kind, a, number, children⟩ := n
  cases kind with
  | footnote mark => exact ⟨_, _, rfl⟩
  | _ => cases h

theorem assign_other (marks : List Mark) {n : Node} (h : isFootnote n = false) :
    (n.assign marks).1 = { n with children := (assign marks n.children).1 } := by
  obtain ⟨kind, a, number, children⟩ := n
  cases kind with
  | footnote mark => cases h
  | _ => rfl

/-- The marks that footnotes have been given and what they hold make no difference without them. -/
theorem emptied_assign (marks : List Mark) (l : List Node) :
    emptied (withoutSpaces (hollow (assign marks l).1)) = emptied (withoutSpaces l) := by
  induction l using Forest.induction generalizing marks with
  | nil => rfl
  | cons n rest ihChildren ihRest =>
      have hcons : (assign marks (n :: rest)).1 = (n.assign marks).1 :: (assign (n.assign marks).2 rest).1 := rfl
      rw [hcons]
      cases hfootnote : isFootnote n with
      | true =>
          obtain ⟨mark, children, hfirst⟩ := assign_footnote marks hfootnote
          rw [hfirst, hollow_cons_pos rfl, emptied_withoutSpaces_cons rfl, ihRest, emptied_withoutSpaces_cons hfootnote]
      | false =>
          have hchildren := ihChildren marks
          rw [assign_other marks hfootnote, hollow_cons_neg (by exact hfootnote)]
          unfold withoutSpaces at hchildren ihRest ⊢
          cases hspace : decide (n.kind = .intersentenceSpace) with
          | true => rw [without_cons_pos (by exact hspace), without_cons_pos hspace, ihRest]
          | false =>
              rw [without_cons_neg (by exact hspace), without_cons_neg hspace, emptied_cons_neg (by exact hfootnote),
                emptied_cons_neg (by exact hfootnote), ihRest]
              simp only [hchildren]

/-- Where lists of footnotes hold no chapters, the chapters are those that are left without them. -/
theorem chapters_withoutLists {l : List Node}
    (h : ∀ n ∈ preorder l, isList n.kind = true → ∀ m ∈ preorder n.children, m.chapterNumber? = none) :
    chapters (withoutLists l) = chapters l := by
  unfold withoutLists
  induction l using Forest.induction with
  | nil => rfl
  | cons n rest ihChildren ihRest =>
      simp only [preorder_cons, List.forall_mem_cons, List.forall_mem_append] at h
      obtain ⟨hn, hchildren, hrest⟩ := h
      rw [chapters_cons]
      cases hlist : isList n.kind with
      | true =>
          have hnumber : n.chapterNumber? = none := Node.chapterNumber?_eq_none fun hkind => by
            simp [hkind, isList] at hlist
          rw [without_cons_pos hlist, ihRest hrest, hnumber, chapters_eq_nil (hn hlist)]
          rfl
      | false =>
          rw [without_cons_neg hlist, chapters_cons, ihChildren hchildren, ihRest hrest]
          rfl

/-- Where footnotes and inter-sentence spaces hold no chapters, the chapters are those that are left without what they
hold. -/
theorem chapters_emptied {l : List Node}
    (hfootnotes : ∀ n ∈ preorder l, isFootnote n = true → ∀ m ∈ preorder n.children, m.chapterNumber? = none)
    (hspaces : ∀ n ∈ preorder l, n.kind = .intersentenceSpace → ∀ m ∈ preorder n.children, m.chapterNumber? = none) :
    chapters (emptied (withoutSpaces l)) = chapters l := by
  unfold withoutSpaces
  induction l using Forest.induction with
  | nil => rfl
  | cons n rest ihChildren ihRest =>
      simp only [preorder_cons, List.forall_mem_cons, List.forall_mem_append] at hfootnotes hspaces
      obtain ⟨hn, hfchildren, hfrest⟩ := hfootnotes
      obtain ⟨hn', hschildren, hsrest⟩ := hspaces
      rw [chapters_cons]
      cases hspace : decide (n.kind = .intersentenceSpace) with
      | true =>
          have hkind := of_decide_eq_true hspace
          have hnumber : n.chapterNumber? = none := Node.chapterNumber?_eq_none (hkind ▸ nofun)
          rw [without_cons_pos hspace, ihRest hfrest hsrest, hnumber, chapters_eq_nil (hn' hkind)]
          rfl
      | false =>
          rw [without_cons_neg hspace]
          cases hfootnote : isFootnote n with
          | true =>
              rw [emptied_cons_pos (by exact hfootnote), chapters_cons, ihRest hfrest hsrest,
                chapterNumber?_of_isFootnote hfootnote, chapters_eq_nil (hn hfootnote)]
              rfl
          | false =>
              rw [emptied_cons_neg (by exact hfootnote), chapters_cons, ihRest hfrest hsrest,
                ihChildren hfchildren hschildren]
              rfl

/-! The whole document -/

/-- No numbered chapter stands in an inter-sentence space. -/
def NoSpacedChapters (l : List Node) : Prop :=
  ∀ n ∈ preorder l, n.kind = .intersentenceSpace → ∀ m ∈ preorder n.children, m.chapterNumber? = none

/-- The contents of the footnotes `before` have been moved to lists, which gives the nodes `after`: the lists stand at
the boundaries of chapters, and nothing else moves. -/
structure Bounded (before after : List Node) : Prop where
  /-- There is one list for each chapter that has footnotes. -/
  count : ∀ k, (listsIn after).countP (·.kind = .footnoteList k) =
    if k ∈ chapterKeys 0 (preorder before) then 1 else 0
  inPlace : ∀ list ∈ listsIn after, ∀ k, list.kind = .footnoteList k → IsInPlace after k list
  beforeNext : NoSpacedChapters before → ∀ list ∈ listsIn after, ∀ k, list.kind = .footnoteList k →
    IsBeforeNext (chapters before) after k list
  frame_eq : frame after = frame before

theorem frame_eq_of_distributed {style : FootnoteStyle} {before after marked : List Node} {count : Nat}
    {marks : List Mark} (h : Distributed style before after count marks marked)
    (hlists : ∀ n ∈ preorder before, isList n.kind = false) : frame after = frame before := by
  have hmarked : (assign marks before).1 = marked := congrArg Prod.fst h.assigned
  have hbefore : withoutLists before = before := without_eq_self hlists
  rw [frame, frame, h.left, ← hmarked, emptied_assign, hbefore]

theorem mem_of_mem_chapterKeys {k chapter : UInt32} {l : List Node} (h : k ∈ chapterKeys chapter l) :
    k = chapter ∨ k ∈ l.filterMap Node.chapterNumber? := by
  induction l generalizing chapter with
  | nil => cases h
  | cons n l ih =>
      rw [chapterKeys] at h
      have hlater : k = n.chapterNumber?.getD chapter ∨ k ∈ l.filterMap Node.chapterNumber? := by
        split at h
        · rcases List.mem_cons.mp h with hk | hk
          · exact .inl hk
          · exact ih hk
        · exact ih h
      cases hchapter : n.chapterNumber? with
      | none => simpa [hchapter] using hlater
      | some j =>
          rw [hchapter] at hlater
          rw [List.filterMap_cons, hchapter]
          exact .inr (List.mem_cons.mpr hlater)

/-- Collecting footnotes puts no chapters in inter-sentence spaces. -/
theorem NoSpacedChapters.collected {style : FootnoteStyle} {l : List Node} (h : NoSpacedChapters l) (s : State) :
    NoSpacedChapters (spaceSentences none (nodes style s l).1) := by
  have hempty : ∀ m ∈ preorder [], m.chapterNumber? = none := fun m hm => absurd hm List.not_mem_nil
  intro n hn
  rcases mem_preorder_spaceSentences none _ n hn with hn | rfl
  · refine forall_preorder_nodes
      (Q := fun n => n.kind = .intersentenceSpace → ∀ m ∈ preorder n.children, m.chapterNumber? = none)
      (fun _ => hempty) (fun _ _ _ => hempty) (fun n s hn _ hkind => ?_) h s n hn
    exact forall_preorder_collected (P := fun m => m.chapterNumber? = none) rfl (fun _ _ => rfl) (fun _ _ hm => hm)
      (hn hkind) s
  · exact fun _ => hempty

/-- The lists of the `notes` have been put among the nodes `body`, each in its place, which gives the nodes `after`. -/
structure Listed (notes : List (UInt32 × List Note)) (body after : List Node) : Prop where
  lists : (listsIn after).Perm (listNodes notes)
  body_eq : withoutLists after = body
  inPlace : ∀ p ∈ notes, IsInPlace after p.1 (listNode p.1 p.2)

theorem countP_listNodes {notes : List (UInt32 × List Note)} (hkeys : (notes.map Prod.fst).Nodup) (k : UInt32) :
    (listNodes notes).countP (·.kind = .footnoteList k) = if k ∈ notes.map Prod.fst then 1 else 0 := by
  rw [← hkeys.count, List.count, List.countP_map, listNodes, List.countP_map]
  refine List.countP_congr fun p _ => ?_
  simp [listNode, Node.new]

namespace Listed

variable {notes : List (UInt32 × List Note)} {body after : List Node}

theorem exists_of_mem (h : Listed notes body after) {list : Node} (hlist : list ∈ listsIn after) :
    ∃ p ∈ notes, listNode p.1 p.2 = list :=
  List.mem_map.mp (h.lists.mem_iff.mp hlist)

theorem isInPlace (h : Listed notes body after) {list : Node} (hlist : list ∈ listsIn after) {k : UInt32}
    (hkind : list.kind = .footnoteList k) : IsInPlace after k list := by
  obtain ⟨p, hp, rfl⟩ := h.exists_of_mem hlist
  obtain rfl := Kind.footnoteList.inj hkind
  exact h.inPlace p hp

theorem countP_listsIn (h : Listed notes body after) (hkeys : (notes.map Prod.fst).Nodup) (k : UInt32) :
    (listsIn after).countP (·.kind = .footnoteList k) = if k ∈ notes.map Prod.fst then 1 else 0 := by
  rw [h.lists.countP_eq, countP_listNodes hkeys]

/-- Lists bring no chapters with them. -/
theorem chapters_eq (h : Listed notes body after) (hnotes : Chapterless notes) : chapters after = chapters body := by
  rw [← h.body_eq, chapters_withoutLists]
  intro n hn hlist m hm
  obtain ⟨p, hp, rfl⟩ := h.exists_of_mem (List.mem_filter.mpr ⟨hn, hlist⟩)
  apply chapterNumber?_of_mem_listNodes hnotes
  exact mem_preorder_of_inside (mem_preorder_of_mem (List.mem_map_of_mem hp)) hm

end Listed

/-- Placing footnotes that have been filed by chapter puts each list in its place. -/
theorem listed_place {notes : List (UInt32 × List Note)} {marks : List Mark} {l : List Node}
    (hsorted : (notes.map Prod.fst).Pairwise (· < ·)) (hnotes : SettledNotes marks notes)
    (hchapterless : Chapterless notes) (hl : ∀ n ∈ preorder l, Settled marks n) :
    Listed notes l ((place notes l).1 ++ listNodes (place notes l).2) where
  lists := (placed_place hnotes hl).perm_listsIn hnotes
  body_eq := (placed_place hnotes hl).withoutLists_eq
  inPlace _ hp := isInPlace_place hsorted hchapterless (fun n hn hfootnote => ((hl n hn).footnote hfootnote).1) hp

theorem mem_listsIn_of_mem {l : List Node} {n : Node} (hn : n ∈ l) {k : UInt32} (hkind : n.kind = .footnoteList k) :
    n ∈ listsIn l := by
  refine List.mem_filter.mpr ⟨mem_preorder_of_mem hn, ?_⟩
  rw [hkind]
  rfl

/-- Where chapters are numbered one after the other, placing the footnotes of a document puts their lists at the
boundaries of the chapters. -/
theorem bounded {d : Document} (hd : Clean d.children)
    (hchain : (0 :: chapters d.children).IsChain fun k j => j = k + 1) (style : FootnoteStyle) :
    Bounded d.children (d.placeFootnotes style).1.children := by
  obtain ⟨_, _, hdistributed⟩ := exists_distributed hd style
  have hframe := frame_eq_of_distributed hdistributed hd.lists
  obtain ⟨marks, marked, new, h⟩ := @collected_nodes style d.children hd ⟨0, .empty⟩
  have hfiled : IsFiled (nodes style ⟨0, .empty⟩ d.children).2.notes.toList := isFiled_nodes hd ⟨nofun, nofun⟩
  have hspaces (h : NoSpacedChapters d.children) :
      NoSpacedChapters (spaceSentences none (nodes style ⟨0, .empty⟩ d.children).1) := h.collected _
  rw [Document.placeFootnotes] at hframe ⊢
  generalize nodes style ⟨0, .empty⟩ d.children = r at h hfiled hspaces hframe ⊢
  obtain ⟨children, s⟩ := r
  have hsorted : s.notes.keys.Pairwise (· < ·) := h.sorted .nil
  have hsettled := settled_spaceSentences h.settled none
  have hlisted := listed_place hsorted h.settledNotes hfiled.chapterless hsettled
  simp only at hframe hlisted ⊢
  generalize _ ++ listNodes (place s.notes.toList (spaceSentences none children)).2 = after at hframe hlisted ⊢
  have hcount : ∀ k, (listsIn after).countP (·.kind = .footnoteList k) =
      if k ∈ chapterKeys 0 (preorder d.children) then 1 else 0 := by
    intro k
    rw [hlisted.countP_listsIn (SortedMap.nodup_keys hsorted)]
    exact if_congr (h.mem_keys_iff hfiled k) rfl rfl
  have hbody : emptied (withoutSpaces (spaceSentences none children)) = emptied (withoutSpaces d.children) := by
    have hbefore : withoutLists d.children = d.children := without_eq_self hd.lists
    rwa [frame, frame, hlisted.body_eq, hbefore] at hframe
  have hchapters (hspaced : NoSpacedChapters d.children) : chapters after = chapters d.children := by
    have hempty : ∀ n ∈ preorder (spaceSentences none children), isFootnote n = true →
        ∀ m ∈ preorder n.children, m.chapterNumber? = none := by
      intro n hn hfootnote m hm
      rw [((hsettled n hn).footnote hfootnote).1] at hm
      exact absurd hm List.not_mem_nil
    rw [hlisted.chapters_eq hfiled.chapterless, ← chapters_emptied hempty (hspaces hspaced), hbody,
      chapters_emptied hd.chapters hspaced]
  refine ⟨hcount, fun list hlist k hkind => hlisted.isInPlace hlist hkind, ?beforeNext, hframe⟩
  case beforeNext =>
    intro hspaced list hlist k hkind
    rw [← hchapters hspaced] at hchain ⊢
    refine (hlisted.isInPlace hlist hkind).isBeforeNext hchain fun n hn k' hkind' => ?_
    have hpos : 0 < (listsIn after).countP (·.kind = .footnoteList k') :=
      List.countP_pos_iff.mpr ⟨n, mem_listsIn_of_mem hn hkind', decide_eq_true hkind'⟩
    rw [hcount] at hpos
    split at hpos
    · rename_i hmem
      rw [hchapters hspaced]
      exact mem_of_mem_chapterKeys hmem
    · cases hpos

/-- In a parsed document that has been numbered, with no chapter in a footnote, placing the footnotes puts one list for
each chapter that has footnotes at the boundary of the chapter and moves nothing else. -/
theorem bounded_of_parse {t : Text} {d : Document} (hparse : Document.parse? t = some d)
    (hchapters : NoNestedChapters d.children) (cache : Cache) (isArticle : Bool) (style : FootnoteStyle) :
    Bounded (d.number cache isArticle).1.children
      ((d.number cache isArticle).1.placeFootnotes style).1.children :=
  bounded (clean_number hparse hchapters cache isArticle) (Document.isChain_chapters hparse cache isArticle) style

namespace MixedDepths

/-- A footnote before all chapters, one in a chapter inside main matter, and one in the chapter after that. -/
def source : Text :=
  "<document><p><footnote>a</footnote></p><mainmatter><chapter><p><footnote>b</footnote></p></chapter></mainmatter>" ++
    "<chapter><p><footnote>c</footnote></p></chapter></document>"

def parsed : Document := (Document.parse? source).get (by decide +kernel)

theorem parse_source : Document.parse? source = some parsed := (Option.some_get _).symm

def numbered : Document := (parsed.number (.empty "s") false).1

theorem checked : NoNestedChapters parsed.children ∧ chapterKeys 0 (preorder numbered.children) = [0, 1, 2] ∧
    chapters numbered.children = [1, 2] := by
  decide +kernel

/-- There are lists before the chapter inside main matter, before the next one and at the end. -/
theorem bounded_three_lists : chapterKeys 0 (preorder numbered.children) = [0, 1, 2] ∧
    chapters numbered.children = [1, 2] ∧
    Bounded numbered.children (numbered.placeFootnotes .numbered).1.children := by
  obtain ⟨hnested, hkeys, hchapters⟩ := checked
  refine ⟨hkeys, hchapters, ?_⟩
  unfold numbered
  exact bounded_of_parse parse_source hnested (.empty "s") false .numbered

end MixedDepths

namespace SpacedChapter

/-- A footnote with a chapter in the inter-sentence space that follows it, and another chapter. -/
def source : Text :=
  "<document><p><footnote>a</footnote><intersentencespace><chapter/></intersentencespace></p><chapter/></document>"

def parsed : Document := (Document.parse? source).get (by decide +kernel)

def numbered : Document := (parsed.number (.empty "s") false).1

def placed : List Node := (numbered.placeFootnotes .numbered).1.children

theorem checked : NoNestedChapters parsed.children ∧ chapters numbered.children = [1, 2] ∧ chapters placed = [2] ∧
    placed.map Node.kind = [.paragraph, .footnoteList 0, .heading .chapter] := by
  decide +kernel

/-- Chapter 1 goes with the inter-sentence space, and the list of the footnote stands before chapter 2 then. -/
theorem not_isBeforeNext : Document.parse? source = some parsed ∧ NoNestedChapters parsed.children ∧
    ∃ n ∈ placed, n.kind = .footnoteList 0 ∧ ¬IsBeforeNext (chapters numbered.children) placed 0 n ∧
      ¬IsBeforeNext (chapters placed) placed 0 n := by
  obtain ⟨hnested, hbefore, hafter, hkinds⟩ := checked
  obtain ⟨n, hn, hkind⟩ : ∃ n ∈ placed, n.kind = .footnoteList 0 := by
    rw [← List.mem_map, hkinds]
    decide
  refine ⟨(Option.some_get _).symm, hnested, n, hn, hkind, ?before, ?after⟩
  case before =>
    apply mt (IsBeforeNext.mem_chapters (by rw [hbefore]; decide))
    rw [hafter]
    decide
  case after =>
    apply mt (IsBeforeNext.getLast?_eq (by rw [hafter]; decide))
    intro hlast
    have hlastKind := congrArg List.getLast? hkinds
    rw [List.getLast?_map, hlast, Option.map_some, hkind] at hlastKind
    cases hlastKind

end SpacedChapter

end Footnotes

end Manuscript
