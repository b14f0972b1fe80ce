import Manuscript.Proofs.Footnotes.Parsed

/-!
Chapters that stand where blocks do.

Main statement: they still do when footnotes have been collected (`BlockChapters.nodes`).
-/

namespace Manuscript.Footnotes

open Forest

/-- The kinds of nodes in which blocks stand. -/
def holdsBlocks : Kind → Bool
  | .document | .frontmatter | .mainmatter | .heading _ | .float _ | .list _ | .item => true
  | _ => false

/-- Chapters stand in the node as blocks, if at all: not in a footnote or within a line, and in a list only inside its
items. -/
structure HoldsChapters (n : Node) : Prop where
  inside : holdsBlocks n.kind = false → ∀ m ∈ preorder n.children, m.kind ≠ .heading .chapter
  inList : ∀ isOrdered, n.kind = .list isOrdered → ∀ m ∈ n.children, m.kind ≠ .heading .chapter

instance (n : Node) : Decidable (HoldsChapters n) :=
  decidable_of_iff ((holdsBlocks n.kind = false → ∀ m ∈ preorder n.children, m.kind ≠ .heading .chapter) ∧
    ∀ isOrdered, n.kind = .list isOrdered → ∀ m ∈ n.children, m.kind ≠ .heading .chapter)
    ⟨fun h => ⟨h.1, h.2⟩, fun h => ⟨h.1, h.2⟩⟩

/-- All chapters stand in blocks. -/
def BlockChapters (l : List Node) : Prop := ∀ n ∈ preorder l, HoldsChapters n

instance (l : List Node) : Decidable (BlockChapters l) :=
  inferInstanceAs (Decidable (∀ n ∈ preorder l, HoldsChapters n))

theorem BlockChapters.noNestedChapters {l : List Node} (h : BlockChapters l) : NoNestedChapters l := by
  intro f hf hfootnote
  refine (h f hf).inside ?_
  obtain ⟨mark, hmark⟩ := exists_mark_of_isFootnote hfootnote
  rw [hmark]
  rfl

theorem holdsBlocks_shape (kind : Kind) : holdsBlocks kind.shape = holdsBlocks kind := by
  cases kind <;> rfl

/-- Where chapters stand is the same in documents of one shape. -/
theorem BlockChapters.of_shape {l l' : List Node} (h : BlockChapters l) (hshape : shape l' = shape l) :
    BlockChapters l' := by
  intro n' hn'
  obtain ⟨n, hn, heq⟩ := exists_shape_eq_of_mem hshape hn'
  have hchildren := Node.children_eq_of_shape_eq heq
  constructor
  · intro hholds m' hm' hm
    obtain ⟨m, hmem, heqm⟩ := exists_shape_eq_of_mem hchildren hm'
    refine (h n hn).inside ?_ m hmem (Node.kind_eq_of_shape_eq heqm (by simp) hm)
    rw [← holdsBlocks_shape, ← Node.kind_shape, heq, Node.kind_shape, holdsBlocks_shape, hholds]
  · intro isOrdered hlist m' hm' hm
    have hmem : m'.shape ∈ n.children.map Node.shape := by
      rw [← shape_eq_map, ← hchildren, shape_eq_map]
      exact List.mem_map_of_mem hm'
    obtain ⟨m, hmem, heqm⟩ := List.mem_map.mp hmem
    exact (h n hn).inList isOrdered (Node.kind_eq_of_shape_eq heq (by simp) hlist) m hmem
      (Node.kind_eq_of_shape_eq heqm (by simp) hm)

section

variable {style : FootnoteStyle}

/-- What is true of the nodes of a document is true of them once footnotes are collected, if it is true of footnotes
that have been emptied, of the spaces between sentences and of nodes that hold what is collected inside them. -/
theorem forall_preorder_nodes {P Q : Node → Prop} (hspace : Q spaceMark)
    (hfootnote : ∀ (n : Node) (mark : Mark), Q { n with kind := .footnote (some mark), children := [] })
    (hinside : ∀ (n : Node) (s : State), P n → isFootnote n = false →
      Q { n with children := spaceSentences none (nodes style s n.children).1 })
    {l : List Node} (hl : ∀ n ∈ preorder l, P n) (s : State) : ∀ n ∈ preorder (nodes style s l).1, Q n := by
  induction l using Forest.induction generalizing s with
  | nil => exact fun n hn => absurd hn List.not_mem_nil
  | cons n rest ihChildren ihRest =>
      simp only [preorder_cons, List.forall_mem_cons, List.forall_mem_append] at hl
      obtain ⟨hn, hchildren, hrest⟩ := hl
      rw [nodes_cons, preorder_append, List.forall_mem_append]
      refine ⟨?_, ihRest hrest _⟩
      cases hkind : isFootnote n with
      | true =>
          rw [nodes_singleton_pos s hkind, preorder_cons, preorder_nil, List.append_nil]
          exact List.forall_mem_singleton.mpr (hfootnote n _)
      | false =>
          rw [nodes_singleton_neg s hkind, preorder_cons, preorder_nil, List.append_nil, List.forall_mem_cons]
          refine ⟨hinside n _ hn hkind, fun m hm => ?_⟩
          rcases mem_preorder_spaceSentences none _ m hm with hm | rfl
          · exact ihChildren hchildren _ m hm
          · exact hspace

/-- What does not depend on what is inside a node, and is true of footnotes and of the spaces between sentences, stays
true of all nodes. -/
theorem forall_preorder_collected {P : Node → Prop} (hspace : P spaceMark)
    (hfootnote : ∀ (n : Node) (mark : Mark), P { n with kind := .footnote (some mark), children := [] })
    (hinside : ∀ (n : Node) (children : List Node), P n → P { n with children }) {l : List Node}
    (hl : ∀ n ∈ preorder l, P n) (s : State) : ∀ n ∈ preorder (spaceSentences none (nodes style s l).1), P n := by
  intro n hn
  rcases mem_preorder_spaceSentences none _ n hn with hn | rfl
  · exact forall_preorder_nodes hspace hfootnote (fun n _ hn _ => hinside n _ hn) hl s n hn
  · exact hspace

/-- No chapters are put in where footnotes are collected. -/
theorem chapterless_nodes {l : List Node} (h : ∀ m ∈ preorder l, m.kind ≠ .heading .chapter) (s : State) :
    ∀ m ∈ preorder (spaceSentences none (nodes style s l).1), m.kind ≠ .heading .chapter :=
  forall_preorder_collected (P := fun m => m.kind ≠ .heading .chapter) nofun (fun _ _ => nofun) (fun _ _ hn => hn) h s

theorem mem_spaceSentences (before : Option Node) (l : List Node) :
    ∀ n ∈ spaceSentences before l, n ∈ l ∨ n = spaceMark := by
  fun_induction spaceSentences before l <;> grind

/-- No chapters are put in among some nodes where footnotes are collected. -/
theorem kind_ne_of_mem_nodes {l : List Node} (h : ∀ m ∈ l, m.kind ≠ .heading .chapter) (s : State) :
    ∀ m ∈ (nodes style s l).1, m.kind ≠ .heading .chapter := by
  induction l generalizing s with
  | nil => exact fun m hm => absurd hm List.not_mem_nil
  | cons n l ih =>
      obtain ⟨hn, hl⟩ := List.forall_mem_cons.mp h
      rw [nodes_cons, List.forall_mem_append]
      refine ⟨?_, ih hl _⟩
      cases hkind : isFootnote n with
      | true =>
          rw [nodes_singleton_pos s hkind]
          exact List.forall_mem_singleton.mpr nofun
      | false =>
          rw [nodes_singleton_neg s hkind]
          exact List.forall_mem_singleton.mpr hn

/-- Chapters still stand in blocks once footnotes are collected. -/
theorem BlockChapters.nodes {l : List Node} (h : BlockChapters l) (s : State) :
    BlockChapters (spaceSentences none (Footnotes.nodes style s l).1) := by
  have hempty : ∀ {kind : Kind} {a : Attrs} {number : Option Text}, HoldsChapters ⟨kind, a, number, []⟩ :=
    ⟨fun _ m hm => absurd hm List.not_mem_nil, fun _ _ m hm => absurd hm List.not_mem_nil⟩
  intro n hn
  rcases mem_preorder_spaceSentences none _ n hn with hn | rfl
  · refine forall_preorder_nodes hempty (fun _ _ => hempty) (fun n s hn _ => ?_) h s n hn
    refine ⟨fun hholds => chapterless_nodes (hn.inside hholds) s, fun isOrdered hkind m hm => ?_⟩
    rcases mem_spaceSentences none _ m hm with hm | rfl
    · exact kind_ne_of_mem_nodes (hn.inList isOrdered hkind) s m hm
    · exact nofun
  · exact hempty

end

end Manuscript.Footnotes
