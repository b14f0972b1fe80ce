import Mathlib.Data.List.Basic
import Manuscript.Footnotes

/-!
Lists of nodes with all that is inside them: the nodes in the order of the document, and what is left of the lists
when some nodes are taken out or footnotes lose their contents.
-/

namespace Manuscript

mutual

/-- A node and all nodes inside it, in the order of the document. -/
def Node.preorder : Node → List Node
  | ⟨kind, a, number, children⟩ => ⟨kind, a, number, children⟩ :: Forest.preorder children

/-- Some nodes and all nodes inside them, in the order of the document. -/
def Forest.preorder : List Node → List Node
  | [] => []
  | n :: rest => n.preorder ++ Forest.preorder rest

end

mutual

/-- A node without the nodes of a kind inside it. -/
def Node.without (p : Kind → Bool) : Node → Node
  | ⟨kind, a, number, children⟩ => ⟨kind, a, number, Forest.without p children⟩

/-- What is left of some nodes without the nodes of a kind among them and inside them. -/
def Forest.without (p : Kind → Bool) : List Node → List Node
  | [] => []
  | n :: rest => if p n.kind then Forest.without p rest else n.without p :: Forest.without p rest

end

mutual

/-- A node in which footnotes have no contents. -/
def Node.hollow : Node → Node
  | ⟨kind, a, number, children⟩ =>
    match kind with
    | .footnote mark => ⟨.footnote mark, a, number, []⟩
    | kind => ⟨kind, a, number, Forest.hollow children⟩

/-- Some nodes in which footnotes have no contents. -/
def Forest.hollow : List Node → List Node
  | [] => []
  | n :: rest => n.hollow :: Forest.hollow rest

end

mutual

/-- A node whose footnotes have been given marks in the order of the document, and the marks that are left. -/
def Node.assign (marks : List Mark) : Node → Node × List Mark
  | ⟨kind, a, number, children⟩ =>
    match kind with
    | .footnote _ =>
      let (content, left) := Forest.assign marks.tail children
      (⟨.footnote marks.head?, a, number, content⟩, left)
    | kind =>
      let (children, left) := Forest.assign marks children
      (⟨kind, a, number, children⟩, left)

/-- Some nodes whose footnotes have been given marks in the order of the document, and the marks that are left. -/
def Forest.assign (marks : List Mark) : List Node → List Node × List Mark
  | [] => ([], marks)
  | n :: rest =>
    let (n, marks) := n.assign marks
    let (rest, marks) := Forest.assign marks rest
    (n :: rest, marks)

end

theorem Attrs.mem_classes_addClass (a : Attrs) (c : Text) : c ∈ (a.addClass c).classes := by
  unfold addClass
  split
  · assumption
  · exact List.mem_append_right _ (List.mem_singleton.mpr rfl)

theorem Node.chapterNumber?_eq_none {n : Node} (h : n.kind ≠ .heading .chapter) : n.chapterNumber? = none := by
  unfold Node.chapterNumber?
  split
  · rename_i hkind _
    exact absurd hkind h
  · rfl

theorem Node.chapterNumber?_of_number {n : Node} (h : n.number = none) : n.chapterNumber? = none := by
  unfold Node.chapterNumber?
  split
  · rename_i hnumber
    rw [h] at hnumber
    cases hnumber
  · rfl

namespace Forest

/-- What holds of a list of nodes if it holds of the contents of the first node and of the nodes after it. -/
theorem induction {motive : List Node → Prop} (nil : motive [])
    (cons : ∀ n rest, motive n.children → motive rest → motive (n :: rest)) (l : List Node) : motive l :=
  @Node.rec_1 (fun n => motive n.children) motive (fun _ _ _ _ h => h) nil cons l

@[simp] theorem preorder_nil : preorder [] = [] := rfl

@[simp] theorem preorder_cons (n : Node) (rest : List Node) :
    preorder (n :: rest) = n :: (preorder n.children ++ preorder rest) := by
  obtain ⟨kind, a, number, children⟩ := n
  rw [preorder, Node.preorder, List.cons_append]

@[simp] theorem preorder_append (l more : List Node) : preorder (l ++ more) = preorder l ++ preorder more := by
  induction l with
  | nil => rfl
  | cons n l ih => simp [ih]

theorem without_cons_pos {p : Kind → Bool} {n : Node} (h : p n.kind = true) (rest : List Node) :
    without p (n :: rest) = without p rest := by
  rw [without, if_pos h]

theorem without_cons_neg {p : Kind → Bool} {n : Node} (h : p n.kind = false) (rest : List Node) :
    without p (n :: rest) = { n with children := without p n.children } :: without p rest := by
  obtain ⟨kind, a, number, children⟩ := n
  rw [without, if_neg (Bool.not_eq_true _ ▸ h), Node.without]

@[simp] theorem without_append (p : Kind → Bool) (l more : List Node) :
    without p (l ++ more) = without p l ++ without p more := by
  induction l with
  | nil => rfl
  | cons n l ih =>
      cases h : p n.kind with
      | true => rw [List.cons_append, without_cons_pos h, without_cons_pos h, ih]
      | false => rw [List.cons_append, without_cons_neg h, without_cons_neg h, ih, List.cons_append]

/-- Where there are no nodes of a kind, nothing is taken out. -/
theorem without_eq_self {p : Kind → Bool} {l : List Node} (h : ∀ n ∈ preorder l, p n.kind = false) :
    without p l = l := by
  induction l using Forest.induction with
  | nil => rfl
  | cons n rest ihChildren ihRest =>
      simp only [preorder_cons, List.forall_mem_cons, List.forall_mem_append] at h
      rw [without_cons_neg h.1, ihChildren h.2.1, ihRest h.2.2]
      cases n
      rfl

/-- What is in a forest is one of its trees or inside one of them. -/
theorem mem_preorder_iff {n : Node} {l : List Node} :
    n ∈ preorder l ↔ ∃ m ∈ l, n = m ∨ n ∈ preorder m.children := by
  induction l with
  | nil => simp
  | cons first l ih => simp [ih, or_assoc]

theorem mem_preorder_of_mem {n : Node} {l : List Node} (h : n ∈ l) : n ∈ preorder l :=
  mem_preorder_iff.mpr ⟨n, h, Or.inl rfl⟩

/-- What is inside a node of a forest is in the forest. -/
theorem mem_preorder_of_inside {n m : Node} {l : List Node} (hn : n ∈ preorder l) (hm : m ∈ preorder n.children) :
    m ∈ preorder l := by
  induction l using Forest.induction with
  | nil => exact absurd hn List.not_mem_nil
  | cons first rest ihChildren ihRest =>
      rw [preorder_cons, List.mem_cons, List.mem_append] at hn ⊢
      obtain rfl | hn | hn := hn
      · exact .inr (.inl hm)
      · exact .inr (.inl (ihChildren hn))
      · exact .inr (.inr (ihRest hn))

theorem textsIn_children_subset {n : Node} {l : List Node} (h : n ∈ preorder l) :
    Node.textsIn n.children ⊆ Node.textsIn l := by
  induction l using Forest.induction with
  | nil => cases h
  | cons first rest ihChildren ihRest =>
      have hfirst : Node.textsIn first.children ⊆ Node.textsIn (first :: rest) := by
        obtain ⟨kind, a, number, children⟩ := first
        simp only [Node.textsIn, Node.texts]
        exact fun t ht => List.mem_append_left _ (List.mem_append_right _ ht)
      rw [preorder_cons, List.mem_cons, List.mem_append] at h
      obtain rfl | h | h := h
      · exact hfirst
      · exact fun t ht => hfirst (ihChildren h ht)
      · exact fun t ht => List.mem_append_right _ (ihRest h ht)

open Footnotes (isFootnote)

theorem exists_mark_of_isFootnote {n : Node} (h : isFootnote n = true) : ∃ mark, n.kind = .footnote mark := by
  obtain ⟨kind, a, number, children⟩ := n
  cases kind <;> first | exact ⟨_, rfl⟩ | cases h

theorem hollow_cons_pos {n : Node} (h : isFootnote n = true) (rest : List Node) :
    hollow (n :: rest) = { n with children := [] } :: hollow rest := by
  obtain ⟨kind, a, number, children⟩ := n
  cases kind <;> first | rfl | cases h

theorem hollow_cons_neg {n : Node} (h : isFootnote n = false) (rest : List Node) :
    hollow (n :: rest) = { n with children := hollow n.children } :: hollow rest := by
  obtain ⟨kind, a, number, children⟩ := n
  cases kind <;> first | rfl | cases h

@[simp] theorem hollow_append (l more : List Node) : hollow (l ++ more) = hollow l ++ hollow more := by
  induction l with
  | nil => rfl
  | cons n l ih => simp [hollow, ih]

theorem assign_cons_pos {n : Node} (h : isFootnote n = true) {marks left left' : List Mark} {mark : Mark}
    {content rest rest' : List Node} (hcontent : assign marks n.children = (content, left))
    (hrest : assign left rest = (rest', left')) :
    assign (mark :: marks) (n :: rest) =
      ({ n with kind := .footnote (some mark), children := content } :: rest', left') := by
  obtain ⟨kind, a, number, children⟩ := n
  cases kind with
  | footnote old => 
      simp only [assign, Node.assign, List.tail_cons, List.head?_cons]
      simp only at hcontent
      rw [hcontent]
      simp only [hrest]
  | _ => cases h

theorem assign_cons_neg {n : Node} (h : isFootnote n = false) {marks left left' : List Mark}
    {children rest rest' : List Node} (hchildren : assign marks n.children = (children, left))
    (hrest : assign left rest = (rest', left')) :
    assign marks (n :: rest) = ({ n with children } :: rest', left') := by
  obtain ⟨kind, a, number, old⟩ := n
  simp only at hchildren
  cases kind with
  | footnote mark => cases h
  | _ => simp only [assign, Node.assign, hchildren, hrest]

theorem assign_append {marks left left' : List Mark} {l l' marked marked' : List Node}
    (h : assign marks l = (marked, left)) (h' : assign left l' = (marked', left')) :
    assign marks (l ++ l') = (marked ++ marked', left') := by
  induction l generalizing marks marked with
  | nil =>
      obtain ⟨rfl, rfl⟩ := by simpa using h
      exact h'
  | cons n l ih =>
      simp only [assign] at h
      obtain ⟨rfl, hleft⟩ := by simpa using h
      have hrest := ih (Prod.ext rfl hleft)
      simp [assign, hrest]

end Forest

end Manuscript
