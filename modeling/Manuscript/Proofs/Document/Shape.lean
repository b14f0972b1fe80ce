import Manuscript.Document.OfXml
import Manuscript.Numbering
import Manuscript.Proofs.Document.Forest

/-!
The shape of a document: the kinds of its nodes and how they are nested.  Numbering keeps the shape, so that what the
kinds of the nodes say of a document says the same of the numbered document.

Main statements: numbering keeps the shape of a document (`shape_number`), and a document that has been parsed has no
lists of footnotes (`kind_ne_of_parse`).
-/

namespace Manuscript

/-- The kind without the text. -/
def Kind.shape : Kind → Kind
  | .text _ => .text []
  | kind => kind

mutual

/-- A node with nothing but the kinds in it. -/
def Node.shape : Node → Node
  | ⟨kind, _, _, children⟩ => .new kind.shape (Forest.shape children)

/-- Some nodes with nothing but the kinds in them. -/
def Forest.shape : List Node → List Node
  | [] => []
  | n :: rest => n.shape :: Forest.shape rest

end

theorem Node.kind_shape (n : Node) : n.shape.kind = n.kind.shape := by
  cases n
  rfl

theorem Node.children_shape (n : Node) : n.shape.children = Forest.shape n.children := by
  cases n
  rfl

theorem Kind.eq_of_shape_eq {kind kind' : Kind} (h : kind.shape = kind'.shape) (htext : ∀ t, kind ≠ .text t) :
    kind' = kind := by
  cases kind' with
  | text t =>
      cases kind with
      | text t' => exact absurd rfl (htext t')
      | _ => cases h
  | _ => cases kind <;> first | exact h.symm | cases h

theorem Node.kind_eq_of_shape_eq {n n' : Node} {kind : Kind} (h : n.shape = n'.shape) (htext : ∀ t, kind ≠ .text t)
    (hkind : n'.kind = kind) : n.kind = kind := by
  subst hkind
  exact Kind.eq_of_shape_eq (by rw [← Node.kind_shape, ← h, Node.kind_shape]) htext

theorem Node.children_eq_of_shape_eq {n n' : Node} (h : n.shape = n'.shape) :
    Forest.shape n'.children = Forest.shape n.children := by
  rw [← Node.children_shape, ← h, Node.children_shape]

namespace Forest

theorem shape_eq_map (l : List Node) : shape l = l.map Node.shape := by
  induction l with
  | nil => rfl
  | cons n l ih => rw [shape, ih, List.map_cons]

theorem preorder_shape (l : List Node) : preorder (shape l) = (preorder l).map Node.shape := by
  induction l using Forest.induction with
  | nil => rfl
  | cons n rest ihChildren ihRest =>
      rw [shape, preorder_cons, preorder_cons, Node.children_shape, ihChildren, ihRest, List.map_cons,
        List.map_append]

/-- In documents of one shape, each node of one has a node of its shape in the other. -/
theorem exists_shape_eq_of_mem {l l' : List Node} (h : shape l' = shape l) {n' : Node} (hn : n' ∈ preorder l') :
    ∃ n ∈ preorder l, n.shape = n'.shape := by
  have hmem : n'.shape ∈ preorder (shape l) := by
    rw [← h, preorder_shape]
    exact List.mem_map_of_mem hn
  rw [preorder_shape] at hmem
  exact List.mem_map.mp hmem

end Forest

namespace Numbering

open Forest

theorem shape_node (cache : Cache) (equations : Nat) (s : State) {n : Node}
    (h : ∀ equations s, shape (nodes cache equations s n.children).1 = shape n.children) :
    (node cache equations s n).1.shape = n.shape := by
  obtain ⟨kind, a, number, children⟩ := n
  simp only [node, Node.shape, h]
  cases kind <;> rfl

/-- Numbering keeps the shape of some nodes. -/
theorem shape_nodes (cache : Cache) (equations : Nat) (s : State) (l : List Node) :
    shape (nodes cache equations s l).1 = shape l := by
  induction l using Forest.induction generalizing equations s with
  | nil => rfl
  | cons n rest ihChildren ihRest => simp only [nodes, shape, shape_node cache equations s ihChildren, ihRest]

end Numbering

namespace Document

open Forest

/-- Numbering keeps the shape of a document. -/
theorem shape_number (d : Document) (cache : Cache) (isArticle : Bool) :
    shape (d.number cache isArticle).1.children = shape d.children :=
  Numbering.shape_nodes cache 0 (.start isArticle) d.children

/-- The kinds that elements stand for: references that are not resolved, links, graphics, those of the table and
spans. -/
theorem kindOf_cases {Q : Kind → Prop} (href : ∀ label style, Q (.ref label style none none))
    (hlink : ∀ href, Q (.link href)) (hgraphic : ∀ source, Q (.graphic source)) (htable : ∀ row ∈ kindTable, Q row.1)
    (hspan : Q .span) (name : Text) (attributes : List (Text × Text)) (text : Text) :
    Q (kindOf name attributes text) := by
  unfold kindOf
  split_ifs
  · exact href _ _
  · exact href _ _
  · exact hlink _
  · exact hgraphic _
  · cases hfind : kindTable.find? fun row => name ∈ row.2 with
    | none => exact hspan
    | some row => exact htable row (List.mem_of_find?_eq_some hfind)

/-- No element stands for a list of footnotes. -/
theorem kindOf_ne_footnoteList (name : Text) (attributes : List (Text × Text)) (text : Text) (chapter : UInt32) :
    kindOf name attributes text ≠ .footnoteList chapter := by
  apply kindOf_cases (Q := (· ≠ .footnoteList chapter))
  case htable => simp [kindTable]
  all_goals exact nofun

/-- No element stands for a text. -/
theorem kindOf_ne_text (name : Text) (attributes : List (Text × Text)) (text t : Text) :
    kindOf name attributes text ≠ .text t := by
  apply kindOf_cases (Q := (· ≠ .text t))
  case htable => simp [kindTable]
  all_goals exact nofun

theorem nodesOfXml_cons (isBlock : Bool) (child : Xml) (rest : List Xml) :
    nodesOfXml isBlock (child :: rest) = nodesOfXml isBlock rest ∨
      nodesOfXml isBlock (child :: rest) = nodeOfXml child :: nodesOfXml isBlock rest :=
  ite_eq_or_eq _ _ _

section

variable {P : Node → Prop}

mutual

theorem forall_preorder_nodeOfXml (htext : ∀ t, P (.new (.text t) []))
    (helement : ∀ name attributes children, P (nodeOfXml (.element name attributes children))) (x : Xml) :
    ∀ n ∈ (nodeOfXml x).preorder, P n := by
  match x with
  | .text t =>
      intro n hn
      obtain rfl := List.mem_singleton.mp hn
      exact htext t
  | .element name attributes children =>
      intro n hn
      have hroot := helement name attributes children
      rw [nodeOfXml] at hn hroot
      rw [Node.preorder] at hn
      rcases List.mem_cons.mp hn with rfl | hn
      · exact hroot
      · split at hn
        · cases hn
        · exact forall_preorder_nodesOfXml htext helement (name ∈ blockContainers) children n hn

theorem forall_preorder_nodesOfXml (htext : ∀ t, P (.new (.text t) []))
    (helement : ∀ name attributes children, P (nodeOfXml (.element name attributes children))) (isBlock : Bool)
    (l : List Xml) : ∀ n ∈ preorder (nodesOfXml isBlock l), P n := by
  match l with
  | [] => exact nofun
  | child :: rest =>
      intro n hn
      rcases nodesOfXml_cons isBlock child rest with hcons | hcons
      · rw [hcons] at hn
        exact forall_preorder_nodesOfXml htext helement isBlock rest n hn
      · rw [hcons, preorder] at hn
        rcases List.mem_append.mp hn with hn | hn
        · exact forall_preorder_nodeOfXml htext helement child n hn
        · exact forall_preorder_nodesOfXml htext helement isBlock rest n hn

end

/-- What is true of the nodes that texts and elements stand for is true of all nodes of a parsed document. -/
theorem forall_preorder_of_parse (htext : ∀ t, P (.new (.text t) []))
    (helement : ∀ name attributes children, P (nodeOfXml (.element name attributes children))) {t : Text}
    {d : Document} (h : parse? t = some d) : ∀ n ∈ preorder d.children, P n := by
  obtain ⟨x, -, rfl⟩ := Option.map_eq_some_iff.mp h
  have hnode : ∀ n ∈ preorder [nodeOfXml x], P n := by
    intro n hn
    rw [preorder, preorder, List.append_nil] at hn
    exact forall_preorder_nodeOfXml htext helement x n hn
  unfold ofXml
  split
  · exact hnode
  · split_ifs
    · exact forall_preorder_nodesOfXml htext helement true _
    · exact hnode

end

/-- Lists of footnotes are made later. -/
theorem kind_ne_of_parse {t : Text} {d : Document} (h : parse? t = some d) (chapter : UInt32) :
    ∀ n ∈ preorder d.children, n.kind ≠ .footnoteList chapter := by
  refine forall_preorder_of_parse (fun _ => nofun) (fun name attributes children => ?_) h
  rw [nodeOfXml]
  exact kindOf_ne_footnoteList name attributes _ chapter

end Document

end Manuscript
