import Manuscript.Numbering
import Manuscript.Proofs.Document.Forest

/-!
Numbering as a walk over the places of a document.  Each place is visited with what the places before it have left,
and what it leaves is handed on to the places after it, inside the node and outside of it alike.

Main statement: a numbered document holds what the visits make of the places of the document (`number_eq_visits`).
-/

namespace Manuscript

/-- A node at its position in a document. -/
structure Position where
  node : Node
  /-- The kinds of the nodes around it, the innermost first. -/
  around : List Kind
  /-- Front matter is on there. -/
  isInFront : Bool

/-- Is front matter on inside a node, if it is or is not around the node? -/
def Kind.isFrontInside (isInFront : Bool) : Kind → Bool
  | .frontmatter => true
  | .mainmatter => false
  | _ => isInFront

mutual

/-- Is front matter on after a node?  It goes on to the end of its node, or to main matter inside of that. -/
def Node.isFrontAfter (isInFront : Bool) : Node → Bool
  | ⟨kind, _, _, children⟩ =>
    if kind = .frontmatter then isInFront else Forest.isFrontAfter (kind.isFrontInside isInFront) children

/-- Is front matter on after some nodes? -/
def Forest.isFrontAfter (isInFront : Bool) : List Node → Bool
  | [] => isInFront
  | n :: rest => Forest.isFrontAfter (n.isFrontAfter isInFront) rest

end

mutual

/-- The place of a node and the places inside it, in the order of the document. -/
def Node.positions (around : List Kind) (isInFront : Bool) : Node → List Position
  | ⟨kind, a, number, children⟩ =>
    ⟨⟨kind, a, number, children⟩, around, isInFront⟩ ::
      Forest.positions (kind :: around) (kind.isFrontInside isInFront) children

/-- The places of some nodes and inside them, in the order of the document. -/
def Forest.positions (around : List Kind) (isInFront : Bool) : List Node → List Position
  | [] => []
  | n :: rest => n.positions around isInFront ++ Forest.positions around (n.isFrontAfter isInFront) rest

end

/-- The places of a document, in order. -/
def Document.positions (d : Document) : List Position := Forest.positions [] false d.children

/-- What a node is inside a number of equations. -/
def Kind.stripped (cache : Cache) (equations : Nat) : Kind → Kind
  | .text t => .text (Numbering.stripped cache equations t)
  | kind => kind

/-- The node without what is inside it. -/
def Node.bare (n : Node) : Node := { n with children := [] }

namespace Forest

@[simp] theorem positions_nil (around : List Kind) (isInFront : Bool) : positions around isInFront [] = [] := rfl

theorem positions_cons (around : List Kind) (isInFront : Bool) (n : Node) (rest : List Node) :
    positions around isInFront (n :: rest) =
      ⟨n, around, isInFront⟩ ::
        (positions (n.kind :: around) (n.kind.isFrontInside isInFront) n.children ++
          positions around (n.isFrontAfter isInFront) rest) := by
  obtain ⟨kind, a, number, children⟩ := n
  rw [positions, Node.positions, List.cons_append]

/-- The nodes at the places of some nodes are the nodes in the order of the document. -/
theorem map_node_positions (around : List Kind) (isInFront : Bool) (l : List Node) :
    (positions around isInFront l).map Position.node = preorder l := by
  induction l using Forest.induction generalizing around isInFront with
  | nil => rfl
  | cons n rest ihChildren ihRest =>
      rw [positions_cons, List.map_cons, List.map_append, ihChildren, ihRest, preorder_cons]

/-- Front matter that holds no main matter is on exactly inside its node. -/
theorem isInFront_eq {around : List Kind} {isInFront : Bool} {l : List Node}
    (haround : isInFront = decide (.frontmatter ∈ around))
    (h : ∀ p ∈ positions around isInFront l, p.node.kind = .mainmatter → .frontmatter ∉ p.around) :
    isFrontAfter isInFront l = isInFront ∧
      ∀ p ∈ positions around isInFront l, p.isInFront = decide (.frontmatter ∈ p.around) := by
  induction l using Forest.induction generalizing around isInFront with
  | nil => exact ⟨rfl, by simp⟩
  | cons n rest ihChildren ihRest =>
      rw [positions_cons] at h
      obtain ⟨hnode, hlater⟩ := List.forall_mem_cons.mp h
      rw [List.forall_mem_append] at hlater
      have hinside : n.kind.isFrontInside isInFront = decide (.frontmatter ∈ n.kind :: around) := by
        cases hkind : n.kind with
        | frontmatter => simp [Kind.isFrontInside]
        | mainmatter => simpa [Kind.isFrontInside] using hnode hkind
        | _ => simp [Kind.isFrontInside, haround]
      obtain ⟨hchildren, hpositions⟩ := ihChildren hinside hlater.1
      have hafter : n.isFrontAfter isInFront = isInFront := by
        obtain ⟨kind, a, number, children⟩ := n
        rw [Node.isFrontAfter]
        split
        · rfl
        · rename_i hfront
          rw [hchildren, hinside, haround]
          simpa using fun heq : Kind.frontmatter = kind => absurd heq.symm hfront
      obtain ⟨hrest, hpositionsRest⟩ := ihRest (haround ▸ hafter) hlater.2
      refine ⟨by rw [isFrontAfter, hrest, hafter], ?_⟩
      rw [positions_cons]
      exact List.forall_mem_cons.mpr ⟨haround, List.forall_mem_append.mpr ⟨hpositions, hpositionsRest⟩⟩

end Forest

namespace Numbering

open Forest

/-- The state with front matter on or off. -/
def State.withFront (s : State) (isInFront : Bool) : State := { s with isInFront }

/-- What numbering makes of the node at a place, without what is inside it, and what is known after that. -/
def visit (cache : Cache) (s : State) (p : Position) : Node × State :=
  let equations := p.around.count (.float .equation)
  let (a, number, s) :=
    enter cache equations (s.withFront p.isInFront) p.node.kind p.node.attrs p.node.number p.node.children
  let kind :=
    match p.node.kind with
    | .text t => .text (stripped cache equations t)
    | kind => kind
  (⟨kind, a, number, []⟩, s)

/-- What numbering makes of the nodes at some places, one after the other. -/
def visits (cache : Cache) (s : State) : List Position → List Node × State
  | [] => ([], s)
  | p :: rest =>
    let (n, s) := visit cache s p
    let (ns, s) := visits cache s rest
    (n :: ns, s)

theorem visits_cons (cache : Cache) (s : State) (p : Position) (rest : List Position) :
    visits cache s (p :: rest) =
      ((visit cache s p).1 :: (visits cache (visit cache s p).2 rest).1, (visits cache (visit cache s p).2 rest).2) :=
  rfl

theorem visits_append (cache : Cache) (s : State) (ps qs : List Position) :
    visits cache s (ps ++ qs) =
      ((visits cache s ps).1 ++ (visits cache (visits cache s ps).2 qs).1,
        (visits cache (visits cache s ps).2 qs).2) := by
  induction ps generalizing s with
  | nil => rfl
  | cons p ps ih => rw [List.cons_append, visits_cons, ih, visits_cons, List.cons_append]

theorem length_visits (cache : Cache) (s : State) (ps : List Position) :
    (visits cache s ps).1.length = ps.length := by
  induction ps generalizing s with
  | nil => rfl
  | cons p ps ih => rw [visits_cons, List.length_cons, List.length_cons, ih]

theorem getElem?_visits (cache : Cache) (s : State) (ps : List Position) (i : Nat) :
    (visits cache s ps).1[i]? = ps[i]?.map fun p => (visit cache (visits cache s (ps.take i)).2 p).1 := by
  induction ps generalizing s i with
  | nil => rfl
  | cons p ps ih =>
      cases i with
      | zero => rfl
      | succ i => exact ih (visit cache s p).2 i

/-- What is known after a position. -/
theorem visits_take_succ (cache : Cache) (s : State) {ps : List Position} {i : Nat} {p : Position}
    (h : ps[i]? = some p) :
    (visits cache s (ps.take (i + 1))).2 = (visit cache (visits cache s (ps.take i)).2 p).2 := by
  rw [List.take_add_one, h, visits_append]
  rfl

/-- A place says whether front matter is on, so it does not matter what was known of that before. -/
theorem visit_withFront (cache : Cache) (s : State) (isInFront : Bool) (p : Position) :
    visit cache (s.withFront isInFront) p = visit cache s p :=
  rfl

theorem visits_withFront (cache : Cache) (s : State) (isInFront isInFront' : Bool) (ps : List Position) :
    (visits cache (s.withFront isInFront) ps).1 = (visits cache s ps).1 ∧
      (visits cache (s.withFront isInFront) ps).2.withFront isInFront' =
        (visits cache s ps).2.withFront isInFront' := by
  cases ps with
  | nil => exact ⟨rfl, rfl⟩
  | cons p ps =>
      rw [visits_cons, visits_cons, visit_withFront]
      exact ⟨rfl, rfl⟩

/-- Entering a label changes nothing but the labels and the warnings. -/
theorem register_eq (s : State) (label : Option Text) (target : LabelTarget) :
    ∃ labels warnings, s.register label target = { s with labels, warnings } := by
  unfold State.register
  split
  · exact ⟨_, _, rfl⟩
  · split <;> exact ⟨_, _, rfl⟩

theorem isInFront_register (s : State) (label : Option Text) (target : LabelTarget) :
    (s.register label target).isInFront = s.isInFront := by
  obtain ⟨labels, warnings, heq⟩ := register_eq s label target
  rw [heq]

theorem isInFront_heading (s : State) (level : Level) (a : Attrs) (title : Text) :
    (heading s level a title).2.2.isInFront = s.isInFront := by
  unfold heading
  split <;> exact isInFront_register _ _ _

theorem isInFront_float (s : State) (kind : FloatKind) (a : Attrs) :
    (float s kind a).2.2.isInFront = s.isInFront := by
  unfold float
  split
  · rfl
  · exact isInFront_register _ _ _

theorem isInFront_enter (cache : Cache) (equations : Nat) (s : State) (kind : Kind) (a : Attrs)
    (number : Option Text) (children : List Node) :
    (enter cache equations s kind a number children).2.2.isInFront = kind.isFrontInside s.isInFront := by
  cases kind with
  | heading level => exact isInFront_heading s level a _
  | float kind => exact isInFront_float s kind _
  | _ => rfl

theorem leave_eq (n : Node) (s inner : State) :
    leave n.kind s (inner.withFront (isFrontAfter (n.kind.isFrontInside s.isInFront) n.children)) =
      inner.withFront (n.isFrontAfter s.isInFront) := by
  obtain ⟨kind, a, number, children⟩ := n
  cases kind <;> rfl

theorem node_mk (cache : Cache) (equations : Nat) (s : State) (kind : Kind) (a : Attrs) (number : Option Text)
    (children : List Node) :
    node cache equations s ⟨kind, a, number, children⟩ =
      let entered := enter cache equations s kind a number children
      let inside := nodes cache (if kind = .float .equation then equations + 1 else equations) entered.2.2 children
      (⟨kind.stripped cache equations, entered.1, entered.2.1, inside.1⟩, leave kind s inside.2) := by
  cases kind <;> rfl

/-- Numbering a node is visiting its position and then numbering what is inside it. -/
theorem node_eq_visit (cache : Cache) (around : List Kind) (s : State) (n : Node) :
    node cache (around.count (.float .equation)) s n =
      ({ (visit cache s ⟨n, around, s.isInFront⟩).1 with
          children := (nodes cache ((n.kind :: around).count (.float .equation))
            (visit cache s ⟨n, around, s.isInFront⟩).2 n.children).1 },
        leave n.kind s (nodes cache ((n.kind :: around).count (.float .equation))
          (visit cache s ⟨n, around, s.isInFront⟩).2 n.children).2) := by
  obtain ⟨kind, a, number, children⟩ := n
  have hequations : (kind :: around).count (.float .equation) =
      if kind = .float .equation then around.count (.float .equation) + 1
      else around.count (.float .equation) := by
    by_cases hkind : kind = .float .equation <;> simp [hkind]
  simp only [node, hequations]
  cases kind <;> rfl

theorem isInFront_visit (cache : Cache) (s : State) (p : Position) :
    (visit cache s p).2.isInFront = p.node.kind.isFrontInside p.isInFront :=
  isInFront_enter ..

/-- Numbering some nodes is visiting their positions; front matter is on or off afterwards as the nodes leave it. -/
theorem nodes_eq_visits (cache : Cache) (around : List Kind) (s : State) (l : List Node) :
    (preorder (nodes cache (around.count (.float .equation)) s l).1).map Node.bare =
        (visits cache s (positions around s.isInFront l)).1 ∧
      (nodes cache (around.count (.float .equation)) s l).2 =
        (visits cache s (positions around s.isInFront l)).2.withFront (isFrontAfter s.isInFront l) := by
  induction l using Forest.induction generalizing around s with
  | nil => exact ⟨rfl, rfl⟩
  | cons n rest ihChildren ihRest =>
      -- What the visits leave inside `n` agrees with what numbering leaves there in all but whether front matter is on,
      -- and that does not reach the visits of `rest`, whose positions say it themselves.
      have hinside := isInFront_visit cache s ⟨n, around, s.isInFront⟩
      have hbare : ∀ l, Node.bare { (visit cache s ⟨n, around, s.isInFront⟩).1 with children := l } =
          (visit cache s ⟨n, around, s.isInFront⟩).1 := fun l => rfl
      simp only [nodes, node_eq_visit, positions_cons, visits_cons, visits_append]
      generalize visit cache s ⟨n, around, s.isInFront⟩ = v at hinside hbare ⊢
      obtain ⟨hchildren, hinner⟩ := ihChildren (n.kind :: around) v.2
      rw [hinside] at hchildren hinner
      rw [hinner, leave_eq]
      generalize visits cache v.2 (positions (n.kind :: around) (n.kind.isFrontInside s.isInFront) n.children) = w
        at hchildren ⊢
      obtain ⟨hrest, hlater⟩ := ihRest around (w.2.withFront (n.isFrontAfter s.isInFront))
      obtain ⟨hnodes, hstate⟩ := visits_withFront cache w.2 (n.isFrontAfter s.isInFront)
        (isFrontAfter s.isInFront (n :: rest)) (positions around (n.isFrontAfter s.isInFront) rest)
      constructor
      · rw [preorder_cons, List.map_cons, List.map_append, hbare, hchildren, hrest, ← hnodes]
        rfl
      · rw [hlater, ← hstate]
        rfl

end Numbering

/-- What holds of the nodes of a document holds of the nodes at its positions. -/
theorem Document.forall_positions {d : Document} {motive : Node → Prop} (h : ∀ n ∈ Forest.preorder d.children, motive n)
    (p : Position) (hp : p ∈ d.positions) : motive p.node := by
  apply h
  rw [← Forest.map_node_positions [] false]
  exact List.mem_map_of_mem hp

/-- A numbered document holds what the visits make of the positions of the document, and the labels and warnings that
they leave. -/
theorem Document.number_eq_visits (d : Document) (cache : Cache) (isArticle : Bool) :
    (Forest.preorder (d.number cache isArticle).1.children).map Node.bare =
        (Numbering.visits cache (.start isArticle) d.positions).1 ∧
      (d.number cache isArticle).2.1 = (Numbering.visits cache (.start isArticle) d.positions).2.labels ∧
      (d.number cache isArticle).2.2 = (Numbering.visits cache (.start isArticle) d.positions).2.warnings := by
  obtain ⟨hnodes, hstate⟩ := Numbering.nodes_eq_visits cache [] (.start isArticle) d.children
  have hlabels := congrArg Numbering.State.labels hstate
  have hwarnings := congrArg Numbering.State.warnings hstate
  exact ⟨hnodes, hlabels, hwarnings⟩

end Manuscript
