import Mathlib.Data.List.Induction
import Manuscript.Proofs.Cache.Reading
import Manuscript.Proofs.Numbering.Visits

/-!
The labels that numbering finds.  Headings define their labels, and so do floats unless they are starred; the first
definition of a label counts and all others are reported.

Main statements: `target?_number` and `duplicates_number`, and for a label that one node alone defines
`target?_of_only`.
-/

namespace Manuscript

/-- The word for what a heading or a float is. -/
def Kind.word : Kind → Text
  | .heading level => level.name
  | .float kind => kind.name
  | _ => []

/-- The label that a node defines. -/
def Node.defined? (n : Node) : Option Text :=
  match n.kind with
  | .heading _ => n.attrs.label
  | .float _ => if n.attrs.isStarred then none else n.attrs.label
  | _ => none

/-- What is shown for a label of the node at a position: the number that the node has been given if it is counted, and
else its title. -/
def Position.shown (cache : Cache) (isArticle : Bool) (p : Position) (n : Node) : Text :=
  if (p.series? isArticle).isSome then n.number.getD [] else Text.trim (p.title cache)

/-- The label that a numbered node defines and what the label leads to. -/
def Position.definition? (cache : Cache) (isArticle : Bool) (p : Position) (n : Node) : Option (Text × LabelTarget) :=
  n.defined?.map fun label => (label, ⟨p.shown cache isArticle n, label, p.node.kind.word⟩)

/-- The texts that are found among those before them. -/
def repeated (l : List Text) : List Text :=
  (List.range l.length).filterMap fun i => l[i]?.filter fun t => t ∈ l.take i

theorem repeated_concat (l : List Text) (t : Text) :
    repeated (l ++ [t]) = repeated l ++ if t ∈ l then [t] else [] := by
  have hinit : ∀ i ∈ List.range l.length,
      ((l ++ [t])[i]?.filter fun u => u ∈ (l ++ [t]).take i) = l[i]?.filter fun u => u ∈ l.take i := by
    intro i hi
    have hi := List.mem_range.mp hi
    rw [List.getElem?_append_left hi, List.take_append_of_le_length (Nat.le_of_lt hi)]
  unfold repeated
  rw [List.length_append, List.length_singleton, List.range_succ, List.filterMap_append,
    List.filterMap_congr hinit]
  have hlast : ((l ++ [t])[l.length]?.filter fun u => u ∈ (l ++ [t]).take l.length) =
      if t ∈ l then some t else none := by
    rw [List.getElem?_concat_length, List.take_left, Option.filter_some]
    simp only [decide_eq_true_eq]
  rw [List.filterMap_cons, hlast]
  by_cases ht : t ∈ l
  · simp only [if_pos ht, List.filterMap_nil]
  · simp only [if_neg ht, List.filterMap_nil]

namespace Numbering

/-- Takes in a definition: the labels that are known, and what is wrong with them. -/
def enterDefinition (known : LabelTable × List Warning) (definition : Text × LabelTarget) :
    LabelTable × List Warning :=
  if (known.1.target? definition.1).isSome then (known.1, known.2 ++ [.duplicateLabel definition.1])
  else (known.1 ++ [definition], known.2)

theorem isSome_lookup_iff {definitions : List (Text × LabelTarget)} {label : Text} :
    (definitions.lookup label).isSome ↔ label ∈ definitions.map Prod.fst := by
  rw [List.lookup_isSome_iff, List.mem_map]
  simp only [beq_iff_eq]
  exact exists_congr fun p => and_congr_right fun _ => eq_comm

/-- The first definition of a label counts, and all others are reported. -/
theorem foldl_enterDefinition (definitions : List (Text × LabelTarget)) :
    (∀ label, (definitions.foldl enterDefinition ([], [])).1.target? label = definitions.lookup label) ∧
      (definitions.foldl enterDefinition ([], [])).2 =
        (repeated (definitions.map Prod.fst)).map .duplicateLabel := by
  -- From the back, as a definition counts or is reported by what stands before it.
  induction definitions using List.reverseRecOn with
  | nil => exact ⟨fun _ => rfl, rfl⟩
  | append_singleton definitions definition ih =>
      obtain ⟨hlabels, hwarnings⟩ := ih
      rw [List.foldl_concat, List.map_append, List.map_singleton, repeated_concat, List.map_append, ← hwarnings]
      generalize definitions.foldl enterDefinition ([], []) = known at hlabels ⊢
      obtain ⟨label, target⟩ := definition
      have hmem : (known.1.target? label).isSome = decide (label ∈ definitions.map Prod.fst) := by
        rw [hlabels, Bool.eq_iff_iff, isSome_lookup_iff, decide_eq_true_iff]
      unfold enterDefinition
      by_cases hseen : label ∈ definitions.map Prod.fst
      · rw [if_pos (by simpa using hmem.trans (decide_eq_true hseen)), if_pos hseen]
        refine ⟨fun other => ?_, rfl⟩
        rw [hlabels, List.lookup_append]
        by_cases hother : other = label
        · obtain ⟨found, hfound⟩ := Option.isSome_iff_exists.mp (isSome_lookup_iff.mpr hseen)
          rw [hother, hfound, Option.some_or]
        · have hnone : List.lookup other [(label, target)] = none := by
            rw [List.lookup_cons, beq_false_of_ne hother, List.lookup_nil]
          rw [hnone, Option.or_none]
      · rw [if_neg (by simpa using hmem.trans (decide_eq_false hseen)), if_neg hseen]
        refine ⟨fun other => ?_, (List.append_nil _).symm⟩
        unfold LabelTable.target? at hlabels ⊢
        rw [List.lookup_append, List.lookup_append, hlabels]

theorem known_register (s : State) (label : Text) (target : LabelTarget) :
    ((s.register (some label) target).labels, (s.register (some label) target).warnings) =
      enterDefinition (s.labels, s.warnings) (label, target) := by
  unfold State.register enterDefinition
  dsimp only
  split <;> rfl

theorem defined?_visit (cache : Cache) (s : State) (p : Position) :
    (visit cache s p).1.defined? =
      match p.node.kind with
      | .heading _ => (p.attrs cache).label
      | .float _ => if p.node.attrs.isStarred then none else (p.attrs cache).label
      | _ => none := by
  obtain ⟨id, classes, hattrs⟩ := attrs_visit cache s p
  by_cases htext : ∃ t, p.node.kind = .text t
  · obtain ⟨t, hkind⟩ := htext
    have hstripped : (visit cache s p).1.kind = .text (stripped cache p.equations t) := by
      simp only [visit, hkind]
      rfl
    simp only [Node.defined?, hstripped, hkind]
  · have hkind := kind_visit cache s (p := p) fun t hkind => htext ⟨t, hkind⟩
    rw [Node.defined?, hkind, hattrs, ← Position.isStarred_attrs cache]

theorem anchor_eq_label {a : Attrs} {label : Text} (h : a.label = some label) (new : Text) : anchor a new = label := by
  simp only [anchor, h]
  rfl

/-- A visit takes in what the node there defines. -/
theorem known_visit (cache : Cache) (s : State) (p : Position) :
    ((visit cache s p).2.labels, (visit cache s p).2.warnings) =
      match p.definition? cache s.counters.isArticle (visit cache s p).1 with
      | some definition => enterDefinition (s.labels, s.warnings) definition
      | none => (s.labels, s.warnings) := by
  unfold Position.definition? Position.shown
  rw [defined?_visit]
  obtain ⟨series, hseries⟩ | ⟨level, hkind, hseries⟩ | ⟨hkind, hseries⟩ := p.series?_cases s.counters.isArticle
  · have hkind := Position.kind_of_series? hseries
    have hdefined : (match p.node.kind with
        | .heading _ => (p.attrs cache).label
        | .float _ => if p.node.attrs.isStarred then none else (p.attrs cache).label
        | _ => none) = (p.attrs cache).label := by
      rw [hkind, Position.isStarred_of_series? hseries]
      cases series <;> rfl
    rw [hdefined, visit_of_series hseries, hkind, hseries]
    cases hlabel : (p.attrs cache).label with
    | none => rfl
    | some label =>
        rw [known_register, anchor_eq_label hlabel]
        cases series <;> rfl
  · have hattrs : p.attrs cache = p.node.attrs := by simp only [Position.attrs, hkind]
    rw [visit_of_heading hkind hseries, hkind, hattrs, hseries]
    cases hlabel : p.node.attrs.label with
    | none => rfl
    | some label =>
        rw [known_register, anchor_eq_label hlabel]
        rfl
  · rw [(visit_of_other hkind hseries).2]
    cases hother : p.node.kind with
    | heading level => exact absurd hother (hkind level)
    | float kind =>
        -- A float that is not counted is starred, and so its label is not taken in.
        rw [Position.isStarred_of_float hother hseries]
        rfl
    | _ => rfl

/-- The definitions of labels in some numbered nodes at their positions, in order. -/
def definitions (cache : Cache) (isArticle : Bool) (ps : List Position) (nodes : List Node) :
    List (Text × LabelTarget) :=
  (ps.zip nodes).filterMap fun x => x.1.definition? cache isArticle x.2

theorem definitions_cons (cache : Cache) (isArticle : Bool) (p : Position) (ps : List Position) (n : Node)
    (nodes : List Node) :
    definitions cache isArticle (p :: ps) (n :: nodes) =
      (p.definition? cache isArticle n).toList ++ definitions cache isArticle ps nodes := by
  unfold definitions
  rw [List.zip_cons_cons, List.filterMap_cons]
  cases p.definition? cache isArticle n <;> rfl

/-- The definitions do not depend on what is inside the nodes. -/
theorem definitions_map_bare (cache : Cache) (isArticle : Bool) (ps : List Position) (nodes : List Node) :
    definitions cache isArticle ps (nodes.map Node.bare) = definitions cache isArticle ps nodes := by
  induction ps generalizing nodes with
  | nil => rfl
  | cons p ps ih =>
      cases nodes with
      | nil => rfl
      | cons n nodes =>
          rw [List.map_cons, definitions_cons, definitions_cons, ih]
          rfl

/-- Visits take in what is defined at their positions. -/
theorem known_visits (cache : Cache) (s : State) (ps : List Position) :
    ((visits cache s ps).2.labels, (visits cache s ps).2.warnings) =
      (definitions cache s.counters.isArticle ps (visits cache s ps).1).foldl enterDefinition
        (s.labels, s.warnings) := by
  induction ps generalizing s with
  | nil => rfl
  | cons p ps ih =>
      rw [visits_cons, definitions_cons, List.foldl_append, ih, isArticle_visit, known_visit]
      cases p.definition? cache s.counters.isArticle (visit cache s p).1 <;> rfl

/-- An equation takes over the label whose token is in its text, if that of no other label is. -/
theorem liftedLabel?_eq_some {cache : Cache} (hne : ∀ l ∈ cache.labels, l.1 ≠ []) {children : List Node}
    {name : Text} (hcarried : ∃ t ∈ Node.textsIn children, ∃ l ∈ cache.labels, Text.contains l.1 t = true)
    (honly : ∀ t ∈ Node.textsIn children, ∀ l ∈ cache.labels, Text.contains l.1 t = true → l.2 = name) :
    liftedLabel? cache 0 .equation children = some name := by
  have hstripped : ∀ t, stripped cache 0 t = t := fun _ => rfl
  rw [liftedLabel?, if_pos rfl]
  simp only [hstripped]
  obtain ⟨t, ht, l, hl, hcontains⟩ := hcarried
  have hmem : l.2 ∈ (Node.textsIn children).flatMap fun t => (cache.takeLabels t).2 :=
    List.mem_flatMap.mpr ⟨t, ht, (Cache.mem_takeLabels hne).mpr ⟨l, hl, rfl, hcontains⟩⟩
  cases hlabels : (Node.textsIn children).flatMap fun t => (cache.takeLabels t).2 with
  | nil =>
      rw [hlabels] at hmem
      cases hmem
  | cons first rest =>
      have hfirst : first ∈ (Node.textsIn children).flatMap fun t => (cache.takeLabels t).2 := by
        rw [hlabels]
        exact List.mem_cons_self
      obtain ⟨t, ht, hfirst⟩ := List.mem_flatMap.mp hfirst
      obtain ⟨l, hl, rfl, hcontains⟩ := (Cache.mem_takeLabels hne).mp hfirst
      rw [List.head?_cons, honly t ht l hl hcontains]

end Numbering

namespace Document

variable (d : Document) (cache : Cache) (isArticle : Bool)

/-- The definitions of labels in a numbered document, in order. -/
def definitions : List (Text × LabelTarget) :=
  Numbering.definitions cache isArticle d.positions (Forest.preorder (d.number cache isArticle).1.children)

variable {d cache isArticle} in
theorem mem_definitions {label : Text} {target : LabelTarget} :
    (label, target) ∈ d.definitions cache isArticle ↔ ∃ (i : Nat) (p : Position) (n : Node),
      d.positions[i]? = some p ∧ (Forest.preorder (d.number cache isArticle).1.children)[i]? = some n ∧
        p.definition? cache isArticle n = some (label, target) := by
  rw [definitions, Numbering.definitions, List.mem_filterMap]
  constructor
  · rintro ⟨⟨p, n⟩, hmem, hdefinition⟩
    obtain ⟨i, hi⟩ := List.mem_iff_getElem?.mp hmem
    obtain ⟨hp, hn⟩ := List.getElem?_zip_eq_some.mp hi
    exact ⟨i, p, n, hp, hn, hdefinition⟩
  · rintro ⟨i, p, n, hp, hn, hdefinition⟩
    exact ⟨(p, n), List.mem_of_getElem? (List.getElem?_zip_eq_some.mpr ⟨hp, hn⟩), hdefinition⟩

/-- What a definition defines leads to the id that is the label itself. -/
theorem id_eq_of_mem_definitions {label : Text} {target : LabelTarget}
    (h : (label, target) ∈ d.definitions cache isArticle) : target.id = label := by
  obtain ⟨i, p, n, -, -, hdefinition⟩ := mem_definitions.mp h
  obtain ⟨label, -, heq⟩ := Option.map_eq_some_iff.mp hdefinition
  obtain ⟨rfl, rfl⟩ := Prod.mk.inj heq
  rfl

theorem mem_map_definitions {label : Text} :
    label ∈ (d.definitions cache isArticle).map Prod.fst ↔
      ∃ n ∈ Forest.preorder (d.number cache isArticle).1.children, n.defined? = some label := by
  constructor
  · intro h
    obtain ⟨⟨label, target⟩, hmem, rfl⟩ := List.mem_map.mp h
    obtain ⟨i, p, n, -, hn, hdefinition⟩ := mem_definitions.mp hmem
    obtain ⟨label, hdefined, heq⟩ := Option.map_eq_some_iff.mp hdefinition
    obtain ⟨rfl, rfl⟩ := Prod.mk.inj heq
    exact ⟨n, List.mem_of_getElem? hn, hdefined⟩
  · rintro ⟨n, hmem, hdefined⟩
    obtain ⟨i, hn⟩ := List.mem_iff_getElem?.mp hmem
    obtain ⟨p, hp⟩ := exists_position hn
    have hdefinition := mem_definitions.mpr ⟨i, p, n, hp, hn, Option.map_eq_some_iff.mpr ⟨label, hdefined, rfl⟩⟩
    exact List.mem_map_of_mem (f := Prod.fst) hdefinition

theorem known_number :
    (d.number cache isArticle).2 = (d.definitions cache isArticle).foldl Numbering.enterDefinition ([], []) := by
  obtain ⟨hnodes, hlabels, hwarnings⟩ := d.number_eq_visits cache isArticle
  rw [definitions, ← Numbering.definitions_map_bare, hnodes]
  exact (Prod.ext hlabels hwarnings).trans (Numbering.known_visits cache (.start isArticle) d.positions)

/-- The first definition of a label counts. -/
theorem target?_number (label : Text) :
    (d.number cache isArticle).2.1.target? label = (d.definitions cache isArticle).lookup label := by
  rw [known_number]
  exact (Numbering.foldl_enterDefinition _).1 label

/-- Every later definition of a label is reported. -/
theorem duplicates_number :
    (d.number cache isArticle).2.2 =
      (repeated ((d.definitions cache isArticle).map Prod.fst)).map .duplicateLabel := by
  rw [known_number]
  exact (Numbering.foldl_enterDefinition _).2

section Only

variable {d cache isArticle} {i : Nat} {p : Position} {n : Node} {label : Text}

/-- A counted node with a label defines it, and has it as its id. -/
theorem defined?_of_series {series : Series} (hp : d.positions[i]? = some p)
    (hn : (Forest.preorder (d.number cache isArticle).1.children)[i]? = some n)
    (hseries : p.series? isArticle = some series) (hlabel : (p.attrs cache).label = some label) :
    n.defined? = some label ∧ n.attrs.id = some label ∧ ∃ number, n.number = some number := by
  have hvisit := bare_eq_visit hp hn
  rw [Numbering.visit_of_series (by rwa [Numbering.counters_visits, Counters.isArticle_run])] at hvisit
  obtain ⟨kind, a, number, children⟩ := n
  obtain ⟨rfl, rfl, rfl, -⟩ := Node.mk.inj hvisit
  refine ⟨?_, congrArg some (Numbering.anchor_eq_label hlabel _), _, rfl⟩
  have hstarred : (p.attrs cache).isStarred = false := by
    rw [Position.isStarred_attrs, Position.isStarred_of_series? hseries]
  rw [Node.defined?]
  dsimp only
  rw [Position.kind_of_series? hseries, hstarred]
  cases series <;> exact hlabel

/-- A label that one node alone defines leads to that node. -/
theorem target?_of_only {series : Series} (hp : d.positions[i]? = some p)
    (hn : (Forest.preorder (d.number cache isArticle).1.children)[i]? = some n)
    (hseries : p.series? isArticle = some series) (hlabel : (p.attrs cache).label = some label)
    (honly : ∀ (j : Nat) (m : Node), (Forest.preorder (d.number cache isArticle).1.children)[j]? = some m →
      m.defined? = some label → j = i) :
    ∃ number, n.number = some number ∧
      (d.number cache isArticle).2.1.target? label = some ⟨number, label, p.node.kind.word⟩ := by
  obtain ⟨hdefined, -, number, hnumber⟩ := defined?_of_series hp hn hseries hlabel
  refine ⟨number, hnumber, ?_⟩
  rw [target?_number]
  have hmem : label ∈ (d.definitions cache isArticle).map Prod.fst :=
    (mem_map_definitions d cache isArticle).mpr ⟨n, List.mem_of_getElem? hn, hdefined⟩
  obtain ⟨found, hfound⟩ := Option.isSome_iff_exists.mp (Numbering.isSome_lookup_iff.mpr hmem)
  obtain ⟨before, after, heq, -⟩ := List.lookup_eq_some_iff.mp hfound
  have hdefinition : (label, found) ∈ d.definitions cache isArticle := by
    rw [heq]
    exact List.mem_append_right before List.mem_cons_self
  -- The definition that is found is at some position, and only that of the node itself comes into question.
  obtain ⟨j, q, m, hq, hm, hdefinition⟩ := mem_definitions.mp hdefinition
  obtain ⟨label', hdefined', heq⟩ := Option.map_eq_some_iff.mp hdefinition
  obtain ⟨rfl, rfl⟩ := Prod.mk.inj heq
  obtain rfl := honly j m hm hdefined'
  obtain rfl := Option.some.inj (hp.symm.trans hq)
  obtain rfl := Option.some.inj (hn.symm.trans hm)
  rw [hfound, Position.shown, hseries, Option.isSome_some, if_pos rfl, hnumber]
  rfl

/-- What no node defines is not known. -/
theorem target?_eq_none (hnone : ∀ m ∈ Forest.preorder (d.number cache isArticle).1.children, m.defined? ≠ some label) :
    (d.number cache isArticle).2.1.target? label = none := by
  rw [target?_number, ← Option.not_isSome_iff_eq_none, Numbering.isSome_lookup_iff, mem_map_definitions]
  rintro ⟨m, hm, hdefined⟩
  exact hnone m hm hdefined

end Only

end Document

end Manuscript
