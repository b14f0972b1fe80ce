import Manuscript.Document.OfXml
import Manuscript.Proofs.Numbering.Labels

/-!
Which of the labels that headings and floats carry are known afterwards.  An equation carries the labels whose tokens
are in its text, and these may be many, while a node goes by one label only.  The tokens of all the others are taken out
of the text as well, and so nothing is left of them.

Main statement: the labels that are known are those that nodes go by, and where no node goes by a label that another
carries, all labels are kept exactly if each node goes by every label that it carries (`isLabelled`).
-/

namespace Manuscript

namespace Position

/-- Is the node at a position a heading, or a float that is not starred? -/
def takesLabels (p : Position) : Bool :=
  match p.node.kind with
  | .heading _ => true
  | .float _ => !p.node.attrs.isStarred
  | _ => false

/-- The labels whose tokens are in the text of the node at a position. -/
def labelsInside (cache : Cache) (p : Position) : List Text :=
  (cache.labels.filter fun l => (Node.textsIn p.node.children).any (Text.contains l.1)).map Prod.snd

/-- The labels that the heading or float at a position carries: its attribute, and for an equation those in its text.  A
starred float carries none. -/
def carried (cache : Cache) (p : Position) : List Text :=
  if p.takesLabels then
    p.node.attrs.label.toList ++ if p.node.kind = .float .equation then p.labelsInside cache else []
  else []

/-- The label that the heading or float at a position goes by: its attribute, or for an equation the first label that
the equations around it have left in its text. -/
def goesBy? (cache : Cache) (p : Position) : Option Text :=
  if p.takesLabels then (p.attrs cache).label else none

variable {cache : Cache} {p : Position} {label : Text}

theorem mem_labelsInside :
    label ∈ p.labelsInside cache ↔
      ∃ t ∈ Node.textsIn p.node.children, ∃ l ∈ cache.labels, l.2 = label ∧ Text.contains l.1 t = true := by
  simp only [labelsInside, List.mem_map, List.mem_filter, List.any_eq_true]
  constructor
  · rintro ⟨l, ⟨hl, t, ht, hcontains⟩, rfl⟩
    exact ⟨t, ht, l, hl, rfl, hcontains⟩
  · rintro ⟨t, ht, l, hl, rfl, hcontains⟩
    exact ⟨l, ⟨hl, t, ht, hcontains⟩, rfl⟩

theorem mem_carried :
    label ∈ p.carried cache ↔ p.takesLabels = true ∧
      (p.node.attrs.label = some label ∨ p.node.kind = .float .equation ∧ label ∈ p.labelsInside cache) := by
  unfold carried
  split
  · rename_i htakes
    rw [List.mem_append, Option.mem_toList]
    split <;> simp_all
  · simp_all

/-- The attribute goes before what is in the text. -/
theorem goesBy?_of_label (h : p.node.attrs.label = some label) (hcarried : label ∈ p.carried cache) :
    p.goesBy? cache = some label := by
  rw [goesBy?, if_pos (mem_carried.mp hcarried).1, Position.attrs]
  split
  · rw [h]
    rfl
  · exact h

/-- An equation that stands inside no other goes by a label if it carries no other. -/
theorem goesBy?_of_only (hne : ∀ l ∈ cache.labels, l.1 ≠ []) (houtermost : p.equations = 0)
    (hcarried : label ∈ p.carried cache) (honly : ∀ other ∈ p.carried cache, other = label) :
    p.goesBy? cache = some label := by
  obtain ⟨htakes, hgiven | ⟨hkind, hinside⟩⟩ := mem_carried.mp hcarried
  · exact goesBy?_of_label hgiven hcarried
  · cases hlabel : p.node.attrs.label with
    | some given =>
        have hgiven : given ∈ p.carried cache := mem_carried.mpr ⟨htakes, .inl hlabel⟩
        obtain rfl := honly given hgiven
        exact goesBy?_of_label hlabel hgiven
    | none =>
        obtain ⟨t, ht, l, hl, rfl, hcontains⟩ := mem_labelsInside.mp hinside
        have hlifted : Numbering.liftedLabel? cache 0 .equation p.node.children = some l.2 := by
          refine Numbering.liftedLabel?_eq_some hne ⟨t, ht, l, hl, hcontains⟩ ?_
          intro t' ht' l' hl' hcontains'
          have hinside' := mem_labelsInside.mpr ⟨t', ht', l', hl', rfl, hcontains'⟩
          exact honly l'.2 (mem_carried.mpr ⟨htakes, .inr ⟨hkind, hinside'⟩⟩)
        simp only [goesBy?, if_pos htakes, Position.attrs, hkind, hlabel, houtermost, hlifted]
        rfl

/-- A float that goes by a label is counted. -/
theorem series?_of_goesBy? {kind : FloatKind} (hkind : p.node.kind = .float kind) (h : p.goesBy? cache = some label)
    (isArticle : Bool) : p.series? isArticle = some (.float kind) := by
  unfold goesBy? takesLabels at h
  rw [hkind] at h
  cases hstarred : p.node.attrs.isStarred with
  | true => simp [hstarred] at h
  | false => simp [series?, hkind, hstarred]

end Position

namespace Numbering

/-- The first definition of a label is found, whatever is defined after it. -/
theorem lookup_definitions {cache : Cache} {isArticle : Bool} {ps : List Position} {nodes : List Node} {i : Nat}
    {p : Position} {n : Node} {label : Text} {target : LabelTarget} (hp : ps[i]? = some p) (hn : nodes[i]? = some n)
    (hdefinition : p.definition? cache isArticle n = some (label, target))
    (hfirst : ∀ (j : Nat) (m : Node), j < i → nodes[j]? = some m → m.defined? ≠ some label) :
    (definitions cache isArticle ps nodes).lookup label = some target := by
  induction ps generalizing nodes i with
  | nil => cases hp
  | cons q ps ih =>
      cases nodes with
      | nil => cases hn
      | cons m nodes =>
          rw [definitions_cons, List.lookup_append]
          cases i with
          | zero =>
              obtain rfl := Option.some.inj hp
              obtain rfl := Option.some.inj hn
              rw [hdefinition, Option.toList_some, List.lookup_cons_self, Option.some_or]
          | succ i =>
              have hother : List.lookup label (q.definition? cache isArticle m).toList = none := by
                have hm := hfirst 0 m (Nat.succ_pos i) rfl
                unfold Position.definition?
                cases hdefined : m.defined? with
                | none => rfl
                | some other =>
                    have hne : label ≠ other := fun heq => hm (heq ▸ hdefined)
                    rw [Option.map_some, Option.toList_some, List.lookup_cons, beq_false_of_ne hne, List.lookup_nil]
              rw [hother, Option.none_or]
              exact ih hp hn fun j m' hj hm' => hfirst (j + 1) m' (Nat.succ_lt_succ hj) hm'

end Numbering

namespace Document

/-- No node goes by a label that another carries. -/
def NamedApart (d : Document) (cache : Cache) : Prop :=
  ∀ (i j : Nat) (p q : Position) (label : Text), d.positions[i]? = some p → d.positions[j]? = some q →
    label ∈ p.carried cache → q.goesBy? cache = some label → i = j

/-- Every label that a heading or a float carries is known once the document is numbered, and those of an equation lead
to its number. -/
def KeepsLabels (d : Document) (cache : Cache) (isArticle : Bool) : Prop :=
  ∀ (i : Nat) (p : Position) (n : Node) (label : Text), d.positions[i]? = some p →
    (Forest.preorder (d.number cache isArticle).1.children)[i]? = some n → label ∈ p.carried cache →
      ∃ target, (d.number cache isArticle).2.1.target? label = some target ∧
        (p.node.kind = .float .equation → n.number = some target.number)

variable {d : Document} {cache : Cache} {isArticle : Bool} {i : Nat} {p : Position} {n : Node} {label : Text}

theorem defined?_eq_goesBy? (hp : d.positions[i]? = some p)
    (hn : (Forest.preorder (d.number cache isArticle).1.children)[i]? = some n) : n.defined? = p.goesBy? cache := by
  have hbare : n.bare.defined? = n.defined? := rfl
  rw [← hbare, bare_eq_visit hp hn, Numbering.defined?_visit, Position.goesBy?, Position.takesLabels]
  cases p.node.kind with
  | heading level => rfl
  | float kind => cases p.node.attrs.isStarred <;> rfl
  | _ => rfl

theorem isSome_target?_iff :
    ((d.number cache isArticle).2.1.target? label).isSome ↔ ∃ p ∈ d.positions, p.goesBy? cache = some label := by
  rw [target?_number, Numbering.isSome_lookup_iff, mem_map_definitions]
  constructor
  · rintro ⟨n, hn, hdefined⟩
    obtain ⟨i, hn⟩ := List.mem_iff_getElem?.mp hn
    obtain ⟨p, hp⟩ := exists_position hn
    exact ⟨p, List.mem_of_getElem? hp, defined?_eq_goesBy? hp hn ▸ hdefined⟩
  · rintro ⟨p, hp, hgoesBy⟩
    obtain ⟨i, hp⟩ := List.mem_iff_getElem?.mp hp
    obtain ⟨n, hn⟩ := exists_node hp cache isArticle
    exact ⟨n, List.mem_of_getElem? hn, (defined?_eq_goesBy? hp hn).trans hgoesBy⟩

/-- A label leads to the first node that goes by it. -/
theorem target?_of_goesBy? (hp : d.positions[i]? = some p)
    (hn : (Forest.preorder (d.number cache isArticle).1.children)[i]? = some n) (h : p.goesBy? cache = some label)
    (hfirst : ∀ (j : Nat) (q : Position), j < i → d.positions[j]? = some q → q.goesBy? cache ≠ some label) :
    (d.number cache isArticle).2.1.target? label =
      some ⟨p.shown cache isArticle n, label, p.node.kind.word⟩ := by
  rw [target?_number]
  refine Numbering.lookup_definitions hp hn ?_ ?_
  · rw [Position.definition?, defined?_eq_goesBy? hp hn, h, Option.map_some]
  · intro j m hj hm hdefined
    obtain ⟨q, hq⟩ := exists_position hm
    exact hfirst j q hj hq (defined?_eq_goesBy? hq hm ▸ hdefined)

theorem number_eq_shown {kind : FloatKind} (hp : d.positions[i]? = some p)
    (hn : (Forest.preorder (d.number cache isArticle).1.children)[i]? = some n) (hkind : p.node.kind = .float kind)
    (h : p.goesBy? cache = some label) : n.number = some (p.shown cache isArticle n) := by
  have hseries := Position.series?_of_goesBy? hkind h isArticle
  have hnumber := number_eq hp hn
  rw [hseries] at hnumber
  rw [Position.shown, hseries, Option.isSome_some, if_pos rfl, hnumber, Option.getD_some]

/-- A label that a node carries without going by it is not known, if nothing else goes by it. -/
theorem target?_eq_none_of_carried (hapart : d.NamedApart cache) (hp : p ∈ d.positions)
    (hcarried : label ∈ p.carried cache) (h : p.goesBy? cache ≠ some label) :
    (d.number cache isArticle).2.1.target? label = none := by
  rw [← Option.not_isSome_iff_eq_none, isSome_target?_iff]
  rintro ⟨q, hq, hgoesBy⟩
  obtain ⟨i, hp⟩ := List.mem_iff_getElem?.mp hp
  obtain ⟨j, hq⟩ := List.mem_iff_getElem?.mp hq
  obtain rfl := hapart i j p q label hp hq hcarried hgoesBy
  obtain rfl := Option.some.inj (hp.symm.trans hq)
  exact h hgoesBy

theorem keepsLabels_iff (hapart : d.NamedApart cache) :
    d.KeepsLabels cache isArticle ↔ ∀ p ∈ d.positions, ∀ label ∈ p.carried cache, p.goesBy? cache = some label := by
  constructor
  · intro hkeeps p hp label hcarried
    obtain ⟨i, hi⟩ := List.mem_iff_getElem?.mp hp
    obtain ⟨n, hn⟩ := exists_node hi cache isArticle
    obtain ⟨target, htarget, -⟩ := hkeeps i p n label hi hn hcarried
    by_contra hgoesBy
    rw [target?_eq_none_of_carried hapart hp hcarried hgoesBy] at htarget
    cases htarget
  · intro hgoesBy i p n label hp hn hcarried
    have hlabel := hgoesBy p (List.mem_of_getElem? hp) label hcarried
    refine ⟨_, target?_of_goesBy? hp hn hlabel ?_, fun hkind => number_eq_shown hp hn hkind hlabel⟩
    intro j q hj hq hother
    exact absurd (hapart i j p q label hp hq hcarried hother) (by omega)

/-- What is known of the labels in a numbered document. -/
structure IsLabelled (d : Document) (cache : Cache) (isArticle : Bool) : Prop where
  isSome_iff : ∀ label, ((d.number cache isArticle).2.1.target? label).isSome ↔
    ∃ p ∈ d.positions, p.goesBy? cache = some label
  /-- A label leads to the first node that goes by it. -/
  target?_eq : ∀ (i : Nat) (p : Position) (n : Node) (label : Text), d.positions[i]? = some p →
    (Forest.preorder (d.number cache isArticle).1.children)[i]? = some n → p.goesBy? cache = some label →
    (∀ (j : Nat) (q : Position), j < i → d.positions[j]? = some q → q.goesBy? cache ≠ some label) →
    (d.number cache isArticle).2.1.target? label = some ⟨p.shown cache isArticle n, label, p.node.kind.word⟩ ∧
      (p.node.kind = .float .equation → n.number = some (p.shown cache isArticle n))
  /-- The label that is an attribute is never lost, -/
  goesBy?_of_label : ∀ p ∈ d.positions, ∀ label ∈ p.carried cache, p.node.attrs.label = some label →
    p.goesBy? cache = some label
  /-- nor is the only label of an equation. -/
  goesBy?_of_only : ∀ p ∈ d.positions, p.equations = 0 → ∀ label ∈ p.carried cache,
    (∀ other ∈ p.carried cache, other = label) → p.goesBy? cache = some label
  /-- A label that is carried by a node that goes by another is lost. -/
  target?_eq_none : d.NamedApart cache → ∀ p ∈ d.positions, ∀ label ∈ p.carried cache,
    p.goesBy? cache ≠ some label → (d.number cache isArticle).2.1.target? label = none
  keepsLabels_iff : d.NamedApart cache →
    (d.KeepsLabels cache isArticle ↔ ∀ p ∈ d.positions, ∀ label ∈ p.carried cache, p.goesBy? cache = some label)

/-- A node keeps the label that it goes by, and all other labels that it carries are lost. -/
theorem isLabelled (d : Document) (salt : Text) (calls : List Call) (isArticle : Bool) :
    d.IsLabelled (.build salt calls) isArticle := by
  constructor
  case isSome_iff => exact fun label => isSome_target?_iff
  case target?_eq =>
    intro i p n label hp hn hgoesBy hfirst
    exact ⟨target?_of_goesBy? hp hn hgoesBy hfirst, fun hkind => number_eq_shown hp hn hkind hgoesBy⟩
  case goesBy?_of_label => exact fun p _ label hcarried hlabel => Position.goesBy?_of_label hlabel hcarried
  case goesBy?_of_only =>
    intro p _ houtermost label hcarried honly
    exact Position.goesBy?_of_only (Cache.ne_nil_of_mem_labels_build salt calls) houtermost hcarried honly
  case target?_eq_none => exact fun hapart p hp label hcarried h => target?_eq_none_of_carried hapart hp hcarried h
  case keepsLabels_iff => exact keepsLabels_iff

end Document

namespace TwoLines

/-- The cache once the labels of two lines of one environment have been given tokens. -/
def calls : List Call := [.label "eq:one", .label "eq:two"]

/-- An equation with the tokens of the labels of some calls on lines of their own. -/
def equation (calls : List Call) : Document :=
  (Document.parse? ("<document><equation>x\n" ++ Text.unlines (calls.map (Call.token "s")) ++
    "</equation></document>")).getD ⟨[]⟩

theorem namedApart {d : Document} {cache : Cache}
    (hothers : ∀ q ∈ d.positions.tail, q.carried cache = [] ∧ q.goesBy? cache = none) : d.NamedApart cache := by
  intro i j q r label hq hr hcarried hgoesBy
  cases i with
  | succ i =>
      rw [(hothers q (List.mem_of_getElem? (List.getElem?_tail.trans hq))).1] at hcarried
      cases hcarried
  | zero =>
      cases j with
      | succ j =>
          rw [(hothers r (List.mem_of_getElem? (List.getElem?_tail.trans hr))).2] at hgoesBy
          cases hgoesBy
      | zero => rfl

/-- The equation with its labels, and nothing else, carries labels. -/
theorem carried_equation :
    (equation calls).positions.map (Position.carried (.build "s" calls)) =
      [[("eq:one" : Text), ("eq:two" : Text)], []] := by
  decide +kernel

/-- With one label in it the equation keeps it. -/
theorem keepsLabels_one : (equation (calls.take 1)).KeepsLabels (.build "s" (calls.take 1)) false := by
  have hothers : ∀ q ∈ (equation (calls.take 1)).positions.tail,
      q.carried (.build "s" (calls.take 1)) = [] ∧ q.goesBy? (.build "s" (calls.take 1)) = none := by
    decide +kernel
  refine ((Document.isLabelled _ "s" (calls.take 1) false).keepsLabels_iff (namedApart hothers)).mpr ?_
  decide +kernel

/-- The equation goes by one of two labels in it, and so the other is lost. -/
theorem not_keepsLabels : ¬(equation calls).KeepsLabels (.build "s" calls) false := by
  have hothers : ∀ q ∈ (equation calls).positions.tail,
      q.carried (.build "s" calls) = [] ∧ q.goesBy? (.build "s" calls) = none := by
    decide +kernel
  rw [Document.keepsLabels_iff (namedApart hothers)]
  intro hgoesBy
  have hmem : [("eq:one" : Text), ("eq:two" : Text)] ∈
      (equation calls).positions.map (Position.carried (.build "s" calls)) := by
    rw [carried_equation]
    exact List.mem_cons_self
  obtain ⟨p, hp, hcarried⟩ := List.mem_map.mp hmem
  have hone := hgoesBy p hp "eq:one" (by rw [hcarried]; decide)
  have htwo := hgoesBy p hp "eq:two" (by rw [hcarried]; decide)
  exact absurd (hone.symm.trans htwo) (by decide)

end TwoLines

end Manuscript
