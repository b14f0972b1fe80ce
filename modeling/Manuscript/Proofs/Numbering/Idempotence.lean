import Manuscript.Proofs.Cache.Erasing
import Manuscript.Proofs.Numbering.Anchors

/-!
Documents that are numbered a second time.  The first time gives ids and classes, and equations take labels over from
their text; all this is found again the second time.

Main statement: numbering a numbered document changes nothing, and the same labels and warnings come of it
(`number_number`).
-/

namespace Manuscript

namespace Attrs

theorem addClass_eq (a : Attrs) (c : Text) : a.addClass c = { a with classes := (a.addClass c).classes } := by
  unfold addClass
  split <;> rfl

/-- A class that is there is not added again. -/
theorem addClass_of_mem {classes : List Text} {c : Text} (h : c ∈ classes) (id label : Option Text) (isStarred : Bool)
    (seq : Option Text) : addClass ⟨id, label, isStarred, seq, classes⟩ c = ⟨id, label, isStarred, seq, classes⟩ :=
  if_pos h

end Attrs

namespace Numbering

open Forest

variable {cache : Cache} {m : Meaning} {equations : Nat} {t u : Text}

/-- When the tokens of labels have been taken out of the text, there is none in what is left. -/
def LeavesNone (cache : Cache) (t : Text) : Prop := ∀ l ∈ cache.labels, Text.contains l.1 (cache.takeLabels t).1 = false

instance (cache : Cache) (t : Text) : Decidable (LeavesNone cache t) :=
  inferInstanceAs (Decidable (∀ l ∈ cache.labels, Text.contains l.1 (cache.takeLabels t).1 = false))

/-- What becomes of a text inside at least so many equations. -/
def IsStripped (cache : Cache) (equations : Nat) (t u : Text) : Prop :=
  (equations = 0 ∧ u = t) ∨ (LeavesNone cache t ∧ u = (cache.takeLabels t).1)

theorem stripped_succ (cache : Cache) (equations : Nat) (t : Text) :
    stripped cache (equations + 1) t = (cache.takeLabels (stripped cache equations t)).1 :=
  rfl

theorem stripped_eq_self (h : ∀ l ∈ cache.labels, Text.contains l.1 t = false) (equations : Nat) :
    stripped cache equations t = t := by
  induction equations with
  | zero => rfl
  | succ equations ih => rw [stripped_succ, ih, Cache.takeLabels_eq_self h]

/-- What the innermost equation would take out of a text the outermost has taken out. -/
theorem LeavesNone.stripped_succ (h : LeavesNone cache t) (equations : Nat) :
    stripped cache (equations + 1) t = (cache.takeLabels t).1 := by
  induction equations with
  | zero => rfl
  | succ equations ih => rw [Numbering.stripped_succ, ih, Cache.takeLabels_eq_self h]

theorem isStripped_stripped (h : 0 < equations → LeavesNone cache t) :
    IsStripped cache equations t (stripped cache equations t) := by
  cases equations with
  | zero => exact .inl ⟨rfl, rfl⟩
  | succ equations => exact .inr ⟨h (Nat.succ_pos _), (h (Nat.succ_pos _)).stripped_succ equations⟩

/-- Stripping a text again changes nothing. -/
theorem IsStripped.stripped_eq (h : IsStripped cache equations t u) : stripped cache equations u = u := by
  obtain ⟨rfl, rfl⟩ | ⟨hnone, rfl⟩ := h
  · rfl
  · exact stripped_eq_self hnone equations

theorem IsStripped.eq_self (h : IsStripped cache equations t u) (ht : ∀ l ∈ cache.labels, Text.contains l.1 t = false) :
    t = u := by
  obtain ⟨-, rfl⟩ | ⟨-, rfl⟩ := h
  · rfl
  · rw [Cache.takeLabels_eq_self ht]

theorem IsStripped.stripped_eq_or (h : IsStripped cache equations t u) :
    stripped cache equations t = t ∨ stripped cache equations t = (cache.takeLabels t).1 := by
  obtain ⟨rfl, -⟩ | ⟨hnone, -⟩ := h
  · exact .inl rfl
  · cases equations with
    | zero => exact .inl rfl
    | succ equations => exact .inr (hnone.stripped_succ equations)

theorem IsStripped.of_le {equations' : Nat} (hle : equations ≤ equations') (h : IsStripped cache equations' t u) :
    IsStripped cache equations t u :=
  h.imp_left fun ⟨hzero, hu⟩ => ⟨Nat.le_zero.mp (hzero ▸ hle), hu⟩

/-- Tokens act as markers in the texts: if there is one of a label in them, all can be told from what is around them. -/
def ActAsMarkers (cache : Cache) (ts : List Text) : Prop :=
  (∀ t ∈ ts, ∀ l ∈ cache.labels, Text.contains l.1 t = false) ∨
    ∃ (m : Meaning) (drafts : List Draft),
      m.Reads cache ∧ ts = drafts.map Draft.text ∧ cache.Clear m drafts.flatten

/-- The tokens of labels act as markers in some nodes: taking them out of the texts in equations makes no other appear,
and in titles no other token either. -/
structure IsMarked (cache : Cache) (l : List Node) : Prop where
  equations : ∀ n ∈ preorder l, n.kind = .float .equation → ∀ t ∈ Node.textsIn n.children, LeavesNone cache t
  titles : ∀ n ∈ preorder l, ∀ level, n.kind = .heading level → ∀ title, Node.title? n.children = some title →
    ActAsMarkers cache title.texts

theorem IsMarked.of_subset {l more : List Node} (h : IsMarked cache more) (hsub : preorder l ⊆ preorder more) :
    IsMarked cache l :=
  ⟨fun n hn => h.equations n (hsub hn), fun n hn => h.titles n (hsub hn)⟩

theorem IsMarked.inside {n : Node} {rest : List Node} (h : IsMarked cache (n :: rest)) :
    IsMarked cache n.children := by
  refine h.of_subset fun k hk => ?_
  rw [preorder_cons]
  exact List.mem_cons_of_mem n (List.mem_append_left _ hk)

theorem IsMarked.after {n : Node} {rest : List Node} (h : IsMarked cache (n :: rest)) : IsMarked cache rest := by
  refine h.of_subset fun k hk => ?_
  rw [preorder_cons]
  exact List.mem_cons_of_mem n (List.mem_append_right _ hk)

/-- The text of a node that is a text. -/
def ownTexts : Kind → List Text
  | .text t => [t]
  | _ => []

theorem textsIn_cons (n : Node) (rest : List Node) :
    Node.textsIn (n :: rest) = ownTexts n.kind ++ Node.textsIn n.children ++ Node.textsIn rest := by
  obtain ⟨kind, a, number, children⟩ := n
  cases kind <;> rfl

theorem textsIn_singleton (n : Node) : Node.textsIn [n] = n.texts := by
  rw [Node.textsIn, Node.textsIn, List.append_nil]

theorem nodes_cons (cache : Cache) (equations : Nat) (s : State) (n : Node) (rest : List Node) :
    nodes cache equations s (n :: rest) =
      ((node cache equations s n).1 :: (nodes cache equations (node cache equations s n).2 rest).1,
        (nodes cache equations (node cache equations s n).2 rest).2) :=
  rfl

/-- How many equations there are around what is inside a node. -/
def equationsInside (equations : Nat) (kind : Kind) : Nat := if kind = .float .equation then equations + 1 else equations

theorem le_equationsInside (equations : Nat) (kind : Kind) : equations ≤ equationsInside equations kind := by
  unfold equationsInside
  split
  · exact Nat.le_succ equations
  · exact Nat.le_refl equations

theorem node_eq (cache : Cache) (equations : Nat) (s : State) (kind : Kind) (a : Attrs) (number : Option Text)
    (children : List Node) :
    node cache equations s ⟨kind, a, number, children⟩ =
      let entered := enter cache equations s kind a number children
      let inside := nodes cache (equationsInside equations kind) entered.2.2 children
      (⟨kind.stripped cache equations, entered.1, entered.2.1, inside.1⟩, leave kind s inside.2) :=
  node_mk cache equations s kind a number children

/-- Inside equations the tokens of labels can be taken out of all texts. -/
theorem leavesNone_inside {n : Node} {rest : List Node} (hmarked : IsMarked cache (n :: rest))
    (htexts : 0 < equations → ∀ t ∈ Node.textsIn (n :: rest), LeavesNone cache t) :
    0 < equationsInside equations n.kind → ∀ t ∈ Node.textsIn n.children, LeavesNone cache t := by
  intro hpos t ht
  unfold equationsInside at hpos
  split at hpos
  · rename_i hkind
    exact hmarked.equations n (preorder_cons n rest ▸ List.mem_cons_self) hkind t ht
  · refine htexts hpos t ?_
    rw [textsIn_cons]
    exact List.mem_append_left _ (List.mem_append_right _ ht)

theorem leavesNone_after {n : Node} {rest : List Node}
    (htexts : 0 < equations → ∀ t ∈ Node.textsIn (n :: rest), LeavesNone cache t) :
    0 < equations → ∀ t ∈ Node.textsIn rest, LeavesNone cache t :=
  fun hpos t ht => htexts hpos t (textsIn_cons n rest ▸ List.mem_append_right _ ht)

theorem forall₂_ownTexts {kind : Kind} (h : 0 < equations → ∀ t ∈ ownTexts kind, LeavesNone cache t) :
    List.Forall₂ (IsStripped cache equations) (ownTexts kind) (ownTexts (kind.stripped cache equations)) := by
  cases kind with
  | text t => exact .cons (isStripped_stripped fun hpos => h hpos t List.mem_cons_self) .nil
  | _ => exact .nil

/-- What numbering makes of the texts in some nodes. -/
theorem forall₂_textsIn_nodes {l : List Node} (hmarked : IsMarked cache l)
    (htexts : 0 < equations → ∀ t ∈ Node.textsIn l, LeavesNone cache t) (s : State) :
    List.Forall₂ (IsStripped cache equations) (Node.textsIn l) (Node.textsIn (nodes cache equations s l).1) := by
  induction l using Forest.induction generalizing equations s with
  | nil => exact .nil
  | cons n rest ihChildren ihRest =>
      have hinside := leavesNone_inside hmarked htexts
      have hrest := leavesNone_after htexts
      obtain ⟨kind, a, number, children⟩ := n
      rw [nodes_cons, node_mk, textsIn_cons, textsIn_cons]
      refine List.rel_append (List.rel_append ?_ ?_) (ihRest hmarked.after hrest _)
      · refine forall₂_ownTexts fun hpos t ht => htexts hpos t ?_
        rw [textsIn_cons]
        exact List.mem_append_left _ (List.mem_append_left _ ht)
      · exact (ihChildren hmarked.inside hinside _).imp fun _ _ => IsStripped.of_le (le_equationsInside equations kind)

theorem kind_node (cache : Cache) (equations : Nat) (s : State) (n : Node) :
    (node cache equations s n).1.kind = n.kind.stripped cache equations := by
  obtain ⟨kind, a, number, children⟩ := n
  rw [node_mk]

theorem stripped_eq_title_iff (cache : Cache) (equations : Nat) (kind : Kind) :
    kind.stripped cache equations = .title ↔ kind = .title := by
  cases kind <;> simp [Kind.stripped]

/-- Numbering keeps the title of a heading. -/
theorem title?_nodes (cache : Cache) (equations : Nat) (s : State) (l : List Node) :
    ∃ s', Node.title? (nodes cache equations s l).1 =
      (Node.title? l).map fun title => (node cache equations s' title).1 := by
  unfold Node.title?
  induction l generalizing s with
  | nil => exact ⟨s, rfl⟩
  | cons n rest ih =>
      have hkind : ((node cache equations s n).1.kind = .title) ↔ n.kind = .title := by
        rw [kind_node, stripped_eq_title_iff]
      rw [nodes_cons]
      by_cases htitle : n.kind = .title
      · rw [List.find?_cons_of_pos (by simpa using hkind.mpr htitle), List.find?_cons_of_pos (by simpa using htitle)]
        exact ⟨s, rfl⟩
      · rw [List.find?_cons_of_neg (by simpa using mt hkind.mp htitle), List.find?_cons_of_neg (by simpa using htitle)]
        exact ih _

/-- Texts of which some have lost the tokens of labels make up a draft without some of them. -/
theorem exists_erased_flatten (hm : m.Reads cache) {drafts : List Draft} (hclear : ∀ d ∈ drafts, cache.Clear m d)
    {ts : List Text}
    (h : List.Forall₂ (fun d t => t = Draft.text d ∨ t = (cache.takeLabels (Draft.text d)).1) drafts ts) :
    ∃ e, cache.Erased drafts.flatten e ∧ ts.flatten = Draft.text e := by
  induction h with
  | nil => exact ⟨[], .nil, rfl⟩
  | cons hfirst _ ih =>
      obtain ⟨hd, hrest⟩ := List.forall_mem_cons.mp hclear
      obtain ⟨e, he, htext⟩ := ih hrest
      rw [List.flatten_cons, List.flatten_cons, htext]
      obtain rfl | rfl := hfirst
      · exact ⟨_, (Cache.Erased.refl cache _).append he, (Draft.text_append _ _).symm⟩
      · obtain ⟨f, hf, htaken⟩ := Cache.exists_erased_takeLabels hm hd
        exact ⟨_, hf.append he, by rw [htaken, Draft.text_append]⟩

theorem clear_of_mem_flatten (hm : m.Reads cache) {drafts : List Draft} (h : cache.Clear m drafts.flatten) :
    ∀ d ∈ drafts, cache.Clear m d := by
  intro d hd
  obtain ⟨before, after, rfl⟩ := List.append_of_mem hd
  rw [List.flatten_append, List.flatten_cons, ← List.append_assoc] at h
  exact h.of_part hm

theorem texts_of_title? {children : List Node} {title : Node} (h : Node.title? children = some title) :
    title.texts = Node.textsIn title.children := by
  have hkind : title.kind = .title := by simpa using List.find?_some h
  obtain ⟨kind, a, number, inside⟩ := title
  obtain rfl : kind = .title := hkind
  rfl

/-- What numbering makes of the texts in a title. -/
theorem forall₂_texts_title {children : List Node} (hmarked : IsMarked cache children)
    (htexts : 0 < equations → ∀ t ∈ Node.textsIn children, LeavesNone cache t) {title : Node}
    (h : Node.title? children = some title) (s : State) :
    List.Forall₂ (IsStripped cache equations) title.texts (node cache equations s title).1.texts := by
  have hmem : title ∈ preorder children := mem_preorder_of_mem (List.mem_of_find?_eq_some h)
  have hinside : preorder [title] ⊆ preorder children := by
    intro n hn
    rw [preorder_cons, preorder_nil, List.append_nil] at hn
    obtain rfl | hn := List.mem_cons.mp hn
    · exact hmem
    · exact mem_preorder_of_inside hmem hn
  rw [← textsIn_singleton, ← textsIn_singleton]
  refine forall₂_textsIn_nodes (hmarked.of_subset hinside) (fun hpos t ht => htexts hpos t ?_) s
  rw [textsIn_singleton, texts_of_title? h] at ht
  exact textsIn_children_subset hmem ht

/-- Before and after, each text is what it was or has lost the tokens of labels, once it is stripped. -/
theorem forall₂_map_stripped {ts us : List Text} (h : List.Forall₂ (IsStripped cache equations) ts us) :
    List.Forall₂ (fun t u => u = t ∨ u = (cache.takeLabels t).1) ts (ts.map (stripped cache equations)) ∧
      List.Forall₂ (fun t u => u = t ∨ u = (cache.takeLabels t).1) ts (us.map (stripped cache equations)) := by
  induction h with
  | nil => exact ⟨.nil, .nil⟩
  | cons hfirst _ ih =>
      refine ⟨.cons hfirst.stripped_eq_or ih.1, .cons ?_ ih.2⟩
      rw [hfirst.stripped_eq]
      exact hfirst.imp And.right And.right

/-- Markers of labels that are taken out of some texts leave to a reader what was there. -/
theorem readable_flatten_eq {ts us : List Text} (hmarkers : ActAsMarkers cache ts)
    (h : List.Forall₂ (IsStripped cache equations) ts us) :
    cache.readable (us.map (stripped cache equations)).flatten =
      cache.readable (ts.map (stripped cache equations)).flatten := by
  obtain hnone | ⟨m, drafts, hm, rfl, hclear⟩ := hmarkers
  · have hself : ts = us := by
      induction h with
      | nil => rfl
      | cons hfirst _ ih =>
          obtain ⟨ht, hrest⟩ := List.forall_mem_cons.mp hnone
          rw [ih hrest, hfirst.eq_self ht]
    rw [hself]
  · obtain ⟨hbefore, hafter⟩ := forall₂_map_stripped h
    rw [List.forall₂_map_left_iff] at hbefore hafter
    have hclears := clear_of_mem_flatten hm hclear
    obtain ⟨before, herased, htext⟩ := exists_erased_flatten hm hclears hbefore
    obtain ⟨after, herased', htext'⟩ := exists_erased_flatten hm hclears hafter
    rw [htext, htext', Cache.readable_text_of_erased hm hclear herased,
      Cache.readable_text_of_erased hm hclear herased']

/-- A numbered title reads as it did before. -/
theorem readableTitle_nodes {children : List Node} (hmarked : IsMarked cache children)
    (htexts : 0 < equations → ∀ t ∈ Node.textsIn children, LeavesNone cache t)
    (htitle : ∀ title, Node.title? children = some title → ActAsMarkers cache title.texts) (s : State) :
    readableTitle cache equations (nodes cache equations s children).1 = readableTitle cache equations children := by
  obtain ⟨s', hnumbered⟩ := title?_nodes cache equations s children
  unfold readableTitle
  rw [hnumbered]
  cases hfound : Node.title? children with
  | none => rfl
  | some title => exact readable_flatten_eq (htitle title hfound) (forall₂_texts_title hmarked htexts hfound s')

/-- Inside an equation no token of a label is left. -/
theorem contains_eq_false {ts us : List Text} (h : List.Forall₂ (IsStripped cache (equations + 1)) ts us) :
    ∀ u ∈ us, ∀ l ∈ cache.labels, Text.contains l.1 u = false := by
  induction h with
  | nil => exact fun _ hu => by cases hu
  | cons hfirst _ ih =>
      obtain ⟨hzero, -⟩ | ⟨hnone, rfl⟩ := hfirst
      · exact absurd hzero (Nat.succ_ne_zero equations)
      · exact List.forall_mem_cons.mpr ⟨hnone, ih⟩

/-- A numbered equation has no label left to take over. -/
theorem liftedLabel?_nodes {children : List Node} (hmarked : IsMarked cache children)
    (htexts : ∀ t ∈ Node.textsIn children, LeavesNone cache t) (s : State) :
    liftedLabel? cache equations .equation (nodes cache (equations + 1) s children).1 = none := by
  have hstripped : List.Forall₂ (IsStripped cache (equations + 1)) (Node.textsIn children)
      (Node.textsIn (nodes cache (equations + 1) s children).1) := forall₂_textsIn_nodes hmarked (fun _ => htexts) s
  have hnone := contains_eq_false hstripped
  have htaken : ∀ u ∈ Node.textsIn (nodes cache (equations + 1) s children).1,
      (cache.takeLabels (stripped cache equations u)).2 = [] := by
    intro u hu
    rw [stripped_eq_self (hnone u hu), Cache.takeLabels_eq_self (hnone u hu)]
  rw [liftedLabel?, if_pos rfl, List.flatMap_eq_nil_iff.mpr htaken, List.head?_nil]

/-- The id that a node has been given is kept. -/
theorem anchor_anchor (a : Attrs) (new other : Text) (isStarred : Bool) (seq : Option Text) (classes : List Text) :
    anchor ⟨some (anchor a new), a.label, isStarred, seq, classes⟩ other = anchor a new := by
  unfold anchor
  cases a.label <;> rfl

theorem heading_heading (s : State) (level : Level) (a : Attrs) (title : Text) :
    heading s level (heading s level a title).1 title = heading s level a title := by
  have hclass := a.mem_classes_addClass "unnumbered"
  unfold heading
  split
  · rename_i hunnumbered
    rw [a.addClass_eq, if_pos hunnumbered]
    simp only [anchor_anchor, Attrs.addClass_of_mem hclass]
  · simp only [anchor_anchor]

theorem float_float (s : State) (kind : FloatKind) (a : Attrs) :
    float s kind (float s kind a).1 = float s kind a := by
  have hclass := a.mem_classes_addClass "unnumbered"
  unfold float
  split
  · rename_i hstarred
    rw [a.addClass_eq, if_pos hstarred, Attrs.addClass_of_mem hclass]
    cases a.label <;> rfl
  · simp only [anchor_anchor]

theorem orElse_orElse_self {α : Type} (o o' : Option α) : (o <|> (o <|> o')) = (o <|> o') := by
  cases o <;> rfl

/-- A numbered node adds to what is known what it added before, if its title reads the same and no label is left in
it. -/
theorem enter_enter (s : State) (kind : Kind) (a : Attrs) (number : Option Text) (children children' : List Node)
    (htitle : ∀ level, kind = .heading level →
      readableTitle cache equations children' = readableTitle cache equations children)
    (hlabel : ∀ float, kind = .float float → liftedLabel? cache equations float children' = none) :
    enter cache equations s (kind.stripped cache equations) (enter cache equations s kind a number children).1
        (enter cache equations s kind a number children).2.1 children' =
      enter cache equations s kind a number children := by
  cases kind with
  | heading level =>
      simp only [Kind.stripped, enter, htitle level rfl, heading_heading, orElse_orElse_self]
  | float kind =>
      have hlabels : ∀ a : Attrs, { a with label := a.label <|> none } = a := by
        intro a
        cases hlabel : a.label <;> simp [← hlabel]
      simp only [Kind.stripped, enter, hlabel kind rfl, hlabels, float_float, orElse_orElse_self]
  | _ => rfl

theorem leave_stripped (kind : Kind) (outer inner : State) :
    leave (kind.stripped cache equations) outer inner = leave kind outer inner := by
  cases kind <;> rfl

theorem stripped_stripped (cache : Cache) (equations : Nat) (kind : Kind)
    (h : 0 < equations → ∀ t ∈ ownTexts kind, LeavesNone cache t) :
    (kind.stripped cache equations).stripped cache equations = kind.stripped cache equations := by
  cases kind with
  | text t =>
      have hstripped := isStripped_stripped fun hpos => h hpos t List.mem_cons_self
      exact congrArg Kind.text hstripped.stripped_eq
  | _ => rfl

theorem equationsInside_stripped (kind : Kind) :
    equationsInside equations (kind.stripped cache equations) = equationsInside equations kind := by
  cases kind <;> rfl

/-- What numbering has made of the inside of a node leads to no other title and no other label of it. -/
theorem enter_nodes {n : Node} {rest : List Node} (hmarked : IsMarked cache (n :: rest))
    (htexts : 0 < equationsInside equations n.kind → ∀ t ∈ Node.textsIn n.children, LeavesNone cache t)
    (s inner : State) :
    enter cache equations s (n.kind.stripped cache equations)
        (enter cache equations s n.kind n.attrs n.number n.children).1
        (enter cache equations s n.kind n.attrs n.number n.children).2.1
        (nodes cache (equationsInside equations n.kind) inner n.children).1 =
      enter cache equations s n.kind n.attrs n.number n.children := by
  have hmem : n ∈ preorder (n :: rest) := preorder_cons n rest ▸ List.mem_cons_self
  refine enter_enter s n.kind n.attrs n.number n.children _ ?_ ?_
  · intro level hkind
    have hequations : equationsInside equations n.kind = equations := by
      rw [hkind]
      rfl
    rw [hequations] at htexts ⊢
    exact readableTitle_nodes hmarked.inside htexts (hmarked.titles n hmem level hkind) inner
  · intro float hkind
    by_cases hequation : float = .equation
    · subst hequation
      have hequations : equationsInside equations n.kind = equations + 1 := by
        rw [hkind]
        rfl
      rw [hequations]
      exact liftedLabel?_nodes hmarked.inside (hmarked.equations n hmem hkind) inner
    · exact if_neg hequation

/-- Numbering nodes that have been numbered changes nothing, and it leads to the same state. -/
theorem nodes_nodes {l : List Node} (hmarked : IsMarked cache l)
    (htexts : 0 < equations → ∀ t ∈ Node.textsIn l, LeavesNone cache t) (s : State) :
    nodes cache equations s (nodes cache equations s l).1 = nodes cache equations s l := by
  induction l using Forest.induction generalizing equations s with
  | nil => rfl
  | cons n rest ihChildren ihRest =>
      have hinside := leavesNone_inside hmarked htexts
      have hnode : node cache equations s (node cache equations s n).1 = node cache equations s n := by
        have hentered := enter_nodes hmarked hinside s
        have hchildren := ihChildren hmarked.inside hinside
        have hkind := stripped_stripped cache equations n.kind fun hpos t ht =>
          htexts hpos t (textsIn_cons n rest ▸ List.mem_append_left _ (List.mem_append_left _ ht))
        obtain ⟨kind, a, number, children⟩ := n
        simp only [node_eq] at hentered hchildren hkind ⊢
        rw [hentered, equationsInside_stripped, hchildren, hkind, leave_stripped]
      rw [nodes_cons, nodes_cons, hnode, ihRest hmarked.after (leavesNone_after htexts)]

end Numbering

/-- Numbering a numbered document, in the same mode and with the same cache, leaves it as it is, and the same labels and
warnings come of it. -/
theorem Document.number_number {d : Document} {cache : Cache} (h : Numbering.IsMarked cache d.children)
    (isArticle : Bool) : (d.number cache isArticle).1.number cache isArticle = d.number cache isArticle := by
  unfold Document.number
  rw [Numbering.nodes_nodes h fun hpos => absurd hpos (Nat.lt_irrefl 0)]

namespace LabelledTitle

/-- A cache with a character beyond ASCII, a label, and mathematics. -/
def cache : Cache := Cache.build "s" NestedMath.calls

/-- The texts in a title, the second one in an equation: a label and the character. -/
def drafts : List Draft :=
  [Draft.plain "E", [.token (NestedMath.label.token "s"), .token (NestedMath.accent.token "s")]]

/-- A chapter without a number that has this title. -/
def document : Document :=
  ⟨[⟨.heading .chapter, { Attrs.none with isStarred := true }, none,
    [⟨.title, .none, none,
      [⟨.text "E", .none, none, []⟩,
        ⟨.float .equation, .none, none, [⟨.text (Draft.text drafts[1]), .none, none, []⟩]⟩]⟩]⟩]⟩

/-- Only the label can be erased from the title. -/
theorem eq_or_eq_of_erased {e : Draft} (h : cache.Erased drafts.flatten e) :
    e = drafts.flatten ∨ e = Draft.plain "E" ++ [.token (NestedMath.accent.token "s")] := by
  have haccent : ∀ l ∈ cache.labels, l.1 ≠ NestedMath.accent.token "s" := by decide +kernel
  have hend : ∀ {e : Draft}, cache.Erased [.token (NestedMath.accent.token "s")] e →
      e = [.token (NestedMath.accent.token "s")] := by
    intro e h
    generalize htoken : NestedMath.accent.token "s" = token at h haccent
    cases h with
    | keep _ h =>
        cases h
        rfl
    | erase hl _ => exact absurd rfl (haccent _ hl)
  change cache.Erased (.character 'E' :: .token (NestedMath.label.token "s") :: [_]) e at h
  obtain _ | ⟨_, h⟩ := h
  generalize hlabel : NestedMath.label.token "s" = label at h
  cases h with
  | keep _ h =>
      rw [hend h, ← hlabel]
      exact .inl rfl
  | erase _ h =>
      rw [hend h]
      exact .inr rfl

theorem clear : cache.Clear cache.reading drafts.flatten := by
  intro e he
  have hmem : e ∈ [drafts.flatten, Draft.plain "E" ++ [.token (NestedMath.accent.token "s")],
      Draft.plain "E" ++ [.token (NestedMath.label.token "s")] ++ Draft.plain "é", Draft.plain "Eé"] := by
    rcases eq_or_eq_of_erased he with rfl | rfl <;> simp
  refine Meaning.marks_of_forall_mem _ (fun _ => Cache.draft?_of_notMem_tokens) ?_ ?_ ?_ hmem
  · decide +kernel
  · decide +kernel
  · decide +kernel

theorem isMarked : Numbering.IsMarked cache document.children where
  equations := by decide +kernel
  titles := by
    intro n hn level hkind title htitle
    have htexts : ∀ n ∈ Forest.preorder document.children, ∀ title ∈ Node.title? n.children,
        title.texts = drafts.map Draft.text := by decide +kernel
    exact .inr ⟨cache.reading, drafts, Meaning.reads_reading (Cache.unrepeated_build _ _) (by decide +kernel)
      (by decide +kernel), htexts n hn title htitle, clear⟩

/-- The label comes from the equation in the title the first time, and from the equation itself the second time. -/
theorem number_number_document :
    Numbering.IsMarked cache document.children ∧
      (document.number cache false).2.1.map Prod.fst = ["eq:1".toList] ∧
      (document.number cache false).1.number cache false = document.number cache false :=
  ⟨isMarked, by decide +kernel, Document.number_number isMarked false⟩

end LabelledTitle

end Manuscript
