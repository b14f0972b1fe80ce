import Manuscript.Proofs.Numbering.Positions
import Manuscript.Proofs.Numbering.Series

/-!
What numbering does at one position.  A heading or float belongs to a series when it is counted; then the counters of
the series go on, and the node has its number from them.  A heading that is not counted has an id that its title gives,
and nothing else is known afterwards that was not known before.
-/

namespace Manuscript

/-- The series that the node at a position is counted in: headings that are starred or stand in front matter are not
counted, nor are starred floats, nor the chapters of an article. -/
def Position.series? (isArticle : Bool) (p : Position) : Option Series :=
  match p.node.kind with
  | .heading level =>
    if p.node.attrs.isStarred || p.isInFront || (isArticle && level == .chapter) then none
    else some (.heading level)
  | .float kind => if p.node.attrs.isStarred then none else some (.float kind)
  | _ => none

theorem Position.kind_of_series? {isArticle : Bool} {p : Position} {series : Series}
    (h : p.series? isArticle = some series) : p.node.kind = series.kind := by
  obtain ⟨⟨kind, a, number, children⟩, around, isInFront⟩ := p
  simp only [Position.series?] at h
  split at h
  · split at h
    · cases h
    · obtain rfl := Option.some.inj h
      rfl
  · split at h
    · cases h
    · obtain rfl := Option.some.inj h
      rfl
  · cases h

theorem Position.ne_chapter_of_series? {isArticle : Bool} {p : Position} {series : Series}
    (h : p.series? isArticle = some series) : isArticle → series ≠ .heading .chapter := by
  rintro rfl rfl
  obtain ⟨⟨kind, a, number, children⟩, around, isInFront⟩ := p
  obtain rfl := Position.kind_of_series? h
  simp only [Position.series?, Series.kind] at h
  split at h
  · cases h
  · rename_i hcounted
    simp at hcounted

theorem Position.isStarred_of_series? {isArticle : Bool} {p : Position} {series : Series}
    (h : p.series? isArticle = some series) : p.node.attrs.isStarred = false := by
  simp only [Position.series?] at h
  split at h
  · split at h
    · cases h
    · rename_i hcounted
      simp only [Bool.or_eq_true, not_or] at hcounted
      exact (Bool.not_eq_true _).mp hcounted.1.1
  · split at h
    · cases h
    · rename_i hstarred
      exact (Bool.not_eq_true _).mp hstarred
  · cases h

theorem Position.isStarred_of_float {isArticle : Bool} {p : Position} {kind : FloatKind}
    (hkind : p.node.kind = .float kind) (h : p.series? isArticle = none) : p.node.attrs.isStarred = true := by
  simpa [Position.series?, hkind] using h

/-- What is at a position is counted, or it is a heading that is not counted, or it is none of these. -/
theorem Position.series?_cases (p : Position) (isArticle : Bool) :
    (∃ series, p.series? isArticle = some series) ∨
      (∃ level, p.node.kind = .heading level ∧ p.series? isArticle = none) ∨
        (∀ level, p.node.kind ≠ .heading level) ∧ p.series? isArticle = none := by
  cases hseries : p.series? isArticle with
  | some series => exact .inl ⟨series, rfl⟩
  | none =>
      by_cases hheading : ∃ level, p.node.kind = .heading level
      · obtain ⟨level, hkind⟩ := hheading
        exact .inr (.inl ⟨level, hkind, rfl⟩)
      · exact .inr (.inr ⟨fun level hkind => hheading ⟨level, hkind⟩, rfl⟩)

/-- How many equations there are around a position. -/
def Position.equations (p : Position) : Nat := p.around.count (.float .equation)

/-- The title of the heading at a position, as a reader would see it. -/
def Position.title (cache : Cache) (p : Position) : Text :=
  Numbering.readableTitle cache p.equations p.node.children

/-- What is said of the node at a position once an equation has taken over a label from its text. -/
def Position.attrs (cache : Cache) (p : Position) : Attrs :=
  match p.node.kind with
  | .float kind =>
    { p.node.attrs with
      label := p.node.attrs.label <|> Numbering.liftedLabel? cache p.equations kind p.node.children }
  | _ => p.node.attrs

theorem Position.isStarred_attrs (cache : Cache) (p : Position) :
    (p.attrs cache).isStarred = p.node.attrs.isStarred := by
  unfold Position.attrs
  split <;> rfl

/-- What the id of a heading without a number is made of. -/
def Position.base (cache : Cache) (p : Position) (level : Level) : Text :=
  if Numbering.slug (p.title cache) = [] then level.name else Numbering.slug (p.title cache)

namespace Numbering

theorem counters_register (s : State) (label : Option Text) (target : LabelTarget) :
    (s.register label target).counters = s.counters := by
  obtain ⟨labels, warnings, heq⟩ := register_eq s label target
  rw [heq]

theorem ids_register (s : State) (label : Option Text) (target : LabelTarget) :
    (s.register label target).ids = s.ids := by
  obtain ⟨labels, warnings, heq⟩ := register_eq s label target
  rw [heq]

variable {cache : Cache} {s : State} {p : Position}

/-- A node that is counted goes on in its series and has the number that it comes to. -/
theorem visit_of_series {series : Series} (h : p.series? s.counters.isArticle = some series) :
    visit cache s p =
      let c := s.counters.step series p.node.attrs.seq
      let id := anchor (p.attrs cache) (series.anchor (c.number series))
      (⟨p.node.kind, { p.attrs cache with id := some id }, some (c.number series), []⟩,
        State.register { s with counters := c, ids := id :: s.ids, isInFront := p.isInFront } (p.attrs cache).label
          ⟨c.number series, id, series.word⟩) := by
  obtain ⟨⟨kind, a, number, children⟩, around, isInFront⟩ := p
  cases kind with
  | heading level =>
      simp only [Position.series?] at h
      split at h
      · cases h
      · rename_i hcounted
        obtain rfl := Option.some.inj h
        simp only [visit, enter, heading, State.withFront, if_neg hcounted]
        rfl
  | float kind =>
      simp only [Position.series?] at h
      split at h
      · cases h
      · rename_i hstarred
        obtain rfl := Option.some.inj h
        simp only [visit, enter, float, if_neg hstarred]
        rfl
  | _ => cases h

/-- A heading that is not counted has an id that its title gives, unless it has one already or is labelled. -/
theorem visit_of_heading {level : Level} (hkind : p.node.kind = .heading level)
    (h : p.series? s.counters.isArticle = none) :
    visit cache s p =
      let id := anchor p.node.attrs (freshId s.ids (p.base cache level))
      (⟨.heading level, { p.node.attrs.addClass "unnumbered" with id := some id }, p.node.number, []⟩,
        State.register { s with ids := id :: s.ids, isInFront := p.isInFront } p.node.attrs.label
          ⟨Text.trim (p.title cache), id, level.name⟩) := by
  obtain ⟨⟨kind, a, number, children⟩, around, isInFront⟩ := p
  obtain rfl : kind = .heading level := hkind
  simp only [Position.series?] at h
  split at h
  · rename_i hcounted
    simp only [visit, enter, heading, State.withFront, if_pos hcounted]
    rfl
  · cases h

/-- Any other node keeps the number that it has, and nothing new is known. -/
theorem visit_of_other (hkind : ∀ level, p.node.kind ≠ .heading level) (h : p.series? s.counters.isArticle = none) :
    (visit cache s p).1.number = p.node.number ∧
      (visit cache s p).2 = s.withFront (p.node.kind.isFrontInside p.isInFront) := by
  obtain ⟨⟨kind, a, number, children⟩, around, isInFront⟩ := p
  cases kind with
  | heading level => exact absurd rfl (hkind level)
  | float kind =>
      have hstarred : a.isStarred = true := Position.isStarred_of_float rfl h
      simp only [visit, enter, float, if_pos hstarred]
      exact ⟨rfl, rfl⟩
  | _ => exact ⟨rfl, rfl⟩

theorem id_visit_of_other (hkind : ∀ level, p.node.kind ≠ .heading level)
    (h : p.series? s.counters.isArticle = none) (hid : (p.attrs cache).id = none)
    (hlabel : (p.attrs cache).label = none) : (visit cache s p).1.attrs.id = none := by
  obtain ⟨⟨kind, a, number, children⟩, around, isInFront⟩ := p
  cases kind with
  | heading level => exact absurd rfl (hkind level)
  | float kind =>
      have hstarred : a.isStarred = true := Position.isStarred_of_float rfl h
      simp only [Position.attrs, Position.equations] at hid hlabel
      simp only [visit, enter, float, if_pos hstarred, hid, hlabel]
      rfl
  | _ => exact hid

/-- The counters go on exactly where something is counted. -/
theorem counters_visit (cache : Cache) (s : State) (p : Position) :
    (visit cache s p).2.counters =
      match p.series? s.counters.isArticle with
      | some series => s.counters.step series p.node.attrs.seq
      | none => s.counters := by
  obtain ⟨series, hseries⟩ | ⟨level, hkind, hseries⟩ | ⟨hkind, hseries⟩ := p.series?_cases s.counters.isArticle
  · rw [hseries, visit_of_series hseries]
    exact counters_register _ _ _
  · rw [hseries, visit_of_heading hkind hseries]
    exact counters_register _ _ _
  · rw [hseries, (visit_of_other hkind hseries).2]
    rfl

@[simp] theorem isArticle_visit (cache : Cache) (s : State) (p : Position) :
    (visit cache s p).2.counters.isArticle = s.counters.isArticle := by
  rw [counters_visit]
  split
  · exact Counters.isArticle_step _ _ _
  · rfl

/-- What is counted has the number that its series has come to; nothing else gets a number. -/
theorem number_visit (cache : Cache) (s : State) (p : Position) :
    (visit cache s p).1.number =
      match p.series? s.counters.isArticle with
      | some series => some ((visit cache s p).2.counters.number series)
      | none => p.node.number := by
  have hcounters := counters_visit cache s p
  obtain ⟨series, hseries⟩ | ⟨level, hkind, hseries⟩ | ⟨hkind, hseries⟩ := p.series?_cases s.counters.isArticle
  · rw [hseries] at hcounters ⊢
    rw [hcounters, visit_of_series hseries]
  · rw [hseries, visit_of_heading hkind hseries]
  · rw [hseries, (visit_of_other hkind hseries).1]

/-- Numbering changes the id and the classes of a node only, beside the label that an equation takes over. -/
theorem attrs_visit (cache : Cache) (s : State) (p : Position) :
    ∃ id classes, (visit cache s p).1.attrs = { p.attrs cache with id, classes } := by
  cases hseries : p.series? s.counters.isArticle with
  | some series =>
      rw [visit_of_series hseries]
      exact ⟨_, _, rfl⟩
  | none =>
      obtain ⟨⟨kind, a, number, children⟩, around, isInFront⟩ := p
      cases kind with
      | heading level =>
          rw [visit_of_heading rfl hseries]
          simp only [Attrs.addClass]
          split <;> exact ⟨_, _, rfl⟩
      | float kind =>
          have hstarred : a.isStarred = true := Position.isStarred_of_float rfl hseries
          simp only [visit, enter, float, if_pos hstarred, Attrs.addClass]
          split <;> exact ⟨_, _, rfl⟩
      | _ => exact ⟨_, _, rfl⟩

theorem kind_visit (cache : Cache) (s : State) {p : Position} (h : ∀ t, p.node.kind ≠ .text t) :
    (visit cache s p).1.kind = p.node.kind := by
  obtain ⟨⟨kind, a, number, children⟩, around, isInFront⟩ := p
  cases kind with
  | text t => exact absurd rfl (h t)
  | _ => rfl

end Numbering

namespace Counters

/-- The counters after some positions. -/
def run (c : Counters) (ps : List Position) : Counters :=
  ps.foldl (fun c p => match p.series? c.isArticle with
    | some series => c.step series p.node.attrs.seq
    | none => c) c

theorem run_cons (c : Counters) (p : Position) (ps : List Position) :
    c.run (p :: ps) = (c.run [p]).run ps :=
  rfl

theorem run_append (c : Counters) (ps qs : List Position) : c.run (ps ++ qs) = (c.run ps).run qs :=
  List.foldl_append

@[simp] theorem isArticle_run (c : Counters) (ps : List Position) : (c.run ps).isArticle = c.isArticle := by
  induction ps generalizing c with
  | nil => rfl
  | cons p ps ih =>
      rw [run_cons, ih, run, List.foldl_cons, List.foldl_nil]
      split
      · exact isArticle_step _ _ _
      · rfl

end Counters

theorem Numbering.counters_visits (cache : Cache) (s : State) (ps : List Position) :
    (visits cache s ps).2.counters = s.counters.run ps := by
  induction ps generalizing s with
  | nil => rfl
  | cons p ps ih => rw [visits_cons, ih, counters_visit, Counters.run_cons]; rfl

namespace Document

/-- The counters before the position at an index. -/
def countersAt (d : Document) (isArticle : Bool) (i : Nat) : Counters :=
  (Counters.start isArticle).run (d.positions.take i)

variable {d : Document} {cache : Cache} {isArticle : Bool} {i : Nat} {p : Position} {n : Node}

@[simp] theorem isArticle_countersAt (d : Document) (isArticle : Bool) (i : Nat) :
    (d.countersAt isArticle i).isArticle = isArticle :=
  Counters.isArticle_run _ _

theorem countersAt_succ (hp : d.positions[i]? = some p) :
    d.countersAt isArticle (i + 1) =
      match p.series? isArticle with
      | some series => (d.countersAt isArticle i).step series p.node.attrs.seq
      | none => d.countersAt isArticle i := by
  have harticle := d.isArticle_countersAt isArticle i
  unfold countersAt at harticle ⊢
  rw [List.take_add_one, hp, Counters.run_append]
  simp only [Option.toList, Counters.run, List.foldl_cons, List.foldl_nil] at harticle ⊢
  rw [harticle]

theorem length_preorder_number (d : Document) (cache : Cache) (isArticle : Bool) :
    (Forest.preorder (d.number cache isArticle).1.children).length = d.positions.length := by
  rw [← List.length_map (f := Node.bare), (d.number_eq_visits cache isArticle).1, Numbering.length_visits]

theorem exists_position (hn : (Forest.preorder (d.number cache isArticle).1.children)[i]? = some n) :
    ∃ p, d.positions[i]? = some p := by
  have hi := (List.getElem?_eq_some_iff.mp hn).1
  rw [length_preorder_number] at hi
  exact ⟨_, List.getElem?_eq_getElem hi⟩

theorem exists_node (hp : d.positions[i]? = some p) (cache : Cache) (isArticle : Bool) :
    ∃ n, (Forest.preorder (d.number cache isArticle).1.children)[i]? = some n := by
  have hi := (List.getElem?_eq_some_iff.mp hp).1
  rw [← d.length_preorder_number cache isArticle] at hi
  exact ⟨_, List.getElem?_eq_getElem hi⟩

/-- The node at an index of a numbered document is what the visit of the position there makes. -/
theorem bare_eq_visit (hp : d.positions[i]? = some p)
    (hn : (Forest.preorder (d.number cache isArticle).1.children)[i]? = some n) :
    n.bare = (Numbering.visit cache (Numbering.visits cache (.start isArticle) (d.positions.take i)).2 p).1 := by
  have hbare := congrArg (·[i]?) (d.number_eq_visits cache isArticle).1
  rw [List.getElem?_map, hn, Numbering.getElem?_visits, hp] at hbare
  exact Option.some.inj hbare

theorem number_eq (hp : d.positions[i]? = some p)
    (hn : (Forest.preorder (d.number cache isArticle).1.children)[i]? = some n) :
    n.number = match p.series? isArticle with
      | some series => some ((d.countersAt isArticle (i + 1)).number series)
      | none => p.node.number := by
  have hnumber := congrArg Node.number (bare_eq_visit hp hn)
  rw [Numbering.number_visit, ← Numbering.visits_take_succ cache _ hp] at hnumber
  simp only [Numbering.counters_visits] at hnumber
  rw [Counters.isArticle_run] at hnumber
  exact hnumber

/-- No count goes beyond what 32 bits hold. -/
def HasRoom (d : Document) (isArticle : Bool) : Prop :=
  ∀ (i : Nat) (p : Position) (series : Series), d.positions[i]? = some p → p.series? isArticle = some series →
    (d.countersAt isArticle i).count series + 1 ≠ 0

/-- The number of a series never goes back. -/
theorem parts_countersAt_add (h : d.HasRoom isArticle) (series : Series) (i j : Nat) :
    (d.countersAt isArticle i).parts series = (d.countersAt isArticle (i + j)).parts series ∨
      Earlier ((d.countersAt isArticle i).parts series) ((d.countersAt isArticle (i + j)).parts series) := by
  induction j with
  | zero => exact .inl rfl
  | succ j ih =>
      have hlast : (d.countersAt isArticle (i + j)).parts series = (d.countersAt isArticle (i + j + 1)).parts series ∨
          Earlier ((d.countersAt isArticle (i + j)).parts series)
            ((d.countersAt isArticle (i + j + 1)).parts series) := by
        cases hp : d.positions[i + j]? with
        | none =>
            unfold countersAt
            rw [List.take_add_one, hp, Option.toList_none, List.append_nil]
            exact .inl rfl
        | some p =>
            rw [countersAt_succ hp]
            cases hseries : p.series? isArticle with
            | none => exact .inl rfl
            | some next =>
                refine Counters.parts_step ?_ (h _ _ _ hp hseries) _ _
                rw [isArticle_countersAt]
                exact Position.ne_chapter_of_series? hseries
      rw [← Nat.add_assoc]
      obtain heq | hearlier := ih
      · rwa [heq]
      · obtain heq | hlater := hlast
        · exact .inr (heq ▸ hearlier)
        · exact .inr (hearlier.trans hlater)

/-- While there is room, the numbers of a series go forward, and no two of them are the same. -/
theorem number_ne_number (h : d.HasRoom isArticle) {j : Nat} {q : Position} {m : Node} {series : Series} (hij : i < j)
    (hp : d.positions[i]? = some p) (hpseries : p.series? isArticle = some series)
    (hn : (Forest.preorder (d.number cache isArticle).1.children)[i]? = some n)
    (hq : d.positions[j]? = some q) (hqseries : q.series? isArticle = some series)
    (hm : (Forest.preorder (d.number cache isArticle).1.children)[j]? = some m) :
    n.number ≠ m.number := by
  have hchapter := Position.ne_chapter_of_series? hpseries
  have hself : series ∈ series.components isArticle := Series.mem_components.mpr ⟨.inr rfl, hchapter⟩
  have hstep : Earlier ((d.countersAt isArticle j).parts series) ((d.countersAt isArticle (j + 1)).parts series) := by
    rw [countersAt_succ hq, hqseries]
    exact Counters.parts_earlier_step (by rwa [isArticle_countersAt]) (h j q series hq hqseries) _
  have hforward : Earlier ((d.countersAt isArticle (i + 1)).parts series)
      ((d.countersAt isArticle (j + 1)).parts series) := by
    have hbetween := parts_countersAt_add h series (i + 1) (j - (i + 1))
    rw [Nat.add_sub_cancel' hij] at hbetween
    obtain heq | hearlier := hbetween
    · rwa [heq]
    · exact hearlier.trans hstep
  rw [number_eq hp hn, number_eq hq hm, hpseries, hqseries]
  intro heq
  rw [Option.some.injEq, Counters.number_eq_dotted (by rwa [isArticle_countersAt]),
    Counters.number_eq_dotted (by rwa [isArticle_countersAt])] at heq
  rw [Text.dotted_injective heq] at hforward
  exact not_earlier_self _ hforward

end Document

end Manuscript
