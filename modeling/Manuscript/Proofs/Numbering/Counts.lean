import Mathlib.Data.List.DropRight
import Manuscript.Proofs.Numbering.Visits

/-!
Numbers as counts.  What has been counted is a list of series, one for each heading or float that is counted, in the
order of the document.  The count of a series is how often it occurs there since one of the headings above it.

Main statement: in a document in which no float suggests a number, every number is made up of such counts, and the
numbers of a series go forward (`isNumberedByCounts_number`).
-/

namespace Manuscript

namespace Series

/-- How often a series occurs in what has been counted, since one of the headings above it. -/
def countIn (series : Series) (counted : List Series) : Nat :=
  (counted.rtakeWhile fun other => other ∉ series.higher).count series

theorem countIn_concat (series : Series) (counted : List Series) (next : Series) :
    series.countIn (counted ++ [next]) =
      if next ∈ series.higher then 0
      else if next = series then series.countIn counted + 1
      else series.countIn counted := by
  unfold countIn
  rw [List.rtakeWhile_concat]
  by_cases habove : next ∈ series.higher
  · simp [habove]
  · by_cases hself : next = series
    · simp [hself ▸ habove, hself]
    · simp [habove, hself]

theorem countIn_le_length (series : Series) (counted : List Series) : series.countIn counted ≤ counted.length :=
  List.count_le_length.trans (List.rtakeWhile_suffix _ _).length_le

/-- The counts that make up a number in a series. -/
def partsIn (isArticle : Bool) (series : Series) (counted : List Series) : List Nat :=
  (series.components isArticle).map fun part => part.countIn counted

variable {isArticle : Bool} {series next : Series}

theorem partsIn_earlier_concat (h : next ∈ series.components isArticle) (counted : List Series) :
    Earlier (series.partsIn isArticle counted) (series.partsIn isArticle (counted ++ [next])) := by
  apply earlier_map_components h
  · rw [countIn_concat, if_neg next.not_mem_higher_self, if_pos rfl]
    exact Nat.lt_succ_self _
  · intro part hhigher hne
    rw [countIn_concat, if_neg hhigher, if_neg hne]

theorem partsIn_append {later : List Series} (hlater : isArticle → .heading .chapter ∉ later) (series : Series)
    (counted : List Series) :
    series.partsIn isArticle counted = series.partsIn isArticle (counted ++ later) ∨
      Earlier (series.partsIn isArticle counted) (series.partsIn isArticle (counted ++ later)) := by
  induction later generalizing counted with
  | nil => rw [List.append_nil]; exact .inl rfl
  | cons next later ih =>
      have hnext : isArticle → next ≠ .heading .chapter := by
        rintro h rfl
        exact hlater h List.mem_cons_self
      -- Either `next` is a component and takes the number forward, or it is none and starts none of them anew.
      have hrest := ih (fun h hmem => hlater h (List.mem_cons_of_mem next hmem)) (counted ++ [next])
      rw [List.append_assoc, List.singleton_append] at hrest
      by_cases hmem : next ∈ series.components isArticle
      · have hfirst := partsIn_earlier_concat hmem counted
        obtain heq | hearlier := hrest
        · exact .inr (heq ▸ hfirst)
        · exact .inr (hfirst.trans hearlier)
      · have hstay : series.partsIn isArticle (counted ++ [next]) = series.partsIn isArticle counted := by
          apply map_components_eq hmem hnext
          intro part hhigher hne
          rw [countIn_concat, if_neg hhigher, if_neg hne]
        rwa [hstay] at hrest

end Series

/-- Where no float suggests a number, the counters are the counts, in 32 bits. -/
theorem Counters.count_run {isArticle : Bool} {ps : List Position}
    (hseq : ∀ p ∈ ps, ∀ kind, p.node.kind = .float kind → p.node.attrs.seq = none) (series : Series) :
    ((start isArticle).run ps).count series =
      UInt32.ofNat (series.countIn (ps.filterMap (·.series? isArticle))) := by
  induction ps using List.reverseRecOn generalizing series with
  | nil =>
      cases series with
      | heading level => cases level <;> rfl
      | float kind => rfl
  | append_singleton ps p ih =>
      have ih := ih fun q hq => hseq q (List.mem_append_left [p] hq)
      have harticle : ((start isArticle).run ps).isArticle = isArticle := isArticle_run _ _
      rw [run_append, List.filterMap_append]
      generalize (start isArticle).run ps = c at ih harticle ⊢
      simp only [run, List.foldl_cons, List.foldl_nil, harticle]
      cases hseries : p.series? isArticle with
      | none =>
          rw [List.filterMap_cons_none hseries, List.filterMap_nil, List.append_nil]
          exact ih series
      | some next =>
          have hstep : (c.step next p.node.attrs.seq).count next = c.count next + 1 := by
            cases next with
            | heading level => exact c.count_step_self (.heading level)
            | float kind =>
                have hnone := hseq p (by simp) kind (Position.kind_of_series? hseries)
                rw [hnone]
                exact c.count_step_self (.float kind)
          rw [List.filterMap_cons_some hseries, List.filterMap_nil, Series.countIn_concat]
          simp only [count_step, hstep]
          split
          · rfl
          · split
            · rename_i hself
              rw [UInt32.ofNat_add, ← ih, hself]
              rfl
            · exact ih series

namespace Document

/-- What is counted in a document before the position at an index. -/
def counted (d : Document) (isArticle : Bool) (i : Nat) : List Series :=
  (d.positions.take i).filterMap (·.series? isArticle)

/-- The counts that make up the number that something in a series has at an index. -/
def counts (d : Document) (isArticle : Bool) (series : Series) (i : Nat) : List Nat :=
  series.partsIn isArticle (d.counted isArticle (i + 1))

/-- Some nodes, one for each position of a document, are numbered by counting. -/
structure IsNumberedByCounts (d : Document) (isArticle : Bool) (nodes : List Node) : Prop where
  length_eq : nodes.length = d.positions.length
  kind_eq : ∀ (i : Nat) (p : Position) (n : Node), d.positions[i]? = some p → nodes[i]? = some n →
    (∀ t, p.node.kind ≠ .text t) → n.kind = p.node.kind
  /-- Front matter is on inside the nodes of that kind. -/
  isInFront_eq : ∀ p ∈ d.positions, p.isInFront = decide (.frontmatter ∈ p.around)
  /-- What is counted has its counts, kept in 32 bits, as its number, and nothing else gets a number. -/
  number_eq : ∀ (i : Nat) (p : Position) (n : Node), d.positions[i]? = some p → nodes[i]? = some n →
    n.number = match p.series? isArticle with
      | some series => some (Text.dotted ((d.counts isArticle series i).map (· % Text.bound32)))
      | none => p.node.number
  /-- The counts are exact in a document that is not too long for 32 bits. -/
  counts_exact : d.positions.length < Text.bound32 → ∀ (series : Series) (i : Nat),
    (d.counts isArticle series i).map (· % Text.bound32) = d.counts isArticle series i
  /-- The numbers of a series go forward. -/
  earlier : ∀ (series : Series) (i j : Nat) (p q : Position), i < j →
    d.positions[i]? = some p → p.series? isArticle = some series →
    d.positions[j]? = some q → q.series? isArticle = some series →
    Earlier (d.counts isArticle series i) (d.counts isArticle series j)
  /-- So no two of them are the same, unless the document is too long for 32 bits. -/
  number_ne : d.positions.length < Text.bound32 →
    ∀ (series : Series) (i j : Nat) (p q : Position) (n m : Node), i < j →
      d.positions[i]? = some p → p.series? isArticle = some series → nodes[i]? = some n →
      d.positions[j]? = some q → q.series? isArticle = some series → nodes[j]? = some m →
      n.number ≠ m.number

theorem length_counted_le (d : Document) (isArticle : Bool) (i : Nat) :
    (d.counted isArticle i).length ≤ min i d.positions.length := by
  rw [← List.length_take]
  exact List.length_filterMap_le _ _

theorem counted_succ {d : Document} {isArticle : Bool} {i : Nat} {p : Position} {series : Series}
    (hp : d.positions[i]? = some p) (hseries : p.series? isArticle = some series) :
    d.counted isArticle (i + 1) = d.counted isArticle i ++ [series] := by
  rw [counted, List.take_add_one, hp, List.filterMap_append]
  exact congrArg _ (List.filterMap_cons_some hseries)

theorem counted_append (d : Document) (isArticle : Bool) {i j : Nat} (h : i ≤ j) :
    ∃ later, (isArticle → .heading .chapter ∉ later) ∧
      d.counted isArticle j = d.counted isArticle i ++ later := by
  refine ⟨((d.positions.drop i).take (j - i)).filterMap (·.series? isArticle), ?_, ?_⟩
  · intro harticle hmem
    obtain ⟨p, -, hseries⟩ := List.mem_filterMap.mp hmem
    exact Position.ne_chapter_of_series? hseries harticle rfl
  · rw [counted, counted, ← List.filterMap_append, ← List.take_add, Nat.add_sub_cancel' h]

theorem counts_earlier {d : Document} {isArticle : Bool} {i j : Nat} {q : Position} {series : Series} (h : i < j)
    (hq : d.positions[j]? = some q) (hseries : q.series? isArticle = some series) :
    Earlier (d.counts isArticle series i) (d.counts isArticle series j) := by
  obtain ⟨later, hlater, hcounted⟩ := d.counted_append isArticle (Nat.succ_le_of_lt h)
  have hself := Series.mem_components.mpr ⟨.inr rfl, Position.ne_chapter_of_series? hseries⟩
  have hlast := Series.partsIn_earlier_concat hself (d.counted isArticle j)
  rw [counts, counts, counted_succ hq hseries]
  obtain heq | hearlier := Series.partsIn_append hlater series (d.counted isArticle (i + 1))
  · rwa [heq, ← hcounted]
  · exact (hcounted ▸ hearlier).trans hlast

theorem counts_mod {d : Document} (isArticle : Bool) (h : d.positions.length < Text.bound32) (series : Series)
    (i : Nat) : (d.counts isArticle series i).map (· % Text.bound32) = d.counts isArticle series i := by
  have hlength := (d.length_counted_le isArticle (i + 1)).trans (min_le_right _ _)
  calc
    (d.counts isArticle series i).map (· % Text.bound32) = (d.counts isArticle series i).map id := by
      refine List.map_congr_left fun n hn => ?_
      obtain ⟨part, -, rfl⟩ := List.mem_map.mp hn
      exact Nat.mod_eq_of_lt (((part.countIn_le_length _).trans hlength).trans_lt h)
    _ = d.counts isArticle series i := List.map_id _

section

variable {d : Document}

theorem count_countersAt (hseq : ∀ p ∈ d.positions, ∀ kind, p.node.kind = .float kind → p.node.attrs.seq = none)
    (isArticle : Bool) (i : Nat) (series : Series) :
    (d.countersAt isArticle i).count series = UInt32.ofNat (series.countIn (d.counted isArticle i)) :=
  Counters.count_run (fun p hp => hseq p (List.mem_of_mem_take hp)) series

/-- What is counted without suggestions fits into 32 bits, unless the document is too long. -/
theorem hasRoom_of_length_lt
    (hseq : ∀ p ∈ d.positions, ∀ kind, p.node.kind = .float kind → p.node.attrs.seq = none) (isArticle : Bool)
    (h : d.positions.length < Text.bound32) : d.HasRoom isArticle := by
  intro i p series hp hseries hzero
  have hi : i < d.positions.length := (List.getElem?_eq_some_iff.mp hp).1
  have hcount : series.countIn (d.counted isArticle i) ≤ i :=
    (series.countIn_le_length _).trans ((d.length_counted_le isArticle i).trans (min_le_left _ _))
  have hsucc : series.countIn (d.counted isArticle i) + 1 < Text.bound32 := by omega
  have hmod : (UInt32.ofNat (series.countIn (d.counted isArticle i) + 1)).toNat = 0 := by
    rw [UInt32.ofNat_add, ← count_countersAt hseq]
    exact congrArg UInt32.toNat hzero
  rw [UInt32.toNat_ofNat'] at hmod
  exact absurd ((Nat.mod_eq_of_lt hsucc).symm.trans hmod) (Nat.succ_ne_zero _)

theorem number_eq_counts (hseq : ∀ p ∈ d.positions, ∀ kind, p.node.kind = .float kind → p.node.attrs.seq = none)
    {cache : Cache} {isArticle : Bool} {i : Nat} {p : Position} {n : Node} (hp : d.positions[i]? = some p)
    (hn : (Forest.preorder (d.number cache isArticle).1.children)[i]? = some n) :
    n.number = match p.series? isArticle with
      | some series => some (Text.dotted ((d.counts isArticle series i).map (· % Text.bound32)))
      | none => p.node.number := by
  rw [number_eq hp hn]
  cases hseries : p.series? isArticle with
  | none => rfl
  | some series =>
      have hchapter := Position.ne_chapter_of_series? hseries
      simp only [Option.some.injEq]
      rw [Counters.number_eq_dotted (by rwa [isArticle_countersAt]), Counters.parts, isArticle_countersAt, counts,
        Series.partsIn, List.map_map]
      congr 1
      refine List.map_congr_left fun part _ => ?_
      rw [count_countersAt hseq, UInt32.toNat_ofNat']
      rfl

end

/-- When no float suggests a number and no front matter holds main matter, numbering is counting. -/
theorem isNumberedByCounts_number (d : Document) (cache : Cache) (isArticle : Bool)
    (hseq : ∀ n ∈ Forest.preorder d.children, ∀ kind, n.kind = .float kind → n.attrs.seq = none)
    (hfront : ∀ p ∈ d.positions, p.node.kind = .mainmatter → .frontmatter ∉ p.around) :
    d.IsNumberedByCounts isArticle (Forest.preorder (d.number cache isArticle).1.children) := by
  have hseq := forall_positions hseq
  constructor
  case length_eq => exact d.length_preorder_number cache isArticle
  case kind_eq =>
    intro i p n hp hn htext
    rw [← Numbering.kind_visit cache _ htext, ← bare_eq_visit hp hn]
    rfl
  case isInFront_eq => exact (Forest.isInFront_eq (by simp) hfront).2
  case number_eq => exact fun i p n hp hn => number_eq_counts hseq hp hn
  case counts_exact => exact counts_mod isArticle
  case earlier => exact fun series i j p q hij _ _ hq hseries => counts_earlier hij hq hseries
  case number_ne =>
    intro hlength series i j p q n m hij hp hpseries hn hq hqseries hm
    exact number_ne_number (hasRoom_of_length_lt hseq isArticle hlength) hij hp hpseries hn hq hqseries hm

end Document

namespace SkippedLevel

/-- A chapter in front matter, then a chapter in which a subsection stands before the first section. -/
def document : Document :=
  ⟨[.new .frontmatter [.new (.heading .chapter) []],
    .new (.heading .chapter) [.new (.heading .subsect) [.new (.float .figure) []], .new (.heading .sect) []]]⟩

/-- The section that is not there yet counts as zero. -/
theorem numbers_eq :
    document.IsNumberedByCounts false (Forest.preorder (document.number (.empty "s") false).1.children) ∧
      (Forest.preorder (document.number (.empty "s") false).1.children).map Node.number =
        ([none, none, some "1", some "1.0.1", some "1.1", some "1.1"] : List (Option Text)) := by
  have hseq : ∀ n ∈ Forest.preorder document.children, n.attrs.seq = none := by decide +kernel
  have hfront : ∀ p ∈ document.positions, p.node.kind = .mainmatter → .frontmatter ∉ p.around := by decide +kernel
  refine ⟨?_, by decide +kernel⟩
  exact document.isNumberedByCounts_number (.empty "s") false (fun n hn _ _ => hseq n hn) hfront

end SkippedLevel

end Manuscript
