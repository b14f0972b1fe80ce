import Mathlib.Data.List.Nodup
import Mathlib.Data.List.Perm.Subperm
import Manuscript.Document.Parser
import Manuscript.Proofs.Numbering.Counts
import Manuscript.Proofs.Text.Trim

/-!
The ids that numbering gives to headings and floats, in a document in which nothing has an id or a label.

The id of what is counted is the word for its series with its number; the id of any other heading is made of its title
and is not in use before.  So two ids are the same only if a heading has been given the id that something counted after
it is due, or if a series has come to a number twice.

Main statement: `isAnchored_number`.
-/

namespace Manuscript

theorem toLower_ne_hyphen {c : Char} (h : c ≠ '-') : c.toLower ≠ '-' := by
  intro heq
  unfold Char.toLower at heq
  split at heq
  · rename_i hcapital
    have hfirst : 65 ≤ c.val.toNat := UInt32.le_iff_toNat_le.mp hcapital.1
    have hlast : c.val.toNat ≤ 90 := UInt32.le_iff_toNat_le.mp hcapital.2
    have hval : (c.val.toNat + 32) % 2 ^ 32 = 45 := congrArg Char.toNat heq
    omega
  · exact h heq

theorem ofNat_ne_hyphen {n : Nat} (h : 45 < n) : Char.ofNat n ≠ '-' := by
  intro heq
  by_cases hvalid : n.isValidChar
  · have hchar : Char.ofNat n = Char.ofNatAux n hvalid := dif_pos hvalid
    have hval : n = 45 := congrArg Char.toNat (hchar.symm.trans heq)
    omega
  · have hchar : Char.ofNat n = Char.mk 0 (by decide) := dif_neg hvalid
    exact absurd (hchar.symm.trans heq) (by decide)

theorem hyphen_not_mem_lowerChar {c : Char} (h : c ≠ '-') : '-' ∉ lowerChar c := by
  have hstretches : ∀ s ∈ capitalStretches, 45 < s.first + s.distance := by decide +kernel
  intro hmem
  simp only [lowerChar] at hmem
  split at hmem
  · exact toLower_ne_hyphen h (List.mem_singleton.mp hmem).symm
  · split at hmem
    · revert hmem
      decide
    · split at hmem
      · rename_i s hfound
        have hfirst := List.find?_some hfound
        have hstretch := hstretches s (List.mem_of_find?_eq_some hfound)
        simp only [Bool.and_eq_true, decide_eq_true_eq] at hfirst
        refine ofNat_ne_hyphen ?_ (List.mem_singleton.mp hmem).symm
        omega
      · exact h (List.mem_singleton.mp hmem).symm

/-- Two texts that are parted by a hyphen are parted by their first one. -/
theorem append_hyphen_inj {s s' t t' : Text} (hs : '-' ∉ s) (hs' : '-' ∉ s')
    (h : s ++ "-" ++ t = s' ++ "-" ++ t') : s = s' ∧ t = t' := by
  rw [List.append_assoc, List.append_assoc] at h
  exact Text.append_cons_inj hs hs' h

namespace Series

theorem hyphen_not_mem_word (series : Series) : '-' ∉ series.word := by
  cases series with
  | heading level => cases level <;> decide
  | float kind => cases kind <;> decide

theorem word_injective : Function.Injective word := by
  rintro ((_ | _ | _ | _) | (_ | _ | _ | _ | _)) ((_ | _ | _ | _) | (_ | _ | _ | _ | _)) <;> decide

/-- With hyphens for its points, a text that had no hyphen can be read back. -/
theorem map_hyphen_injective {s t : Text} (hs : '-' ∉ s) (ht : '-' ∉ t)
    (h : (s.map fun c => if c = '.' then '-' else c) = t.map fun c => if c = '.' then '-' else c) : s = t := by
  have hback : ∀ t : Text, '-' ∉ t →
      (t.map fun c => if c = '.' then '-' else c).map (fun c => if c = '-' then '.' else c) = t := by
    intro t ht
    rw [List.map_map]
    conv_rhs => rw [← List.map_id t]
    refine List.map_congr_left fun c hc => ?_
    have hne : c ≠ '-' := fun heq => ht (heq ▸ hc)
    by_cases hpoint : c = '.'
    · simp [hpoint]
    · simp [hpoint, hne]
  rw [← hback s hs, h, hback t ht]

theorem map_hyphen_eq_self {t : Text} (h : '-' ∉ t.map fun c => if c = '.' then '-' else c) :
    (t.map fun c => if c = '.' then '-' else c) = t := by
  conv_rhs => rw [← List.map_id t]
  refine List.map_congr_left fun c hc => if_neg ?_
  rintro rfl
  exact h (List.mem_map.mpr ⟨'.', hc, rfl⟩)

theorem anchor_injective {series other : Series} {number number' : Text} (h : '-' ∉ number) (h' : '-' ∉ number')
    (heq : series.anchor number = other.anchor number') : series = other ∧ number = number' := by
  obtain ⟨hword, hmarks⟩ := append_hyphen_inj series.hyphen_not_mem_word other.hyphen_not_mem_word heq
  exact ⟨word_injective hword, map_hyphen_injective h h' hmarks⟩

end Series

namespace Numbering

/-- A slug holds no hyphen. -/
theorem hyphen_not_mem_slug (title : Text) : '-' ∉ slug title := by
  intro hmem
  obtain ⟨c, hc, hmem⟩ := List.mem_flatMap.mp hmem
  have hkept := (List.mem_filter.mp hc).2
  refine hyphen_not_mem_lowerChar ?_ hmem
  rintro rfl
  revert hkept
  decide +kernel

theorem nodup_candidates (ids : List Text) (base : Text) : (candidates ids base).Nodup := by
  refine List.nodup_cons.mpr ⟨?_, List.Nodup.map ?_ List.nodup_range⟩
  · intro hmem
    obtain ⟨n, -, heq⟩ := List.mem_map.mp hmem
    have hlength := congrArg List.length heq
    simp at hlength
  · intro m n heq
    have hnumeral := Text.ofNat_injective (List.append_cancel_left heq)
    omega

/-- There are more ids to try than are in use. -/
theorem exists_find?_candidates (ids : List Text) (base : Text) :
    ∃ id, (candidates ids base).find? (fun id => id ∉ ids) = some id := by
  rw [← Option.isSome_iff_exists, List.find?_isSome]
  by_contra! hnone
  have hsubset : candidates ids base ⊆ ids := by
    intro id hid
    simpa using hnone id hid
  have hlength := (List.subperm_of_subset (nodup_candidates ids base) hsubset).length_le
  simp only [candidates, List.length_cons, List.length_map, List.length_range] at hlength
  omega

theorem freshId_not_mem (ids : List Text) (base : Text) : freshId ids base ∉ ids := by
  obtain ⟨id, hid⟩ := exists_find?_candidates ids base
  rw [freshId, hid]
  simpa using List.find?_some hid

theorem freshId_eq (ids : List Text) (base : Text) :
    freshId ids base = base ∨ ∃ k, freshId ids base = base ++ "-" ++ Text.ofNat (k + 2) := by
  obtain ⟨id, hid⟩ := exists_find?_candidates ids base
  rw [freshId, hid]
  obtain heq | hmem := List.mem_cons.mp (List.mem_of_find?_eq_some hid)
  · exact .inl heq
  · obtain ⟨k, -, heq⟩ := List.mem_map.mp hmem
    exact .inr ⟨k, heq.symm⟩

/-- A fresh id is that of something counted only if it is made of the word for the series, and what has been added to it
is the whole number. -/
theorem freshId_eq_anchor_iff {ids : List Text} {base number : Text} {series : Series} (hbase : '-' ∉ base) :
    freshId ids base = series.anchor number ↔
      base = series.word ∧ freshId ids base = series.word ++ "-" ++ number := by
  have hhyphen : ∀ t, '-' ∈ series.word ++ "-" ++ t := fun t =>
    List.mem_append_left t (List.mem_append_right series.word (List.mem_singleton.mpr rfl))
  obtain hfresh | ⟨k, hfresh⟩ := freshId_eq ids base
  · rw [hfresh]
    constructor
    · intro heq
      exact absurd (heq ▸ hhyphen _) hbase
    · rintro ⟨-, heq⟩
      exact absurd (heq ▸ hhyphen _) hbase
  · rw [hfresh, Series.anchor]
    have hpoint : ∀ c ∈ Text.ofNat (k + 2), c ≠ '.' ∧ c ≠ '-' := by
      intro c hc
      have hdigit := Text.isDigit_of_mem_ofNat hc
      constructor <;> (rintro rfl; revert hdigit; decide)
    constructor
    · intro heq
      obtain ⟨hword, hmarks⟩ := append_hyphen_inj hbase series.hyphen_not_mem_word heq
      have hself := Series.map_hyphen_eq_self fun hmem => (hpoint '-' (hmarks ▸ hmem)).2 rfl
      exact ⟨hword, by rw [hword, hmarks, hself]⟩
    · rintro ⟨rfl, heq⟩
      obtain ⟨-, rfl⟩ := append_hyphen_inj hbase hbase heq
      have hself : (Text.ofNat (k + 2)).map (fun c => if c = '.' then '-' else c) = Text.ofNat (k + 2) := by
        conv_rhs => rw [← List.map_id (Text.ofNat (k + 2))]
        exact List.map_congr_left fun c hc => if_neg (hpoint c hc).1
      rw [hself]

end Numbering

theorem Position.hyphen_not_mem_base (cache : Cache) (p : Position) (level : Level) : '-' ∉ p.base cache level := by
  unfold Position.base
  split
  · cases level <;> decide
  · exact Numbering.hyphen_not_mem_slug _

namespace Cache

variable {cache : Cache}

theorem takeLabels_eq_self {t : Text} (h : ∀ l ∈ cache.labels, Text.contains l.1 t = false) :
    cache.takeLabels t = (t, []) := by
  have hrest : replaceLabels (fun _ => []) cache.labels t = t := by
    unfold replaceLabels
    generalize cache.labels = labels at h
    induction labels with
    | nil => rfl
    | cons l labels ih =>
        rw [List.foldl_cons, Text.replaceAll_eq_self (h l List.mem_cons_self)]
        exact ih fun l' hl' => h l' (List.mem_cons_of_mem l hl')
  have hfound : cache.foundLabels t = [] := by
    rw [foundLabels, List.flatMap_eq_nil_iff]
    intro l hl
    rw [List.map_eq_nil_iff]
    exact Text.occurrences_eq_nil (h l hl)
  rw [takeLabels, hrest, hfound, List.mergeSort_nil, List.map_nil]

end Cache

/-- Nothing in a document has an id or a label, and no text in it holds the token of a label. -/
structure Document.IsUnnamed (d : Document) (cache : Cache) : Prop where
  id_eq_none : ∀ n ∈ Forest.preorder d.children, n.attrs.id = none
  label_eq_none : ∀ n ∈ Forest.preorder d.children, n.attrs.label = none
  not_contains : ∀ t ∈ Node.textsIn d.children, ∀ l ∈ cache.labels, Text.contains l.1 t = false

namespace Document

variable {d : Document} {cache : Cache} {isArticle : Bool} {i : Nat} {p : Position} {n : Node}

/-- Where there are no tokens of labels, an equation takes no label over. -/
theorem IsUnnamed.attrs_eq (h : d.IsUnnamed cache) (hp : p ∈ d.positions) :
    (p.attrs cache).id = none ∧ (p.attrs cache).label = none := by
  have hmem := forall_positions (fun _ hn => hn) p hp
  have hid := h.id_eq_none _ hmem
  have hlabel := h.label_eq_none _ hmem
  have hlifted : ∀ equations kind, Numbering.liftedLabel? cache equations kind p.node.children = none := by
    intro equations kind
    unfold Numbering.liftedLabel?
    split
    · rw [List.head?_eq_none_iff, List.flatMap_eq_nil_iff]
      intro t ht
      have hself := Cache.takeLabels_eq_self (h.not_contains t (Forest.textsIn_children_subset hmem ht))
      have hstripped : Numbering.stripped cache equations t = t := by
        unfold Numbering.stripped
        induction equations with
        | zero => rfl
        | succ equations ih => rw [Nat.repeat, ih, hself]
      rw [hstripped, hself]
    · rfl
  unfold Position.attrs
  split
  · refine ⟨hid, ?_⟩
    rw [hlabel, hlifted]
    rfl
  · exact ⟨hid, hlabel⟩

/-- The ids that are in use before the position at an index. -/
def idsAt (d : Document) (cache : Cache) (isArticle : Bool) (i : Nat) : List Text :=
  (Numbering.visits cache (.start isArticle) (d.positions.take i)).2.ids

/-- What is counted has the word for its series and its number as its id; any other heading has one that is not in
use; nothing else has an id.  All these are in use from then on. -/
theorem id_eq (h : d.IsUnnamed cache) (hp : d.positions[i]? = some p)
    (hn : (Forest.preorder (d.number cache isArticle).1.children)[i]? = some n) :
    (n.attrs.id = match p.series? isArticle, p.node.kind with
      | some series, _ => n.number.map series.anchor
      | none, .heading level => some (Numbering.freshId (d.idsAt cache isArticle i) (p.base cache level))
      | none, _ => none) ∧
    d.idsAt cache isArticle (i + 1) = n.attrs.id.toList ++ d.idsAt cache isArticle i := by
  obtain ⟨hid, hlabel⟩ := h.attrs_eq (List.mem_of_getElem? hp)
  have hbare := bare_eq_visit hp hn
  have harticle :
      (Numbering.visits cache (.start isArticle) (d.positions.take i)).2.counters.isArticle = isArticle := by
    rw [Numbering.counters_visits, Counters.isArticle_run]
    rfl
  have hattrs := congrArg Node.attrs hbare
  have hnumber := congrArg Node.number hbare
  simp only [Node.bare] at hattrs hnumber
  unfold idsAt
  rw [Numbering.visits_take_succ cache _ hp, hattrs, hnumber]
  generalize (Numbering.visits cache (.start isArticle) (d.positions.take i)).2 = s at harticle ⊢
  subst harticle
  obtain ⟨series, hseries⟩ | ⟨level, hkind, hseries⟩ | ⟨hkind, hseries⟩ := p.series?_cases s.counters.isArticle
  · rw [hseries, Numbering.visit_of_series hseries]
    simp only [Numbering.anchor, hid, hlabel, Numbering.ids_register]
    exact ⟨rfl, rfl⟩
  · have hattrs : p.attrs cache = p.node.attrs := by simp only [Position.attrs, hkind]
    rw [hattrs] at hid hlabel
    rw [hseries, Numbering.visit_of_heading hkind hseries, hkind]
    simp only [Numbering.anchor, hid, hlabel, Numbering.ids_register]
    exact ⟨rfl, rfl⟩
  · rw [hseries, (Numbering.visit_of_other hkind hseries).2, Numbering.id_visit_of_other hkind hseries hid hlabel]
    refine ⟨?_, rfl⟩
    split <;> simp_all

theorem id_of_series (h : d.IsUnnamed cache) {series : Series} (hp : d.positions[i]? = some p)
    (hseries : p.series? isArticle = some series)
    (hn : (Forest.preorder (d.number cache isArticle).1.children)[i]? = some n) :
    ∃ number, n.number = some number ∧ '-' ∉ number ∧ n.attrs.id = some (series.anchor number) := by
  have hchapter := Position.ne_chapter_of_series? hseries
  have hid := (id_eq h hp hn).1
  have hnumber : n.number = some ((d.countersAt isArticle (i + 1)).number series) := by
    rw [number_eq hp hn, hseries]
  rw [hseries] at hid
  rw [Counters.number_eq_dotted (by rwa [isArticle_countersAt])] at hnumber
  refine ⟨_, hnumber, ?_, by rw [hid, hnumber]; rfl⟩
  intro hmem
  obtain hdigit | hpoint := Text.mem_dotted hmem
  · revert hdigit
    decide
  · revert hpoint
    decide

theorem id_of_heading (h : d.IsUnnamed cache) {level : Level} (hp : d.positions[i]? = some p)
    (hkind : p.node.kind = .heading level) (hseries : p.series? isArticle = none)
    (hn : (Forest.preorder (d.number cache isArticle).1.children)[i]? = some n) :
    n.attrs.id = some (Numbering.freshId (d.idsAt cache isArticle i) (p.base cache level)) := by
  have hid := (id_eq h hp hn).1
  rwa [hseries, hkind] at hid

theorem id_of_other (h : d.IsUnnamed cache) (hp : d.positions[i]? = some p)
    (hkind : ∀ level, p.node.kind ≠ .heading level) (hseries : p.series? isArticle = none)
    (hn : (Forest.preorder (d.number cache isArticle).1.children)[i]? = some n) : n.attrs.id = none := by
  have hid := (id_eq h hp hn).1
  rw [hseries] at hid
  split at hid <;> simp_all

theorem idsAt_subset_succ (h : d.IsUnnamed cache) (i : Nat) :
    d.idsAt cache isArticle i ⊆ d.idsAt cache isArticle (i + 1) := by
  cases hp : d.positions[i]? with
  | none =>
      unfold idsAt
      rw [List.take_add_one, hp, Option.toList_none, List.append_nil]
      exact List.Subset.refl _
  | some p =>
      obtain ⟨n, hn⟩ := exists_node hp cache isArticle
      rw [(id_eq h hp hn).2]
      exact List.subset_append_right _ _

/-- An id stays in use. -/
theorem mem_idsAt (h : d.IsUnnamed cache) (hn : (Forest.preorder (d.number cache isArticle).1.children)[i]? = some n)
    {id : Text} (hid : n.attrs.id = some id) {j : Nat} (hij : i < j) : id ∈ d.idsAt cache isArticle j := by
  induction j, hij using Nat.le_induction with
  | base =>
      obtain ⟨p, hp⟩ := exists_position hn
      rw [(id_eq h hp hn).2, hid]
      exact List.mem_cons_self
  | succ j _ ih => exact idsAt_subset_succ h j ih

/-- A heading that is not counted has been given the id that something counted after it is due: its title is the word
for the series, and what has been added to that is the number. -/
def IsTaken (d : Document) (cache : Cache) (isArticle : Bool) (nodes : List Node) : Prop :=
  ∃ (i j : Nat) (p q : Position) (n m : Node) (level : Level) (series : Series) (number : Text), i < j ∧
    d.positions[i]? = some p ∧ nodes[i]? = some n ∧ d.positions[j]? = some q ∧ nodes[j]? = some m ∧
    p.node.kind = .heading level ∧ p.series? isArticle = none ∧ p.base cache level = series.word ∧
    q.series? isArticle = some series ∧ m.number = some number ∧ n.attrs.id = some (series.word ++ "-" ++ number)

/-- A series has come to a number twice. -/
def IsRepeated (d : Document) (isArticle : Bool) (nodes : List Node) : Prop :=
  ∃ (i j : Nat) (p q : Position) (n m : Node) (series : Series), i < j ∧
    d.positions[i]? = some p ∧ nodes[i]? = some n ∧ d.positions[j]? = some q ∧ nodes[j]? = some m ∧
    p.series? isArticle = some series ∧ q.series? isArticle = some series ∧ n.number = m.number

/-- Two nodes have the same id only if one has taken the id of the other, or if they have the same number. -/
theorem isTaken_or_isRepeated (h : d.IsUnnamed cache) {j : Nat} {q : Position} {m : Node} {id : Text} (hij : i < j)
    (hp : d.positions[i]? = some p)
    (hn : (Forest.preorder (d.number cache isArticle).1.children)[i]? = some n)
    (hq : d.positions[j]? = some q)
    (hm : (Forest.preorder (d.number cache isArticle).1.children)[j]? = some m)
    (hnid : n.attrs.id = some id) (hmid : m.attrs.id = some id) :
    d.IsTaken cache isArticle (Forest.preorder (d.number cache isArticle).1.children) ∨
      d.IsRepeated isArticle (Forest.preorder (d.number cache isArticle).1.children) := by
  obtain ⟨series, hqseries⟩ | ⟨level, hkind, hqseries⟩ | ⟨hkind, hqseries⟩ := q.series?_cases isArticle
  · obtain ⟨number, hnumber, hhyphen, hid⟩ := id_of_series h hq hqseries hm
    obtain rfl := Option.some.inj (hmid.symm.trans hid)
    obtain ⟨other, hpseries⟩ | ⟨level, hkind, hpseries⟩ | ⟨hkind, hpseries⟩ := p.series?_cases isArticle
    · obtain ⟨number', hnumber', hhyphen', hid'⟩ := id_of_series h hp hpseries hn
      obtain ⟨rfl, rfl⟩ := Series.anchor_injective hhyphen hhyphen' (Option.some.inj (hnid.symm.trans hid'))
      exact .inr ⟨i, j, p, q, n, m, series, hij, hp, hn, hq, hm, hpseries, hqseries, hnumber'.trans hnumber.symm⟩
    · have hid' := id_of_heading h hp hkind hpseries hn
      obtain ⟨hword, hfresh⟩ := (Numbering.freshId_eq_anchor_iff (p.hyphen_not_mem_base cache level)).mp
        (Option.some.inj (hid'.symm.trans hnid))
      exact .inl ⟨i, j, p, q, n, m, level, series, number, hij, hp, hn, hq, hm, hkind, hpseries, hword,
        hqseries, hnumber, hid'.trans (congrArg some hfresh)⟩
    · cases hnid.symm.trans (id_of_other h hp hkind hpseries hn)
  · -- A heading that is not counted is given an id that is not in use, so that only a later one can clash with it.
    have hfresh := Numbering.freshId_not_mem (d.idsAt cache isArticle j) (q.base cache level)
    rw [← Option.some.inj (hmid.symm.trans (id_of_heading h hq hkind hqseries hm))] at hfresh
    exact absurd (mem_idsAt h hn hnid hij) hfresh
  · cases hmid.symm.trans (id_of_other h hq hkind hqseries hm)

theorem id_eq_id_of_isTaken (h : d.IsUnnamed cache)
    (htaken : d.IsTaken cache isArticle (Forest.preorder (d.number cache isArticle).1.children)) :
    ∃ (i j : Nat) (n m : Node) (id : Text), i < j ∧
      (Forest.preorder (d.number cache isArticle).1.children)[i]? = some n ∧
      (Forest.preorder (d.number cache isArticle).1.children)[j]? = some m ∧
      n.attrs.id = some id ∧ m.attrs.id = some id := by
  obtain ⟨i, j, p, q, n, m, level, series, number, hij, hp, hn, hq, hm, hkind, hpseries, hword, hqseries, hnumber,
    hnid⟩ := htaken
  obtain ⟨number', hnumber', -, hmid⟩ := id_of_series h hq hqseries hm
  obtain rfl := Option.some.inj (hnumber.symm.trans hnumber')
  have hfresh := Option.some.inj ((id_of_heading h hp hkind hpseries hn).symm.trans hnid)
  have hanchor := (Numbering.freshId_eq_anchor_iff (p.hyphen_not_mem_base cache level)).mpr ⟨hword, hfresh⟩
  exact ⟨i, j, n, m, _, hij, hn, hm, hnid, hmid.trans (congrArg some (hanchor.symm.trans hfresh))⟩

theorem id_eq_id_of_isRepeated (h : d.IsUnnamed cache)
    (hrepeated : d.IsRepeated isArticle (Forest.preorder (d.number cache isArticle).1.children)) :
    ∃ (i j : Nat) (n m : Node) (id : Text), i < j ∧
      (Forest.preorder (d.number cache isArticle).1.children)[i]? = some n ∧
      (Forest.preorder (d.number cache isArticle).1.children)[j]? = some m ∧
      n.attrs.id = some id ∧ m.attrs.id = some id := by
  obtain ⟨i, j, p, q, n, m, series, hij, hp, hn, hq, hm, hpseries, hqseries, hsame⟩ := hrepeated
  obtain ⟨number, hnumber, -, hnid⟩ := id_of_series h hp hpseries hn
  obtain ⟨number', hnumber', -, hmid⟩ := id_of_series h hq hqseries hm
  rw [hnumber, hnumber', Option.some.injEq] at hsame
  exact ⟨i, j, n, m, _, hij, hn, hm, hnid, hsame ▸ hmid⟩

/-- The ids are different from each other exactly when no id has been taken and no number has been repeated. -/
theorem nodup_ids_iff (h : d.IsUnnamed cache) (isArticle : Bool) :
    ((Forest.preorder (d.number cache isArticle).1.children).filterMap (·.attrs.id)).Nodup ↔
      ¬d.IsTaken cache isArticle (Forest.preorder (d.number cache isArticle).1.children) ∧
        ¬d.IsRepeated isArticle (Forest.preorder (d.number cache isArticle).1.children) := by
  rw [List.Nodup, List.pairwise_filterMap, List.pairwise_iff_getElem]
  constructor
  · intro hnodup
    have hclash : ¬∃ (i j : Nat) (n m : Node) (id : Text), i < j ∧
        (Forest.preorder (d.number cache isArticle).1.children)[i]? = some n ∧
        (Forest.preorder (d.number cache isArticle).1.children)[j]? = some m ∧
        n.attrs.id = some id ∧ m.attrs.id = some id := by
      rintro ⟨i, j, n, m, id, hij, hn, hm, hnid, hmid⟩
      obtain ⟨hi, rfl⟩ := List.getElem?_eq_some_iff.mp hn
      obtain ⟨hj, rfl⟩ := List.getElem?_eq_some_iff.mp hm
      exact hnodup i j hi hj hij id hnid id hmid rfl
    exact ⟨fun htaken => hclash (id_eq_id_of_isTaken h htaken),
      fun hrepeated => hclash (id_eq_id_of_isRepeated h hrepeated)⟩
  · rintro ⟨htaken, hrepeated⟩ i j hi hj hij id hnid id' hmid rfl
    have hn := List.getElem?_eq_getElem hi
    have hm := List.getElem?_eq_getElem hj
    obtain ⟨p, hp⟩ := exists_position hn
    obtain ⟨q, hq⟩ := exists_position hm
    obtain htaken' | hrepeated' := isTaken_or_isRepeated h hij hp hn hq hm hnid hmid
    · exact htaken htaken'
    · exact hrepeated hrepeated'

theorem not_isRepeated (h : d.HasRoom isArticle) (cache : Cache) :
    ¬d.IsRepeated isArticle (Forest.preorder (d.number cache isArticle).1.children) := by
  rintro ⟨i, j, p, q, n, m, series, hij, hp, hn, hq, hm, hpseries, hqseries, hsame⟩
  exact number_ne_number h hij hp hpseries hn hq hqseries hm hsame

/-- What the ids of some nodes, one for each position of a document, are. -/
structure IsAnchored (d : Document) (cache : Cache) (isArticle : Bool) (nodes : List Node) : Prop where
  /-- What is counted has the word for its series with its number. -/
  id_of_series : ∀ (i : Nat) (p : Position) (n : Node) (series : Series), d.positions[i]? = some p →
    p.series? isArticle = some series → nodes[i]? = some n →
    ∃ number, n.number = some number ∧ n.attrs.id = some (series.anchor number)
  /-- Any other heading has an id that its title gives, with a number from two on if need be, and that is new. -/
  id_of_heading : ∀ (i : Nat) (p : Position) (n : Node) (level : Level), d.positions[i]? = some p →
    p.node.kind = .heading level → p.series? isArticle = none → nodes[i]? = some n →
    ∃ id, n.attrs.id = some id ∧
      (id = p.base cache level ∨ ∃ k, id = p.base cache level ++ "-" ++ Text.ofNat (k + 2)) ∧
      ∀ (j : Nat) (m : Node), j < i → nodes[j]? = some m → m.attrs.id ≠ some id
  id_of_other : ∀ (i : Nat) (p : Position) (n : Node), d.positions[i]? = some p →
    (∀ level, p.node.kind ≠ .heading level) → p.series? isArticle = none → nodes[i]? = some n → n.attrs.id = none
  nodup_iff : (nodes.filterMap (·.attrs.id)).Nodup ↔
    ¬d.IsTaken cache isArticle nodes ∧ ¬d.IsRepeated isArticle nodes
  /-- A number is repeated only after a count has gone beyond 32 bits, -/
  not_isRepeated : d.HasRoom isArticle → ¬d.IsRepeated isArticle nodes
  /-- and that takes a very long document or a number that a float suggests. -/
  hasRoom : (∀ n ∈ Forest.preorder d.children, ∀ kind, n.kind = .float kind → n.attrs.seq = none) →
    d.positions.length < Text.bound32 → d.HasRoom isArticle

/-- Numbering gives ids that are different from each other, unless one is taken before its time or a number is
repeated. -/
theorem isAnchored_number {d : Document} {cache : Cache} (h : d.IsUnnamed cache) (isArticle : Bool) :
    d.IsAnchored cache isArticle (Forest.preorder (d.number cache isArticle).1.children) := by
  constructor
  case id_of_series =>
    intro i p n series hp hseries hn
    obtain ⟨number, hnumber, -, hid⟩ := id_of_series h hp hseries hn
    exact ⟨number, hnumber, hid⟩
  case id_of_heading =>
    intro i p n level hp hkind hseries hn
    refine ⟨_, id_of_heading h hp hkind hseries hn, Numbering.freshId_eq _ _, ?_⟩
    intro j m hj hm hid
    exact Numbering.freshId_not_mem _ _ (mem_idsAt h hm hid hj)
  case id_of_other => exact fun i p n hp hkind hseries hn => id_of_other h hp hkind hseries hn
  case nodup_iff => exact nodup_ids_iff h isArticle
  case not_isRepeated => exact fun hroom => not_isRepeated hroom cache
  case hasRoom => exact fun hseq hlength => hasRoom_of_length_lt (forall_positions hseq) isArticle hlength

end Document

namespace StarredSections

/-- The start of a document: two sections without numbers that are both called section, then one with a number. -/
def start : Text :=
  "<section starred=\"true\"><title>Section</title></section>" ++
  "<section starred=\"true\"><title>Section</title></section><section><title>One</title></section>"

def short : Document := (Document.parse? ("<document>" ++ start ++ "</document>")).get (by decide +kernel)

/-- The same with one more section. -/
def long : Document :=
  (Document.parse? ("<document>" ++ start ++ "<section><title>Two</title></section></document>")).get
    (by decide +kernel)

/-- The ids in a numbered article. -/
def ids (d : Document) : List Text :=
  (Forest.preorder (d.number (.empty "s") true).1.children).filterMap (·.attrs.id)

theorem isUnnamed {d : Document} (hnone : ∀ n ∈ Forest.preorder d.children, n.attrs.id = none ∧ n.attrs.label = none) :
    d.IsUnnamed (.empty "s") :=
  ⟨fun n hn => (hnone n hn).1, fun n hn => (hnone n hn).2, fun _ _ _ hl => absurd hl List.not_mem_nil⟩

theorem ids_short :
    short.IsAnchored (.empty "s") true (Forest.preorder (short.number (.empty "s") true).1.children) ∧
      ids short = ["section", "section-2", "section-1"] :=
  ⟨Document.isAnchored_number (isUnnamed (by decide +kernel)) true, by decide +kernel⟩

/-- The second section with a number is due the id that the second section without one has been given. -/
theorem ids_long : long.IsUnnamed (.empty "s") ∧ ids long = ["section", "section-2", "section-1", "section-2"] ∧
    ¬(ids long).Nodup := by
  have hids : ids long = ["section", "section-2", "section-1", "section-2"] := by decide +kernel
  refine ⟨isUnnamed (by decide +kernel), hids, ?_⟩
  rw [hids]
  decide

end StarredSections

end Manuscript
