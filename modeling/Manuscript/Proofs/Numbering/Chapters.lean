import Manuscript.Proofs.Document.Shape
import Manuscript.Proofs.Numbering.Visits

/-!
The numbers of chapters.  A chapter that is counted is numbered one higher than the last one before it, at whatever
depth the two stand, and no other node has the number of a chapter.

Main statement: the numbered chapters of a parsed document are numbered one after the other (`isChain_chapters`).
-/

namespace Manuscript

open Forest

/-- The numbers of the numbered chapters among some nodes and inside them, in the order of the document. -/
def Forest.chapters (l : List Node) : List UInt32 := (preorder l).filterMap Node.chapterNumber?

namespace Forest

theorem chapters_cons (n : Node) (rest : List Node) :
    chapters (n :: rest) = n.chapterNumber?.toList ++ (chapters n.children ++ chapters rest) := by
  rw [chapters, preorder_cons, List.filterMap_cons, List.filterMap_append]
  cases n.chapterNumber? <;> rfl

theorem chapters_eq_nil {l : List Node} (h : ∀ n ∈ preorder l, n.chapterNumber? = none) : chapters l = [] :=
  List.filterMap_eq_nil_iff.mpr h

end Forest

namespace Counters

theorem chapter_step (c : Counters) (series : Series) (seq : Option Text) :
    (c.step series seq).chapter = if series = .heading .chapter then c.chapter + 1 else c.chapter := by
  cases series with
  | heading level => cases level <;> rfl
  | float kind => rfl

theorem number_chapter (c : Counters) : c.number (.heading .chapter) = Text.ofNat c.chapter.toNat := by
  rw [number, headingNumber, if_neg (fun h => h.2 rfl)]
  exact Text.dotted_singleton _

end Counters

namespace Numbering

theorem chapter_visit (cache : Cache) (s : State) (p : Position) :
    (visit cache s p).2.counters.chapter =
      if p.series? s.counters.isArticle = some (.heading .chapter) then s.counters.chapter + 1
      else s.counters.chapter := by
  rw [counters_visit]
  cases p.series? s.counters.isArticle with
  | none => rfl
  | some series => simp [Counters.chapter_step]

/-- A node without a number becomes a numbered chapter where chapters are counted. -/
theorem chapterNumber?_visit (cache : Cache) (s : State) {p : Position} (hnumber : p.node.number = none) :
    (visit cache s p).1.chapterNumber? =
      if p.series? s.counters.isArticle = some (.heading .chapter) then some (s.counters.chapter + 1) else none := by
  have hvisit := number_visit cache s p
  cases hseries : p.series? s.counters.isArticle with
  | none =>
      rw [hseries] at hvisit
      exact Node.chapterNumber?_of_number (hvisit.trans hnumber)
  | some series =>
      rw [hseries] at hvisit
      have hkind : (visit cache s p).1.kind = series.kind := by
        rw [visit_of_series hseries]
        exact Position.kind_of_series? hseries
      by_cases hchapter : series = .heading .chapter
      · subst hchapter
        have hcount := chapter_visit cache s p
        rw [hseries, if_pos rfl] at hcount
        rw [if_pos rfl, Node.chapterNumber?, hkind, hvisit]
        simp only [Series.kind, Counters.number_chapter, hcount]
        have hread : Text.natBelow? Text.bound32 (Text.ofNat (s.counters.chapter + 1).toNat) = _ :=
          Text.natBelow?_ofNat (UInt32.toNat_lt _)
        rw [hread, Option.map_some, UInt32.ofNat_toNat]
      · rw [if_neg (by simpa using hchapter)]
        refine Node.chapterNumber?_eq_none fun hheading => hchapter ?_
        rw [hheading] at hkind
        cases series with
        | heading level => exact (congrArg Series.heading (Kind.heading.inj hkind)).symm
        | float kind => cases hkind

/-- Chapters are numbered one after the other. -/
theorem isChain_visits (cache : Cache) {ps : List Position} (hps : ∀ p ∈ ps, p.node.number = none) (s : State) :
    (s.counters.chapter :: (visits cache s ps).1.filterMap Node.chapterNumber?).IsChain fun k j => j = k + 1 := by
  induction ps generalizing s with
  | nil => exact .singleton _
  | cons p ps ih =>
      obtain ⟨hp, hps⟩ := List.forall_mem_cons.mp hps
      have hlater := ih hps (visit cache s p).2
      rw [chapter_visit] at hlater
      rw [visits_cons, List.filterMap_cons, chapterNumber?_visit cache s hp]
      split
      · rename_i hnone
        rw [ite_eq_right_iff] at hnone
        rwa [if_neg fun hseries => nomatch hnone hseries] at hlater
      · rename_i j hsome
        split at hsome
        · rename_i hseries
          rw [if_pos hseries] at hlater
          obtain rfl := Option.some.inj hsome
          exact .cons_cons rfl hlater
        · cases hsome

end Numbering

namespace Document

/-- The numbered chapters of a parsed document are numbered one after the other, beginning with 1. -/
theorem isChain_chapters {t : Text} {d : Document} (hparse : parse? t = some d) (cache : Cache) (isArticle : Bool) :
    (0 :: chapters (d.number cache isArticle).1.children).IsChain fun k j => j = k + 1 := by
  have hnumbers : ∀ p ∈ d.positions, p.node.number = none := by
    intro p hp
    have helement (name attributes children) : (nodeOfXml (.element name attributes children)).number = none := by
      rw [nodeOfXml]
    apply forall_preorder_of_parse (P := fun n => n.number = none) (fun _ => rfl) helement hparse
    rw [← map_node_positions [] false]
    exact List.mem_map_of_mem hp
  have hvisits := Numbering.isChain_visits cache hnumbers (.start isArticle)
  rwa [← (d.number_eq_visits cache isArticle).1, List.filterMap_map] at hvisits

end Document

/-- In numbers that go up by one, the first one above `k` is the next one after `k`. -/
theorem toNat_eq_of_find?_chain {k last : UInt32} {l : List UInt32}
    (h : (last :: l).IsChain fun k j => j = k + 1) (hlast : last ≤ k) {j : UInt32}
    (hj : l.find? (fun j => k < j) = some j) : j.toNat = k.toNat + 1 := by
  induction l generalizing last with
  | nil => cases hj
  | cons next l ih =>
      obtain ⟨rfl, hchain⟩ := List.isChain_cons_cons.mp h
      by_cases hnext : k < last + 1
      · rw [List.find?_cons_of_pos (by simpa using hnext)] at hj
        obtain rfl := Option.some.inj hj
        rw [UInt32.le_iff_toNat_le] at hlast
        rw [UInt32.lt_iff_toNat_lt, UInt32.toNat_add] at hnext
        rw [UInt32.toNat_add]
        have hone : (1 : UInt32).toNat = 1 := rfl
        omega
      · rw [List.find?_cons_of_neg (by simpa using hnext)] at hj
        exact ih hchain (UInt32.not_lt.mp hnext) hj

end Manuscript
