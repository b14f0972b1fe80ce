import Mathlib.Data.List.Perm.Basic
import Mathlib.Data.List.Sublists
import Manuscript.Proofs.Cache.Parts
import Manuscript.Proofs.Cache.WriteOnce

/-!
Taking the tokens of labels out of a text.  They are looked for label by label and erased label by label, in an order that
is nowhere fixed.

Main statement: where the tokens act as markers, what is left is the text around them, and the labels come in the order of
their tokens, whatever the order of the table (`takeLabels_build`).
-/

namespace Manuscript

/-- The token that a part is. -/
def Part.mark? : Part → Option Text
  | .token t => some t
  | .character _ => none

namespace Draft

/-- The text around the tokens. -/
def around (d : Draft) : Text :=
  d.flatMap fun
    | .character c => [c]
    | .token _ => []

/-- The tokens in their order. -/
def marks (d : Draft) : List Text := d.filterMap Part.mark?

/-- The draft without some of its tokens. -/
def without (d : Draft) (erased : List Text) : Draft := d.filter fun p => ∀ token ∈ erased, p ≠ .token token

variable {d : Draft} {erased : List Text} {token : Text}

@[simp] theorem without_nil (d : Draft) : d.without [] = d := by
  simp [without]

/-- One more token is erased by putting nothing in its place. -/
theorem put_without (d : Draft) (erased : List Text) (token : Text) :
    (d.without erased).put token [] = d.without (erased ++ [token]) := by
  rw [put_nil_eq_filter, without, without, List.filter_filter]
  refine List.filter_congr fun p _ => ?_
  rw [← Bool.decide_and, decide_eq_decide, List.forall_mem_append, List.forall_mem_singleton, and_comm]

/-- Without any tokens nothing is left but the text around them. -/
theorem text_without (h : ∀ token, .token token ∈ d → token ∈ erased) : (d.without erased).text = d.around := by
  induction d with
  | nil => rfl
  | cons p d ih =>
      have hrest := ih fun token htoken => h token (List.mem_cons_of_mem p htoken)
      cases p with
      | character c =>
          have hkept : without (.character c :: d) erased = .character c :: without d erased :=
            List.filter_cons_of_pos (decide_eq_true fun _ _ => nofun)
          rw [hkept, text_cons, hrest]
          rfl
      | token t =>
          have herased : without (.token t :: d) erased = without d erased :=
            List.filter_cons_of_neg (by simpa using h t List.mem_cons_self)
          rw [herased, hrest]
          rfl

theorem without_congr {erased' : List Text} (h : ∀ token, .token token ∈ d → (token ∈ erased ↔ token ∈ erased')) :
    d.without erased = d.without erased' := by
  refine List.filter_congr fun p hp => decide_eq_decide.mpr ?_
  cases p with
  | character _ => simp
  | token token =>
      have hkept (l : List Text) : (∀ t ∈ l, Part.token token ≠ .token t) ↔ token ∉ l := by simp [List.forall_mem_ne]
      rw [hkept, hkept, h token hp]

theorem mem_marks : token ∈ d.marks ↔ .token token ∈ d := by
  refine ⟨fun h => ?_, fun h => List.mem_filterMap.mpr ⟨_, h, rfl⟩⟩
  obtain ⟨p, hp, hmark⟩ := List.mem_filterMap.mp h
  cases p with
  | character _ => cases hmark
  | token t =>
      obtain rfl := Option.some.inj hmark
      exact hp

theorem around_eq_text (h : d.marks = []) : d.around = d.text := by
  have htext : (d.without []).text = d.around := text_without fun token htoken => by rwa [← h, mem_marks]
  rw [← htext, without_nil]

end Draft

namespace Cache

variable {c : Cache} {d : Draft} {labels : List (Text × Text)}

/-- The label that a part of a draft is the token of. -/
def partLabel? (c : Cache) (p : Part) : Option Text := p.mark?.bind c.label?

@[simp] theorem partLabel?_character (c : Cache) (ch : Char) : c.partLabel? (.character ch) = none := rfl

@[simp] theorem partLabel?_token (c : Cache) (token : Text) : c.partLabel? (.token token) = c.label? token := rfl

/-- The labels whose tokens stand in a draft, in the order of the tokens. -/
def labelsIn (c : Cache) (d : Draft) : List Text := d.filterMap c.partLabel?

/-- The tokens of labels can be told from what is around them: whichever of them have been erased, the others occur only
where they were put. -/
def MarksLabels (c : Cache) (d : Draft) : Prop :=
  ∀ erased, ∀ l ∈ c.labels, l.1 ∉ erased → (d.without erased).OccursAsPut l.1

/-- Whether the tokens of labels act as markers can be found out by erasing those of some labels. -/
theorem marksLabels_of_sublists (hd : ∀ token ∈ d.marks, token ∈ c.labels.map Prod.fst)
    (h : ∀ erased ∈ (c.labels.map Prod.fst).sublists, ∀ l ∈ c.labels, l.1 ∉ erased → (d.without erased).OccursAsPut l.1) :
    c.MarksLabels d := by
  intro erased l hl hfresh
  have hwithout : d.without erased = d.without ((c.labels.map Prod.fst).filter (· ∈ erased)) :=
    Draft.without_congr fun token htoken => by simp [hd token (Draft.mem_marks.mpr htoken)]
  rw [hwithout]
  exact h _ (List.mem_sublists.mpr List.filter_sublist) l hl (by simp [hfresh])

/-- Each token stands for one label. -/
theorem map_label?_marks (hd : ∀ token, .token token ∈ d → (c.label? token).isSome) :
    d.marks.map c.label? = (c.labelsIn d).map some := by
  induction d with
  | nil => rfl
  | cons p d ih =>
      have hrest := ih fun token htoken => hd token (List.mem_cons_of_mem p htoken)
      cases p with
      | character _ => exact hrest
      | token token =>
          obtain ⟨label, hlabel⟩ := Option.isSome_iff_exists.mp (hd token List.mem_cons_self)
          have hmarks : Draft.marks (.token token :: d) = token :: Draft.marks d := rfl
          have hlabels : c.labelsIn (.token token :: d) = label :: c.labelsIn d := List.filterMap_cons_some hlabel
          rw [hmarks, hlabels, List.map_cons, List.map_cons, hlabel, hrest]

/-- The labels with the places of their tokens, the first part standing at the given place. -/
def placed (c : Cache) : (position : Nat) → Draft → List (Nat × Text)
  | _, [] => []
  | position, p :: d => ((c.partLabel? p).map fun label => (position, label)).toList ++ placed c (position + p.text.length) d

theorem map_snd_placed (c : Cache) (position : Nat) (d : Draft) : (c.placed position d).map Prod.snd = c.labelsIn d := by
  induction d generalizing position with
  | nil => rfl
  | cons p d ih =>
      rw [placed, List.map_append, ih, labelsIn, labelsIn, List.filterMap_cons]
      cases c.partLabel? p <;> rfl

theorem le_of_mem_placed {position : Nat} {found : Nat × Text} (h : found ∈ c.placed position d) : position ≤ found.1 := by
  induction d generalizing position with
  | nil => cases h
  | cons p d ih =>
      rcases List.mem_append.mp h with hhead | hlater
      · obtain ⟨label, -, rfl⟩ := Option.map_eq_some_iff.mp (Option.mem_toList.mp hhead)
        exact Nat.le_refl position
      · exact Nat.le_trans (Nat.le_add_right _ _) (ih hlater)

/-- Tokens stand one behind the other. -/
theorem pairwise_placed (hne : ∀ token, .token token ∈ d → token ≠ []) (position : Nat) :
    (c.placed position d).Pairwise fun a b => a.1 < b.1 := by
  induction d generalizing position with
  | nil => exact .nil
  | cons p d ih =>
      have hrest := ih (fun token htoken => hne token (List.mem_cons_of_mem p htoken)) (position + p.text.length)
      rw [placed]
      cases hlabel : c.partLabel? p with
      | none => exact hrest
      | some label =>
          refine List.pairwise_cons.mpr ⟨fun found hfound => ?_, hrest⟩
          have hle := le_of_mem_placed hfound
          cases p with
          | character _ => simp at hlabel
          | token token =>
              have hpositive : 0 < (Part.token token).text.length :=
                List.length_pos_iff.mpr (hne token List.mem_cons_self)
              exact Nat.lt_of_lt_of_le (Nat.lt_add_of_pos_right hpositive) hle

/-- A token of a table without repetitions has one row. -/
theorem flatMap_row {β : Type} {l : Text × Text} (hnodup : (labels.map Prod.fst).Nodup) (hl : l ∈ labels)
    (give : Text × Text → List β) : (labels.flatMap fun m => if l.1 = m.1 then give m else []) = give l := by
  induction labels with
  | nil => cases hl
  | cons m labels ih =>
      obtain ⟨hm, hrest⟩ := List.nodup_cons.mp hnodup
      rw [List.flatMap_cons]
      rcases List.mem_cons.mp hl with rfl | hl
      · have hnone : (labels.flatMap fun m => if l.1 = m.1 then give m else []) = [] := by
          refine List.flatMap_eq_nil_iff.mpr fun m hmem => if_neg fun heq => hm ?_
          rw [heq]
          exact List.mem_map_of_mem hmem
        rw [if_pos rfl, hnone, List.append_nil]
      · have hne : l.1 ≠ m.1 := fun heq => hm (heq ▸ List.mem_map_of_mem hl)
        rw [if_neg hne, ih hrest hl, List.nil_append]

/-- The places of the tokens, label by label, are those of the tokens in the draft. -/
theorem perm_placed (hc : (c.labels.map Prod.fst).Nodup) (hd : ∀ token, .token token ∈ d → token ∈ c.labels.map Prod.fst)
    (hlabel : ∀ l ∈ c.labels, c.label? l.1 = some l.2) (position : Nat) :
    (c.labels.flatMap fun l => (Draft.places l.1 position d).map fun place => (place, l.2)).Perm (c.placed position d) := by
  induction d generalizing position with
  | nil => simp [Draft.places, placed]
  | cons p d ih =>
      have hrest := ih (fun token htoken => hd token (List.mem_cons_of_mem p htoken)) (position + p.text.length)
      have hsplit (l : Text × Text) : (Draft.places l.1 position (p :: d)).map (fun place => (place, l.2)) =
          (if p = .token l.1 then [(position, l.2)] else []) ++
            (Draft.places l.1 (position + p.text.length) d).map fun place => (place, l.2) := by
        rw [Draft.places]
        split <;> rfl
      have hhead : (c.labels.flatMap fun l => if p = .token l.1 then [(position, l.2)] else []) =
          ((c.partLabel? p).map fun label => (position, label)).toList := by
        cases p with
        | character _ => simp
        | token token =>
            obtain ⟨l, hl, rfl⟩ := List.mem_map.mp (hd token List.mem_cons_self)
            simp only [Part.token.injEq, partLabel?_token, hlabel l hl]
            exact flatMap_row hc hl fun m => [(position, m.2)]
      simp only [hsplit]
      rw [placed, ← hhead]
      exact (List.flatMap_append_perm _ _ _).symm.trans (hrest.append_left _)

/-- The labels are sorted by the places of their tokens. -/
theorem mergeSort_eq_placed (hne : ∀ token, .token token ∈ d → token ≠ []) {found : List (Nat × Text)} {position : Nat}
    (h : found.Perm (c.placed position d)) : (found.mergeSort fun a b => a.1 ≤ b.1) = c.placed position d := by
  have hstrict := pairwise_placed (c := c) hne position
  have hinj : ∀ a ∈ c.placed position d, ∀ b ∈ c.placed position d, a.1 = b.1 → a = b := by
    refine List.inj_on_of_nodup_map ?_
    exact List.pairwise_map.mpr (hstrict.imp Nat.ne_of_lt)
  have hperm := (List.mergeSort_perm found fun a b => a.1 ≤ b.1).trans h
  have hsorted : (found.mergeSort fun a b => a.1 ≤ b.1).Pairwise fun a b => a.1 ≤ b.1 := by
    have h : (found.mergeSort fun a b => a.1 ≤ b.1).Pairwise fun a b => decide (a.1 ≤ b.1) = true :=
      List.pairwise_mergeSort (fun a b c hab hbc => by simp only [decide_eq_true_eq] at *; omega)
        (fun a b => by simp; omega) found
    simpa using h
  refine hperm.eq_of_pairwise (fun a b ha hb hab hba => ?_) hsorted (hstrict.imp Nat.le_of_lt)
  exact hinj a (hperm.subset ha) b hb (Nat.le_antisymm hab hba)

/-- Looking for the tokens finds the places that they were put at. -/
theorem foundLabels_text (hne : ∀ l ∈ c.labels, l.1 ≠ []) (hmarks : c.MarksLabels d) :
    c.foundLabels d.text = c.labels.flatMap fun l => (Draft.places l.1 0 d).map fun place => (place, l.2) := by
  refine List.flatMap_congr fun l hl => ?_
  have hoccurs := hmarks [] l hl List.not_mem_nil
  rw [Draft.without_nil] at hoccurs
  simp only [Draft.occurrences_text (hne l hl) hoccurs]

/-- Erasing tokens from the text, one label after the other, erases them from the draft. -/
theorem replaceLabels_text (hne : ∀ l ∈ c.labels, l.1 ≠ []) (hmarks : c.MarksLabels d) {erased : List Text}
    (hlabels : labels ⊆ c.labels) (hnodup : (labels.map Prod.fst).Nodup) (hfresh : ∀ l ∈ labels, l.1 ∉ erased) :
    replaceLabels (fun _ => []) labels (d.without erased).text = (d.without (erased ++ labels.map Prod.fst)).text := by
  induction labels generalizing erased with
  | nil => rw [List.map_nil, List.append_nil]; rfl
  | cons l labels ih =>
      obtain ⟨hl, hrest⟩ := List.cons_subset.mp hlabels
      obtain ⟨hnew, hnodup⟩ := List.nodup_cons.mp hnodup
      obtain ⟨hlfresh, hfresh⟩ := List.forall_mem_cons.mp hfresh
      have herase : Text.replaceAll l.1 [] (d.without erased).text = (d.without (erased ++ [l.1])).text := by
        rw [← Draft.put_without]
        exact Draft.replaceAll_text (hne l hl) (hmarks erased l hl hlfresh) []
      have hlater : ∀ m ∈ labels, m.1 ∉ erased ++ [l.1] := by
        intro m hm hmem
        rcases List.mem_append.mp hmem with hold | hsame
        · exact hfresh m hm hold
        · exact hnew (List.mem_singleton.mp hsame ▸ List.mem_map_of_mem hm)
      rw [replaceLabels, List.foldl_cons, herase]
      exact (ih hrest hnodup hlater).trans (by rw [List.append_assoc]; rfl)

/-- Where the tokens of labels act as markers, taking them out parts a text from its labels, in whatever order they are
looked for. -/
theorem takeLabels_build {salt : Text} {calls : List Call} {c : Cache} {d : Draft}
    (hlabels : c.labels.Perm (build salt calls).labels)
    (hd : ∀ token ∈ d.marks, token ∈ (build salt calls).labels.map Prod.fst)
    (hmarks : (build salt calls).MarksLabels d) :
    ∃ labels, d.marks.map (build salt calls).label? = labels.map some ∧ c.takeLabels d.text = (d.around, labels) ∧
      (d.marks = [] → c.takeLabels d.text = (d.text, [])) := by
  have hb := unrepeated_build salt calls
  have hne := ne_nil_of_mem_labels_build salt calls
  have hlabel (l : Text × Text) (hl : l ∈ (build salt calls).labels) : (build salt calls).label? l.1 = some l.2 :=
    hb.label?_of_mem hl
  have hput (token : Text) (htoken : .token token ∈ d) : ∃ l ∈ (build salt calls).labels, l.1 = token :=
    List.mem_map.mp (hd token (Draft.mem_marks.mpr htoken))
  have hlabelled : d.marks.map (build salt calls).label? = ((build salt calls).labelsIn d).map some := by
    refine map_label?_marks fun token htoken => ?_
    obtain ⟨l, hl, rfl⟩ := hput token htoken
    exact Option.isSome_of_eq_some (hlabel l hl)
  have htaken : c.takeLabels d.text = (d.around, (build salt calls).labelsIn d) := by
    have hdne : ∀ token, .token token ∈ d → token ≠ [] := by
      intro token htoken
      obtain ⟨l, hl, rfl⟩ := hput token htoken
      exact hne l hl
    have hfound : (c.foundLabels d.text).Perm ((build salt calls).placed 0 d) := by
      have hplaces := perm_placed hb.labels (fun token htoken => List.mem_map.mpr (hput token htoken)) hlabel 0
      rw [← foundLabels_text hne hmarks] at hplaces
      exact (hlabels.flatMap_right _).trans hplaces
    have hfirsts : (c.labels.map Prod.fst).Perm ((build salt calls).labels.map Prod.fst) := hlabels.map Prod.fst
    have hfresh : ∀ l ∈ c.labels, l.1 ∉ ([] : List Text) := fun _ _ => List.not_mem_nil
    have herased := replaceLabels_text hne hmarks hlabels.subset (hfirsts.nodup_iff.mpr hb.labels) hfresh
    rw [Draft.without_nil, List.nil_append,
      Draft.text_without fun token htoken => hfirsts.mem_iff.mpr (hd token (Draft.mem_marks.mpr htoken))] at herased
    rw [takeLabels, herased, mergeSort_eq_placed hdne hfound, map_snd_placed]
  refine ⟨_, hlabelled, htaken, fun hnone => ?_⟩
  rw [hnone, List.map_nil, eq_comm, List.map_eq_nil_iff] at hlabelled
  rw [htaken, hlabelled, Draft.around_eq_text hnone]

end Cache

namespace TwoLabels

/-- Calls that give two labels their tokens. -/
def calls : List Call := [.label "eq:a", .label "eq:b"]

/-- The token of the first label. -/
def a : Part := .token ((Call.label "eq:a").token "s")

/-- The token of the second label. -/
def b : Part := .token ((Call.label "eq:b").token "s")

/-- A text with the second token between two occurrences of the first. -/
def draft : Draft := Draft.plain "x = " ++ [a] ++ Draft.plain "y" ++ [b, a] ++ Draft.plain "."

theorem marksLabels : (Cache.build "s" calls).MarksLabels draft := by
  refine Cache.marksLabels_of_sublists (by decide +kernel) fun erased herased l hl hfresh => ?_
  refine (Draft.occursAsPut_iff (Cache.ne_nil_of_mem_labels_build "s" calls l hl)).mpr ?_
  revert erased l
  decide +kernel

/-- Taking the labels out by a table that holds the second label first. -/
theorem takeLabels_reversed :
    let c := Cache.build "s" calls
    c.reversed.labels.Perm c.labels ∧ c.reversed.labels ≠ c.labels ∧
      (∀ token ∈ draft.marks, token ∈ c.labels.map Prod.fst) ∧ c.MarksLabels draft ∧
      c.reversed.takeLabels draft.text = (draft.around, [("eq:a" : Text), "eq:b", "eq:a"]) := by
  intro c
  have hput : ∀ token ∈ draft.marks, token ∈ c.labels.map Prod.fst := by decide +kernel
  obtain ⟨labels, hlabels, htaken, -⟩ := Cache.takeLabels_build c.labels_reversed_perm hput marksLabels
  have hmarks : draft.marks.map c.label? = [("eq:a" : Text), "eq:b", "eq:a"].map some := by decide +kernel
  obtain rfl : labels = [("eq:a" : Text), "eq:b", "eq:a"] :=
    (List.map_inj_right fun _ _ => Option.some.inj).mp (hlabels.symm.trans hmarks)
  exact ⟨c.labels_reversed_perm, by decide +kernel, hput, marksLabels, htaken⟩

end TwoLabels

end Manuscript
