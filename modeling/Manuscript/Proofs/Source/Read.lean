import Manuscript.Proofs.Source.Opacity

/-!
What holds of a passage because it has been read (`Passage.IsRead`), and what of it is enough to read it again.

Main statement: passages of which this holds, hints and code blocks apart, are read as they are (`passages_of_isRead`).
-/

namespace Manuscript.Source

/-- A line by itself that is neither a marker nor an annotation. -/
structure IsOrdinary (line : Text) : Prop where
  hint_eq : hint? line = none
  rawHtml_eq : rawHtml? line = none
  valid : (Segment.plain line).Valid

/-- What holds of a passage that has been read. -/
inductive Passage.IsRead : Passage → Prop
  | hint {line : Text} (hhint : (hint? line).isSome) : IsRead (.hint line)
  | rawHtml {line html : Text} (hhint : hint? line = none) (hhtml : rawHtml? line = some html) :
      IsRead (.rawHtml line html)
  | literal {name first last : Text} {body : List Text} (hname : name = "verbatim" ∨ name = "Verbatim")
      (hblock : (Segment.block name first body last).Valid) : IsRead (.literal first body last)
  | code {name first last : Text} {body : List Text} {requested : Hint} {isInListing : Bool}
      (hname : name ∈ literalEnvironments) (hblock : (Segment.block name first body last).Valid) :
      IsRead (.code first body last requested isInListing)
  | math {name first last : Text} {body : List Text} (hname : name ∈ mathEnvironments)
      (hblock : (Segment.block name first body last).Valid) : IsRead (.math name first body last)
  | comment {line : Text} (hline : IsOrdinary line) (hcomment : isComment line = true) : IsRead (.comment line)
  | prose {line : Text} (hline : IsOrdinary line) (hcomment : isComment line = false) : IsRead (.prose line)

theorem mem_mathEnvironments_of_category? {name : Text} {isHinted : Bool} (h : category? name isHinted = some .math) :
    name ∈ mathEnvironments := by
  unfold category? at h
  split at h
  · cases h
  · split at h
    · cases h
    · split at h
      · assumption
      · cases h

theorem isRead_of_next {c c' : Context} {line : Text} {rest rest' : List Text} {p : Passage}
    (h : next c line rest = .ok (p, c', rest')) : p.IsRead := by
  cases reads_of_next h with
  | hint hhint hoptions => exact .hint (Option.isSome_of_eq_some hhint)
  | rawHtml hhint hhtml => exact .rawHtml hhint hhtml
  | @block name last category body after _ _ _ hopened hbody hread =>
      obtain ⟨hbegin, hcaptured, hcategory⟩ := of_opened?_eq_some hopened
      obtain ⟨-, hbalanced, hend⟩ := body?_eq_some_iff.mp hbody
      have hblock : (Segment.block name line body last).Valid := ⟨hcaptured, hbegin, hbalanced, hend⟩
      unfold readBlock at hread
      split at hread
      · cases hread
        exact .literal (eq_verbatim_of_literal hcategory) hblock
      · cases hread
        exact .math (mem_mathEnvironments_of_category? hcategory) hblock
      · dsimp only at hread
        split at hread
        · cases hread
        · cases hread
          exact .code (mem_literalEnvironments_of_code hcategory) hblock
  | line hhint hhtml hopened hended =>
      have hordinary : IsOrdinary line :=
        ⟨hhint, hhtml, fun name hname => ⟨begin?_ne_of_opened? hopened hname, end?_ne_of_filter hended hname⟩⟩
      split
      · rename_i hcomment
        exact .comment hordinary hcomment
      · rename_i hcomment
        exact .prose hordinary ((Bool.not_eq_true _).mp hcomment)

theorem isRead_of_mem_passages {c : Context} {lines : List Text} : ∀ p ∈ (passages c lines).1, p.IsRead := by
  induction c, lines using passages_induction with
  | nil c => simp [passages]
  | error c line rest e hnext => simp [passages_cons_error hnext]
  | ok c line rest p c' rest' hnext ih =>
      rw [passages_cons_ok hnext]
      exact List.forall_mem_cons.mpr ⟨isRead_of_next hnext, ih⟩

/-- Is the passage read alike wherever no hint stands before it? -/
def Passage.isMarkup : Passage → Bool
  | .hint _ | .code _ _ _ _ _ => false
  | .rawHtml _ _ | .literal _ _ _ | .math _ _ _ _ | .comment _ | .prose _ => true

section Read

variable {c : Context} {line : Text}

theorem isAnnotation_of_begin? {name : Text} (h : begin? line = some name) : hint? line = none ∧ rawHtml? line = none := by
  have hline : Text.startsWith "%=" (Text.trimStart line) = false := by
    by_contra hannotation
    obtain ⟨hnone, -⟩ := begin?_eq_none_of_annotation ((Bool.not_eq_false _).mp hannotation)
    rw [hnone] at h
    cases h
  exact ⟨hint?_eq_none hline, rawHtml?_eq_none hline⟩

theorem next_block_of_valid {name first last : Text} {body : List Text} {category : Category}
    (hblock : (Segment.block name first body last).Valid) (hcategory : category? name c.hint.isSome = some category)
    {p : Passage} (hread : readBlock c category name first body last = .ok p) (rest : List Text) :
    next c first (body ++ last :: rest) = .ok (p, c.advance (body.length + 2), rest) := by
  obtain ⟨-, hbegin, hbalanced, hend⟩ := hblock
  obtain ⟨hhint, hhtml⟩ := isAnnotation_of_begin? hbegin
  have hopened : opened? c first = some (name, category) := by simp [opened?, hbegin, hcategory]
  simp only [next, hhint, hhtml, hopened, body?_append hbalanced hend, hread, Except.map]

theorem next_of_isOrdinary (hline : IsOrdinary line) (c : Context) (rest : List Text) :
    next c line rest = .ok (if isComment line then .comment line else .prose line, c.pass line, rest) := by
  have hopened : opened? c line = none := by
    cases hbegin : begin? line with
    | none => simp [opened?, hbegin]
    | some name =>
        have hcategory : category? name c.hint.isSome = none := by
          by_contra hsome
          have hcaptured := isSome_category?_iff.mp (Option.isSome_iff_ne_none.mpr hsome)
          exact (hline.valid name hcaptured).1 hbegin
        simp [opened?, hbegin, hcategory]
  have hended : (end? line).filter isCaptured = none := by
    rw [Option.filter_eq_none_iff]
    exact fun name hend hcaptured => (hline.valid name hcaptured).2 hend
  simp only [next, hline.hint_eq, hline.rawHtml_eq, hopened, readLine, hended, Except.map]

/-- A passage is read again wherever no hint stands before it. -/
theorem Passage.IsRead.readOff {p : Passage} (h : p.IsRead) (hp : p.isMarkup = true) (hc : c.hint = none) :
    ∃ c', c'.hint = none ∧ ReadOff c [p] c' := by
  cases h with
  | hint | code => cases hp
  | rawHtml hhint hhtml =>
      refine ⟨c.advance 1, rfl, .cons rfl (fun rest => ?_) (.nil _)⟩
      simp only [next, hhint, hhtml, List.nil_append]
  | @literal name first last body hname hblock =>
      have hcategory : category? name c.hint.isSome = some .literal := by
        rw [hc]
        obtain rfl | rfl := hname <;> rfl
      refine ⟨c.advance (body.length + 2), rfl, .cons rfl (fun rest => ?_) (.nil _)⟩
      have hlines : body ++ [last] ++ rest = body ++ last :: rest := (List.append_cons body last rest).symm
      exact hlines ▸ next_block_of_valid hblock hcategory rfl rest
  | @math name first last body hname hblock =>
      have hmath : ∀ name ∈ mathEnvironments, category? name false = some .math := by decide +kernel
      have hcategory : category? name c.hint.isSome = some .math := by
        rw [hc]
        exact hmath name hname
      refine ⟨c.advance (body.length + 2), rfl, .cons rfl (fun rest => ?_) (.nil _)⟩
      have hlines : body ++ [last] ++ rest = body ++ last :: rest := (List.append_cons body last rest).symm
      exact hlines ▸ next_block_of_valid hblock hcategory rfl rest
  | @comment line hline hcomment =>
      refine ⟨c.pass line, c.hint_pass line, .cons rfl (fun rest => ?_) (.nil _)⟩
      rw [List.nil_append, next_of_isOrdinary hline, if_pos hcomment]
  | @prose line hline hcomment =>
      refine ⟨c.pass line, c.hint_pass line, .cons rfl (fun rest => ?_) (.nil _)⟩
      rw [List.nil_append, next_of_isOrdinary hline, if_neg (Bool.eq_false_iff.mp hcomment)]

theorem passages_of_isRead {ps : List Passage} (h : ∀ p ∈ ps, p.IsRead ∧ p.isMarkup = true) (hc : c.hint = none) :
    passages c (ps.flatMap Passage.lines) = (ps, none) := by
  induction ps generalizing c with
  | nil => simp [passages]
  | cons p ps ih =>
      obtain ⟨⟨hp, hmarkup⟩, hps⟩ := List.forall_mem_cons.mp h
      obtain ⟨c', hc', hread⟩ := hp.readOff hmarkup hc
      have hfirst := passages_append hread (ps.flatMap Passage.lines)
      rw [ih hps hc', List.flatMap_singleton] at hfirst
      rw [List.flatMap_cons, hfirst]
      rfl

end Read

section Balanced

variable {name : Text}

/-- The markers of a name among some lines. -/
def markers (name : Text) (body : List Text) : List Text := body.filter fun line => begins name line || ends name line

theorem closes_markers_iff {inner : Nat} {body : List Text} :
    Closes name inner (markers name body) ↔ Closes name inner body := by
  induction body generalizing inner with
  | nil => exact Iff.rfl
  | cons line body ih =>
      by_cases hbegin : begin? line = some name
      · have hmarkers : markers name (line :: body) = line :: markers name body :=
          List.filter_cons_of_pos (by simp [begins, hbegin])
        rw [hmarkers, closes_cons_begin hbegin, closes_cons_begin hbegin, ih]
      · by_cases hend : end? line = some name
        · have hmarkers : markers name (line :: body) = line :: markers name body :=
            List.filter_cons_of_pos (by simp [ends, hend])
          rw [hmarkers]
          cases inner with
          | zero => exact iff_of_false (not_closes_zero_cons_end hbegin hend) (not_closes_zero_cons_end hbegin hend)
          | succ inner => rw [closes_cons_end hbegin hend, closes_cons_end hbegin hend, ih]
        · have hmarkers : markers name (line :: body) = markers name body :=
            List.filter_cons_of_neg (by simp [begins, ends, hbegin, hend])
          rw [hmarkers, closes_cons_of_ne hbegin hend, ih]

/-- Whether lines are balanced depends on their markers alone. -/
theorem balanced_congr {body body' : List Text} (h : markers name body = markers name body') :
    Balanced name body ↔ Balanced name body' := by
  rw [Balanced, Balanced, ← closes_markers_iff, h, closes_markers_iff]

theorem markers_append (body more : List Text) : markers name (body ++ more) = markers name body ++ markers name more :=
  List.filter_append ..

theorem markers_eq_nil {body : List Text} (h : ∀ line ∈ body, begin? line = none ∧ end? line = none) :
    markers name body = [] := by
  refine List.filter_eq_nil_iff.mpr fun line hline => ?_
  obtain ⟨hbegin, hend⟩ := h line hline
  simp [begins, ends, hbegin, hend]

end Balanced

end Manuscript.Source
