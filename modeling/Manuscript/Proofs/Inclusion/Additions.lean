import Manuscript.Proofs.Inclusion.Origin

/-!
What inclusions leave behind for good.  Each directive that is looked at adds a line that no later inclusion takes away: the
beginning of a code block, or the raw HTML that stands for a failure.

Main statement: inclusions that add none of these lines have found no directive (`countP_becomes`).
-/

namespace Manuscript

namespace Inclusion

open Source

variable {provider : Provider} {o : OpenLiteral} {line : Text} {lines : List Text}

/-- Lines of which every inclusion adds one: what begins a literal environment, and what stands for a failure. -/
def isAdded (line : Text) : Bool := (begin? line).any (· ∈ literalEnvironments) || Text.startsWith "%= <s" line

/-- No directive stands where the inclusions look at it. -/
def IsFree (o : OpenLiteral) (lines : List Text) : Prop :=
  ∀ before line rest, lines = before ++ line :: rest → openAfter o before = none → directive? line = none

theorem isFree_cons_iff : IsFree o (line :: lines) ↔ (o = none → directive? line = none) ∧ IsFree (openAfter o [line]) lines := by
  constructor
  · intro h
    refine ⟨fun ho => h [] line lines rfl (by rw [ho]; rfl), fun before line' rest hlines hopen => ?_⟩
    refine h (line :: before) line' rest (by rw [hlines]; rfl) ?_
    cases o <;> exact hopen
  · rintro ⟨hline, hlines⟩ before line' rest hsplit hopen
    cases before with
    | nil =>
        obtain ⟨rfl, -⟩ := List.cons.inj hsplit
        cases o with
        | none => exact hline rfl
        | some inside => cases hopen
    | cons first before =>
        obtain ⟨rfl, hrest⟩ := List.cons.inj hsplit
        refine hlines before line' rest hrest ?_
        cases o <;> exact hopen

theorem isAdded_of_directive? {parsed : Except Failure Directive} (h : directive? line = some parsed) :
    isAdded line = false := by
  obtain ⟨rest, after, hline, hrest⟩ := exists_of_directive? h
  obtain ⟨hbegin, -⟩ := begin?_eq_none_of_annotation (startsWith_of_directive? h).1
  have hstarts : Text.startsWith "%= <s" line = false := by
    by_contra hstarts
    obtain ⟨more, hmore⟩ := Option.isSome_iff_exists.mp ((Bool.not_eq_false _).mp hstarts)
    have hspan : Text.trimStart line = ("%=" : Text) ++ ' ' :: '<' :: 's' :: more := by
      rw [Text.eq_append_of_after? hmore]
      rfl
    obtain rfl := List.append_cancel_left (hline.symm.trans hspan)
    cases hrest
  rw [isAdded, hbegin, hstarts]
  rfl

/-- A line stays unless the inclusions look at a directive in it, and then one of the lines that stand for it is added. -/
theorem becomes_or_isAdded (provider : Provider) (o : OpenLiteral) (line : Text) :
    ((o = none → directive? line = none) ∧ becomes provider o [line] = [line]) ∨
      (isAdded line = false ∧ 0 < (becomes provider o [line]).countP isAdded) := by
  obtain ⟨-, hnone, hstays⟩ | ⟨-, hsome, failure, hfails⟩ | ⟨d, lines, hdirective, -, -, hblock⟩ :=
    becomes_singleton_cases provider o line
  · exact .inl ⟨hnone, hstays⟩
  · obtain ⟨parsed, hparsed⟩ := Option.isSome_iff_exists.mp hsome
    have hfailure : isAdded (failureLine failure) = true := Bool.or_eq_true_iff.mpr (.inr rfl)
    rw [hfails]
    exact .inr ⟨isAdded_of_directive? hparsed, List.countP_pos_iff.mpr ⟨_, List.mem_cons_self, hfailure⟩⟩
  · have hbegin : isAdded blockMarkers.1 = true := by decide +kernel
    rw [hblock, ← List.append_nil (codeBlock d lines), codeBlock_append]
    refine .inr ⟨isAdded_of_directive? hdirective, List.countP_pos_iff.mpr ⟨blockMarkers.1, ?_, hbegin⟩⟩
    exact List.mem_cons_of_mem _ List.mem_cons_self

/-- Lines without directives stay. -/
theorem becomes_eq_self (provider : Provider) (h : IsFree o lines) : becomes provider o lines = lines := by
  induction lines generalizing o with
  | nil => rfl
  | cons line lines ih =>
      obtain ⟨hline, hlines⟩ := isFree_cons_iff.mp h
      rw [becomes_cons, ih hlines, becomes_singleton_eq_self provider hline, List.singleton_append]

/-- The inclusions take none of these lines away, and add some unless there is no directive. -/
theorem countP_becomes (provider : Provider) (o : OpenLiteral) (lines : List Text) :
    lines.countP isAdded ≤ (becomes provider o lines).countP isAdded ∧
      ((becomes provider o lines).countP isAdded ≤ lines.countP isAdded → IsFree o lines) := by
  induction lines generalizing o with
  | nil => exact ⟨Nat.le_refl _, fun _ before line rest hlines => by cases before <;> cases hlines⟩
  | cons line lines ih =>
      obtain ⟨hle, hfree⟩ := ih (openAfter o [line])
      rw [becomes_cons, List.countP_append, ← List.singleton_append, List.countP_append, List.singleton_append, isFree_cons_iff]
      obtain ⟨hnone, hstays⟩ | ⟨hline, hadded⟩ := becomes_or_isAdded provider o line
      · rw [hstays]
        exact ⟨by omega, fun h => ⟨hnone, hfree (by omega)⟩⟩
      · have hzero : [line].countP isAdded = 0 := by simp [hline]
        exact ⟨by omega, fun h => absurd h (by omega)⟩

end Inclusion

end Manuscript
