import Manuscript.Proofs.Text.Trim

/-!
Texts cut into lines and lines joined to texts.

Main statement: lines without line feeds come back from the text that they are joined to (`splitOn_unlines`).
-/

namespace Manuscript.Text

/-- No piece between separators holds a separator. -/
theorem notMem_of_mem_splitOn {separator : Char} {t piece : Text} (h : piece ∈ t.splitOn separator) :
    separator ∉ piece := by
  induction t generalizing piece with
  | nil =>
      obtain rfl : piece = [] := by simpa using h
      exact List.not_mem_nil
  | cons c t ih =>
      rw [List.splitOn_cons_eq_if_modifyHead] at h
      split at h
      · rcases List.mem_cons.mp h with rfl | hlater
        · exact List.not_mem_nil
        · exact ih hlater
      · rename_i hne
        cases hpieces : t.splitOn separator with
        | nil => exact absurd hpieces (List.splitOn_ne_nil separator t)
        | cons first pieces =>
            rw [hpieces, List.modifyHead_cons] at h
            rcases List.mem_cons.mp h with rfl | hlater
            · have hfirst := ih (hpieces ▸ List.mem_cons_self)
              intro hmem
              rcases List.mem_cons.mp hmem with rfl | hmem
              · exact hne (beq_self_eq_true _)
              · exact hfirst hmem
            · exact ih (hpieces ▸ List.mem_cons_of_mem first hlater)

/-- The pieces between separators are parts of the text. -/
theorem sublist_of_mem_splitOn {separator : Char} {t piece : Text} (h : piece ∈ t.splitOn separator) :
    piece.Sublist t := by
  have hjoin : ∀ pieces : List Text, piece ∈ pieces → piece.Sublist ([separator].intercalate pieces) := by
    intro pieces
    induction pieces with
    | nil => exact nofun
    | cons first pieces ih =>
        intro hmem
        cases pieces with
        | nil =>
            obtain rfl := List.mem_singleton.mp hmem
            rw [List.intercalate_singleton]
        | cons second pieces =>
            rw [List.intercalate_cons_cons]
            rcases List.mem_cons.mp hmem with rfl | hlater
            · rw [List.append_assoc]
              exact List.sublist_append_left piece _
            · exact (ih hlater).trans (List.sublist_append_right _ _)
  have hsub := hjoin _ h
  rwa [List.intercalate_splitOn] at hsub

/-- A character of joined parts is one of a part or of the separator. -/
theorem mem_of_mem_join {separator : Text} {parts : List Text} {c : Char} (h : c ∈ join separator parts) :
    c ∈ separator ∨ ∃ part ∈ parts, c ∈ part := by
  induction parts with
  | nil => cases h
  | cons part parts ih =>
      cases parts with
      | nil =>
          rw [join, List.intercalate_singleton] at h
          exact .inr ⟨part, List.mem_cons_self, h⟩
      | cons next parts =>
          rw [join, List.intercalate_cons_cons, List.mem_append, List.mem_append] at h
          obtain (h | h) | h := h
          · exact .inr ⟨part, List.mem_cons_self, h⟩
          · exact .inl h
          · obtain h | ⟨other, hother, h⟩ := ih h
            · exact .inl h
            · exact .inr ⟨other, List.mem_cons_of_mem part hother, h⟩

/-- Lines without line feeds come back from the text that they are joined to. -/
theorem splitOn_unlines {lines : List Text} (hlines : ∀ line ∈ lines, '\n' ∉ line) (hne : lines ≠ []) :
    (unlines lines).splitOn '\n' = lines :=
  List.splitOn_intercalate '\n' hlines hne

/-- The lines of a joined text are the lines of its parts. -/
theorem splitOn_unlines_eq_flatMap {parts : List Text} (hne : parts ≠ []) :
    (unlines parts).splitOn '\n' = parts.flatMap (List.splitOn '\n') := by
  induction parts with
  | nil => exact absurd rfl hne
  | cons part parts ih =>
      cases parts with
      | nil => simp [unlines, join]
      | cons next parts =>
          have hrest := ih (List.cons_ne_nil next parts)
          simp only [unlines, join] at hrest ⊢
          rw [List.intercalate_cons_cons, List.append_assoc, List.singleton_append, List.splitOn_append_cons_self, hrest]
          rfl

/-- Lines without line feeds have no lines but themselves. -/
theorem flatMap_splitOn_eq_self {lines : List Text} (hlines : ∀ line ∈ lines, '\n' ∉ line) :
    lines.flatMap (List.splitOn '\n') = lines := by
  induction lines with
  | nil => rfl
  | cons line lines ih =>
      have hline : line.splitOn '\n' = [line] := List.splitOn_eq_singleton (hlines line List.mem_cons_self)
      rw [List.flatMap_cons, hline, ih fun later hlater => hlines later (List.mem_cons_of_mem line hlater)]
      rfl

theorem lineFeed_notMem_of_mem_lines {t line : Text} (h : line ∈ lines t) : '\n' ∉ line := by
  rcases List.mem_append.mp h with hinner | hlast
  · obtain ⟨piece, hpiece, rfl⟩ := List.mem_map.mp hinner
    have hbreak : '\n' ∉ piece := notMem_of_mem_splitOn (List.dropLast_subset _ hpiece)
    rw [dropReturn]
    cases hbefore : before? ['\r'] piece with
    | none => exact hbreak
    | some head => exact fun hmem => hbreak ((sublist_of_before? hbefore).subset hmem)
  · have hfilter := Option.mem_toList.mp hlast
    exact notMem_of_mem_splitOn (List.mem_of_getLast? (Option.filter_eq_some_iff.mp hfilter).1)

/-- A wording without the separator stands on one side of it. -/
theorem infix_append_cons_iff {mark l r : Text} {separator : Char} (hmark : separator ∉ mark) :
    mark <:+: l ++ separator :: r ↔ mark <:+: l ∨ mark <:+: r := by
  constructor
  · rintro ⟨a, b, h⟩
    rcases List.append_eq_append_iff.mp h with ⟨x, hl, -⟩ | ⟨x, hx, hrest⟩
    · exact .inl ⟨a, x, hl.symm⟩
    cases x with
    | nil => exact .inl ⟨a, [], by rw [hx, List.append_nil, List.append_nil]⟩
    | cons c x =>
        obtain ⟨rfl, rfl⟩ := List.cons.inj hrest
        rcases List.append_eq_append_iff.mp hx with ⟨y, -, hy⟩ | ⟨y, -, hy⟩
        · exact absurd (hy ▸ List.mem_append_right y List.mem_cons_self) hmark
        · cases y with
          | nil =>
              rw [List.nil_append] at hy
              exact absurd (hy ▸ List.mem_cons_self) hmark
          | cons d y =>
              refine .inr ⟨y, b, ?_⟩
              rw [(List.cons.inj hy).2]
              rfl
  · rintro (h | h)
    · exact h.trans (List.prefix_append l _).isInfix
    · exact h.trans ((List.suffix_cons separator r).trans (List.suffix_append l _)).isInfix

/-- A wording without a line feed stands in a line. -/
theorem infix_iff_exists_mem_splitOn {mark : Text} (hmark : '\n' ∉ mark) (t : Text) :
    mark <:+: t ↔ ∃ piece ∈ t.splitOn '\n', mark <:+: piece := by
  have hjoin : ∀ pieces : List Text, pieces ≠ [] →
      (mark <:+: unlines pieces ↔ ∃ piece ∈ pieces, mark <:+: piece) := by
    intro pieces hne
    induction pieces with
    | nil => exact absurd rfl hne
    | cons first pieces ih =>
        cases pieces with
        | nil => simp [unlines, join]
        | cons second pieces =>
            have hrest := ih (List.cons_ne_nil second pieces)
            simp only [unlines, join] at hrest ⊢
            rw [List.intercalate_cons_cons, List.append_assoc, List.singleton_append, infix_append_cons_iff hmark, hrest]
            exact (List.exists_mem_cons_iff _ _ _).symm
  have hpieces := hjoin (t.splitOn '\n') (List.splitOn_ne_nil '\n' t)
  rwa [unlines, join, List.intercalate_splitOn] at hpieces

theorem infix_returnFeed_append_iff {l r : Text} (hl : '\n' ∉ l) :
    ("\r\n" : Text) <:+: l ++ '\n' :: r ↔ l.getLast? = some '\r' ∨ ("\r\n" : Text) <:+: r := by
  constructor
  · rintro ⟨a, b, h⟩
    have heq : (a ++ ['\r']) ++ '\n' :: b = l ++ '\n' :: r := by
      rw [← h]
      simp
    rcases List.append_eq_append_iff.mp heq with ⟨x, hx, hrest⟩ | ⟨x, hx, hrest⟩
    · cases x with
      | nil =>
          rw [hx, List.append_nil]
          exact .inl List.getLast?_concat
      | cons c x => exact absurd (by rw [hx, ← (List.cons.inj hrest).1]; simp) hl
    · cases x with
      | nil =>
          rw [List.append_nil] at hx
          rw [← hx]
          exact .inl List.getLast?_concat
      | cons c x =>
          obtain ⟨rfl, rfl⟩ := List.cons.inj hrest
          rcases List.eq_nil_or_concat x with rfl | ⟨x, d, rfl⟩
          · exact absurd (List.append_inj' hx rfl).2 (by decide)
          · rw [List.concat_eq_append, ← List.cons_append, ← List.append_assoc] at hx
            obtain rfl := List.singleton_inj.mp (List.append_inj' hx rfl).2
            exact .inr ⟨x, b, by simp⟩
  · rintro (h | h)
    · obtain ⟨l, rfl⟩ := List.getLast?_eq_some_iff.mp h
      exact ⟨l, r, by simp⟩
    · exact h.trans ((List.suffix_cons '\n' r).trans (List.suffix_append l _)).isInfix

/-- A carriage return and a line feed stand together where a line that a line feed ends has a carriage return at its
end. -/
theorem infix_returnFeed_iff (t : Text) :
    ("\r\n" : Text) <:+: t ↔ ∃ piece ∈ (t.splitOn '\n').dropLast, piece.getLast? = some '\r' := by
  have hjoin : ∀ pieces : List Text, pieces ≠ [] → (∀ piece ∈ pieces, '\n' ∉ piece) →
      (("\r\n" : Text) <:+: unlines pieces ↔ ∃ piece ∈ pieces.dropLast, piece.getLast? = some '\r') := by
    intro pieces hne hfeed
    induction pieces with
    | nil => exact absurd rfl hne
    | cons first pieces ih =>
        obtain ⟨hfirst, hlater⟩ := List.forall_mem_cons.mp hfeed
        cases pieces with
        | nil =>
            have hnone : ¬ ("\r\n" : Text) <:+: first := fun h => hfirst (h.subset (by decide))
            simpa [unlines, join] using hnone
        | cons second pieces =>
            have hrest := ih (List.cons_ne_nil second pieces) hlater
            simp only [unlines, join] at hrest ⊢
            rw [List.intercalate_cons_cons, List.append_assoc, List.singleton_append, infix_returnFeed_append_iff hfirst,
              hrest, List.dropLast_cons_cons]
            exact (List.exists_mem_cons_iff (fun piece : Text => piece.getLast? = some '\r') first _).symm
  have hpieces := hjoin (t.splitOn '\n') (List.splitOn_ne_nil '\n' t) fun piece hpiece => notMem_of_mem_splitOn hpiece
  rwa [unlines, join, List.intercalate_splitOn] at hpieces

/-- Lines without line feeds can be told apart when one is put after each. -/
theorem splitOn_flatMap {lines : List Text} (hlines : ∀ line ∈ lines, '\n' ∉ line) :
    (lines.flatMap (· ++ ['\n'])).splitOn '\n' = lines ++ [[]] := by
  induction lines with
  | nil => rfl
  | cons line lines ih =>
      obtain ⟨hline, hrest⟩ := List.forall_mem_cons.mp hlines
      rw [List.flatMap_cons, List.append_assoc, List.singleton_append, List.splitOn_append_cons_self,
        List.splitOn_eq_singleton hline, ih hrest]
      rfl

theorem flatMap_lineFeed_inj {lines lines' : List Text} (hlines : ∀ line ∈ lines, '\n' ∉ line)
    (hlines' : ∀ line ∈ lines', '\n' ∉ line) :
    lines.flatMap (· ++ ['\n']) = lines'.flatMap (· ++ ['\n']) ↔ lines = lines' := by
  refine ⟨fun h => ?_, fun h => h ▸ rfl⟩
  have hsplit := congrArg (List.splitOn '\n') h
  rw [splitOn_flatMap hlines, splitOn_flatMap hlines'] at hsplit
  exact List.append_cancel_right hsplit

end Manuscript.Text
