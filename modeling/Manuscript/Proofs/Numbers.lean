import Manuscript.Proofs.Footnotes.Place
import Manuscript.Proofs.References
import Manuscript.Proofs.Text.Numeral

/-!
The numbers of nodes after all passes.

Main statement: besides numerals with points between them, nodes have only numbers that they had before
(`haveNumbers_passed`).
-/

namespace Manuscript

/-- All numbers of some nodes and the nodes inside them have a property. -/
def Forest.HaveNumbers (Q : Text → Prop) (l : List Node) : Prop :=
  ∀ n ∈ preorder l, ∀ number, n.number = some number → Q number

open Forest

variable {Q : Text → Prop}

namespace Forest

theorem haveNumbers_nil : HaveNumbers Q [] := fun _ hn => absurd hn List.not_mem_nil

theorem haveNumbers_cons {n : Node} {l : List Node} :
    HaveNumbers Q (n :: l) ↔
      (∀ number, n.number = some number → Q number) ∧ HaveNumbers Q n.children ∧ HaveNumbers Q l := by
  rw [HaveNumbers, preorder_cons, List.forall_mem_cons, List.forall_mem_append]
  rfl

theorem haveNumbers_append {l more : List Node} : HaveNumbers Q (l ++ more) ↔ HaveNumbers Q l ∧ HaveNumbers Q more := by
  rw [HaveNumbers, preorder_append, List.forall_mem_append]
  rfl

end Forest

/-! Numbering -/

namespace Numbering

theorem exists_dotted_of_heading {s : State} {level : Level} {a : Attrs} {title t : Text}
    (h : (heading s level a title).2.1 = some t) : ∃ ns, t = Text.dotted ns := by
  unfold heading at h
  split at h
  · cases h
  · obtain rfl := Option.some.inj h
    unfold Counters.headingNumber Counters.dotted
    rw [← Function.comp_def Text.ofNat UInt32.toNat, ← List.map_map]
    exact ⟨_, rfl⟩

theorem exists_dotted_of_float {s : State} {kind : FloatKind} {a : Attrs} {t : Text}
    (h : (float s kind a).2.1 = some t) : ∃ ns, t = Text.dotted ns := by
  unfold float at h
  split at h
  · cases h
  · obtain rfl := Option.some.inj h
    unfold Counters.floatNumber Counters.dotted
    split
    · exact ⟨_, (Text.dotted_singleton _).symm⟩
    · rw [← Function.comp_def Text.ofNat UInt32.toNat, ← List.map_map]
      exact ⟨_, rfl⟩

theorem of_enter (hdotted : ∀ ns, Q (Text.dotted ns)) (cache : Cache) (equations : Nat) (s : State) (kind : Kind)
    (a : Attrs) {number : Option Text} (h : ∀ t, number = some t → Q t) (children : List Node) :
    ∀ t, (enter cache equations s kind a number children).2.1 = some t → Q t := by
  have hnew : ∀ new : Option Text, (∀ t, new = some t → ∃ ns, t = Text.dotted ns) →
      ∀ t, (new <|> number) = some t → Q t := by
    intro new hnew t ht
    cases new with
    | none => exact h t ht
    | some t' =>
        obtain ⟨ns, rfl⟩ := hnew t ht
        exact hdotted ns
  cases kind with
  | heading level => exact hnew _ fun _ => exists_dotted_of_heading
  | float kind => exact hnew _ fun _ => exists_dotted_of_float
  | _ => exact h

theorem haveNumbers_nodes (hdotted : ∀ ns, Q (Text.dotted ns)) (cache : Cache) (equations : Nat) (s : State)
    {l : List Node} (h : HaveNumbers Q l) : HaveNumbers Q (nodes cache equations s l).1 := by
  induction l using Forest.induction generalizing equations s with
  | nil => exact haveNumbers_nil
  | cons n rest ihChildren ihRest =>
      obtain ⟨hnumber, hchildren, hrest⟩ := haveNumbers_cons.mp h
      obtain ⟨kind, a, number, children⟩ := n
      exact haveNumbers_cons.mpr
        ⟨of_enter hdotted cache equations s kind a hnumber children, ihChildren _ _ hchildren, ihRest _ _ hrest⟩

end Numbering

/-! References -/

namespace References

theorem haveNumbers_joinAll (s : Scope) {l : List Node} (h : HaveNumbers Q l) : HaveNumbers Q (joinAll s l) := by
  fun_induction joinAll s l with
  | case1 => exact h
  | case2 => exact h
  | case3 before next rest left reference hjoin ih =>
      obtain ⟨hbefore, hinside, hnext, hchildren, hrest⟩ :
          (∀ t, before.number = some t → Q t) ∧ HaveNumbers Q before.children ∧
            (∀ t, next.number = some t → Q t) ∧ HaveNumbers Q next.children ∧ HaveNumbers Q rest := by
        rwa [haveNumbers_cons, haveNumbers_cons] at h
      obtain ⟨-, hleft, ⟨-, hnumber, -⟩, -, -, hsame⟩ := join?_eq_some hjoin
      refine haveNumbers_append.mpr ⟨?_, haveNumbers_cons.mpr ⟨hnumber ▸ hnext, hsame ▸ hchildren, ih hrest⟩⟩
      obtain rfl | ⟨t, rfl⟩ := hleft
      · exact haveNumbers_nil
      · exact haveNumbers_cons.mpr ⟨hbefore, hinside, haveNumbers_nil⟩
  | case4 before next rest hjoin ih =>
      obtain ⟨hbefore, hinside, hrest⟩ := haveNumbers_cons.mp h
      exact haveNumbers_cons.mpr ⟨hbefore, hinside, ih hrest⟩

theorem haveNumbers_nodes (s : Scope) {l : List Node} (h : HaveNumbers Q l) : HaveNumbers Q (nodes s l).1 := by
  induction l using Forest.induction with
  | nil => exact haveNumbers_nil
  | cons n rest ihChildren ihRest =>
      obtain ⟨hnumber, hchildren, hrest⟩ := haveNumbers_cons.mp h
      obtain ⟨kind, a, number, children⟩ := n
      exact haveNumbers_cons.mpr ⟨hnumber, haveNumbers_joinAll s (ihChildren hchildren), ihRest hrest⟩

end References

/-! Footnotes -/

namespace Footnotes

/-- The numbers in what has been collected have a property. -/
def NotesHave (Q : Text → Prop) (notes : List (UInt32 × List Note)) : Prop :=
  ∀ p ∈ notes, ∀ note ∈ p.2, HaveNumbers Q note.content

theorem haveNumbers_spaceSentences (before : Option Node) {l : List Node} (h : HaveNumbers Q l) :
    HaveNumbers Q (spaceSentences before l) := by
  intro n hn
  obtain hn | rfl := mem_preorder_spaceSentences before l n hn
  · exact h n hn
  · exact fun _ hnone => nomatch hnone

namespace State

theorem notesHave_insert {notes : Notes} {chapter : UInt32} {l : List Note} (h : NotesHave Q notes.toList)
    (hl : ∀ note ∈ l, HaveNumbers Q note.content) : NotesHave Q (notes.insert chapter l).toList := by
  intro p hp
  obtain rfl | hmem := SortedMap.mem_insert hp
  · exact hl
  · exact h p hmem

theorem notesHave_add {s : State} (h : NotesHave Q s.notes.toList) (style : FootnoteStyle) :
    NotesHave Q (s.add style).2.notes.toList := by
  refine notesHave_insert h fun note hnote => ?_
  obtain hnote | hnote := List.mem_append.mp hnote
  · obtain hnone | hmem := of_cases s.notes s.chapter
    · rw [hnone] at hnote
      exact absurd hnote List.not_mem_nil
    · exact h _ hmem note hnote
  · rw [List.mem_singleton.mp hnote]
    exact haveNumbers_nil

theorem notesHave_fill {s : State} (h : NotesHave Q s.notes.toList) (index : Nat) {content : List Node}
    (hcontent : HaveNumbers Q content) : NotesHave Q (s.fill index content).notes.toList := by
  unfold fill
  split
  · exact h
  · rename_i notes hget
    refine notesHave_insert h fun note hnote => ?_
    obtain hnew | hnote := content_of_mem_modify hnote
    · rw [hnew]
      exact hcontent
    · exact h _ (SortedMap.mem_of_get? hget) note hnote

end State

theorem haveNumbers_nodes (style : FootnoteStyle) {l : List Node} (h : HaveNumbers Q l) {s : State}
    (hs : NotesHave Q s.notes.toList) :
    HaveNumbers Q (nodes style s l).1 ∧ NotesHave Q (nodes style s l).2.notes.toList := by
  induction l using Forest.induction generalizing s with
  | nil => exact ⟨haveNumbers_nil, hs⟩
  | cons n rest ihChildren ihRest =>
      obtain ⟨hnumber, hchildren, hrest⟩ := haveNumbers_cons.mp h
      have hfirst : HaveNumbers Q (nodes style s [n]).1 ∧ NotesHave Q (nodes style s [n]).2.notes.toList := by
        cases hn : isFootnote n with
        | true =>
            obtain ⟨hcontent, hnotes⟩ := ihChildren hchildren (State.notesHave_add hs style)
            rw [nodes_singleton_pos s hn]
            exact ⟨haveNumbers_cons.mpr ⟨hnumber, haveNumbers_nil, haveNumbers_nil⟩,
              State.notesHave_fill hnotes _ (haveNumbers_spaceSentences none hcontent)⟩
        | false =>
            obtain ⟨hcontent, hnotes⟩ := ihChildren hchildren
              (s := { s with chapter := n.chapterNumber?.getD s.chapter }) hs
            rw [nodes_singleton_neg s hn]
            exact ⟨haveNumbers_cons.mpr ⟨hnumber, haveNumbers_spaceSentences none hcontent, haveNumbers_nil⟩, hnotes⟩
      obtain ⟨hlater, hnotes⟩ := ihRest hrest hfirst.2
      rw [nodes_cons]
      exact ⟨haveNumbers_append.mpr ⟨hfirst.1, hlater⟩, hnotes⟩

theorem haveNumbers_listNodes {notes : List (UInt32 × List Note)} (h : NotesHave Q notes) :
    HaveNumbers Q (listNodes notes) := by
  intro n hn
  obtain ⟨list, hlist, hn⟩ := mem_preorder_iff.mp hn
  obtain ⟨p, hp, rfl⟩ := List.mem_map.mp hlist
  obtain rfl | hn := hn
  · exact fun _ hnone => nomatch hnone
  · obtain ⟨item, hitem, hn⟩ := mem_preorder_iff.mp hn
    obtain ⟨note, hnote, rfl⟩ := List.mem_map.mp hitem
    obtain rfl | hn := hn
    · exact fun _ hnone => nomatch hnone
    · exact h p hp note hnote n hn

theorem haveNumbers_place {l : List Node} (h : HaveNumbers Q l) {notes : List (UInt32 × List Note)}
    (hnotes : NotesHave Q notes) : HaveNumbers Q (place notes l).1 ∧ NotesHave Q (place notes l).2 := by
  induction l using Forest.induction generalizing notes with
  | nil => exact ⟨haveNumbers_nil, hnotes⟩
  | cons n rest ihChildren ihRest =>
      obtain ⟨hnumber, hchildren, hrest⟩ := haveNumbers_cons.mp h
      have hmem : ∀ p, p ∈ (due notes n).1 ++ (due notes n).2 → p ∈ notes := fun p => (perm_due notes n).mem_iff.mp
      have hdue : NotesHave Q (due notes n).1 ∧ NotesHave Q (due notes n).2 :=
        ⟨fun p hp => hnotes p (hmem p (List.mem_append_left _ hp)),
          fun p hp => hnotes p (hmem p (List.mem_append_right _ hp))⟩
      have hfirst : HaveNumbers Q [(placeIn (due notes n).2 n).1] ∧ NotesHave Q (placeIn (due notes n).2 n).2 := by
        cases hn : isFootnote n with
        | true =>
            rw [placeIn_pos _ hn]
            exact ⟨haveNumbers_cons.mpr ⟨hnumber, hchildren, haveNumbers_nil⟩, hdue.2⟩
        | false =>
            rw [placeIn_neg _ hn]
            exact ⟨haveNumbers_cons.mpr ⟨hnumber, (ihChildren hchildren hdue.2).1, haveNumbers_nil⟩,
              (ihChildren hchildren hdue.2).2⟩
      obtain ⟨hlater, hleft⟩ := ihRest hrest hfirst.2
      exact ⟨haveNumbers_append.mpr ⟨haveNumbers_listNodes hdue.1,
        haveNumbers_append.mpr ⟨hfirst.1, hlater⟩⟩, hleft⟩

end Footnotes

namespace Document

/-- The document with its headings numbered, its references resolved and its footnotes placed. -/
def passed (d : Document) (words : Words) (cache : Cache) (isArticle : Bool) (style : FootnoteStyle) : Document :=
  ((d.finished words cache isArticle).1.placeFootnotes style).1

theorem haveNumbers_passed (hdotted : ∀ ns, Q (Text.dotted ns)) {d : Document} (h : HaveNumbers Q d.children)
    (words : Words) (cache : Cache) (isArticle : Bool) (style : FootnoteStyle) :
    HaveNumbers Q (d.passed words cache isArticle style).children := by
  have hnumbered := Numbering.haveNumbers_nodes hdotted cache 0 (.start isArticle) h
  have hresolved := References.haveNumbers_joinAll (d.scope words cache isArticle)
    (References.haveNumbers_nodes (d.scope words cache isArticle) hnumbered)
  have hempty : Footnotes.NotesHave Q (SortedMap.empty : Footnotes.Notes).toList :=
    fun p hp => absurd hp List.not_mem_nil
  obtain ⟨hcollected, hnotes⟩ := Footnotes.haveNumbers_nodes style hresolved (s := ⟨0, .empty⟩) hempty
  obtain ⟨hplaced, hleft⟩ :=
    Footnotes.haveNumbers_place (Footnotes.haveNumbers_spaceSentences none hcollected) hnotes
  exact haveNumbers_append.mpr ⟨hplaced, Footnotes.haveNumbers_listNodes hleft⟩

/-- No node of a parsed document has a number. -/
theorem haveNumbers_of_parse {t : Text} {d : Document} (h : parse? t = some d) : HaveNumbers Q d.children :=
  forall_preorder_of_parse (fun _ _ hnone => nomatch hnone)
    (fun name attributes children number hnumber => by
      rw [nodeOfXml] at hnumber
      cases hnumber) h

end Document

end Manuscript
