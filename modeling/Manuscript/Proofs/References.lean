import Mathlib.Data.List.Forall2
import Manuscript.Proofs.Document.Shape
import Manuscript.Proofs.Numbering.Labels
import Manuscript.References

/-!
References and links after numbering.  Each of them is resolved by the table of labels or marked and reported; that
linking phrases join references afterwards changes nothing of this.

Main statement: `isResolved`.
-/

namespace Manuscript

/-- Is the node a reference or a link? -/
def Node.refers (n : Node) : Bool :=
  match n.kind with
  | .ref .. | .link _ => true
  | _ => false

/-- The references and links in some nodes, in the order of the document. -/
def Forest.references (l : List Node) : List Node := (preorder l).filter Node.refers

/-- Is the node no reference that leads somewhere already? -/
def Node.isUnresolved (n : Node) : Bool :=
  match n.kind with
  | .ref _ _ target _ => target.isNone
  | _ => true

/-- The texts have no nodes inside them. -/
def Forest.TextsAreLeaves (l : List Node) : Prop := ∀ n ∈ preorder l, ∀ t, n.kind = .text t → n.children = []

/-- What is kept of the second of two lists is kept of the first. -/
theorem exists_sublist_of_forall₂ {α β : Type} {R : α → β → Prop} {l : List α} {m m' : List β}
    (h : List.Forall₂ R l m) (hs : m'.Sublist m) :
    ∃ l', l'.Sublist l ∧ List.Forall₂ R l' m' ∧ (m' = m → l' = l) := by
  induction hs generalizing l with
  | slnil =>
      cases h
      exact ⟨[], .slnil, .nil, fun _ => rfl⟩
  | @cons m' m b hsub ih =>
      obtain _ | ⟨hfirst, hrest⟩ := h
      obtain ⟨l', hl', hforall, -⟩ := ih hrest
      refine ⟨l', hl'.cons _, hforall, fun heq => ?_⟩
      have hlength := hsub.length_le
      rw [heq] at hlength
      exact absurd hlength (Nat.not_succ_le_self _)
  | cons_cons b hsub ih =>
      obtain _ | ⟨hfirst, hrest⟩ := h
      obtain ⟨l', hl', hforall, hall⟩ := ih hrest
      refine ⟨_, hl'.cons_cons _, .cons hfirst hforall, fun heq => ?_⟩
      rw [hall (List.cons.inj heq).2]

theorem forall₂_comp {α β γ : Type} {R : α → β → Prop} {S : β → γ → Prop} {T : α → γ → Prop}
    (hcomp : ∀ a b c, R a b → S b c → T a c) {l : List α} {m : List β} {k : List γ} (h : List.Forall₂ R l m)
    (h' : List.Forall₂ S m k) : List.Forall₂ T l k := by
  induction h generalizing k with
  | nil =>
      cases h'
      exact .nil
  | cons hfirst _ ih =>
      obtain _ | ⟨hfirst', hrest'⟩ := h'
      exact .cons (hcomp _ _ _ hfirst hfirst') (ih hrest')

namespace Forest

@[simp] theorem references_nil : references [] = [] := rfl

theorem references_cons (n : Node) (rest : List Node) :
    references (n :: rest) = [n].filter Node.refers ++ (references n.children ++ references rest) := by
  rw [references, preorder_cons, ← List.singleton_append, List.filter_append, List.filter_append]
  rfl

theorem references_append (l more : List Node) : references (l ++ more) = references l ++ references more := by
  rw [references, preorder_append, List.filter_append]
  rfl

end Forest

namespace References

open Forest

variable {s : Scope}

/-- A node and what has become of it when a linking phrase may have joined it. -/
def Joined (n m : Node) : Prop :=
  m.attrs = n.attrs ∧ m.number = n.number ∧ (m.kind = n.kind ∨ ∃ label style target phrase phrase',
    n.kind = .ref label style (some target) phrase ∧ m.kind = .ref label style (some target) phrase')

theorem Joined.refl (n : Node) : Joined n n := ⟨rfl, rfl, .inl rfl⟩

theorem forall₂_joined_refl (l : List Node) : List.Forall₂ Joined l l :=
  List.forall₂_same.mpr fun n _ => Joined.refl n

/-- A linking phrase is taken off a text, and the reference that it joins stays a reference. -/
theorem join?_eq_some {before next reference : Node} {left : List Node}
    (h : join? s before next = some (left, reference)) :
    (∃ t, before.kind = .text t) ∧ (left = [] ∨ ∃ t, left = [{ before with kind := .text t }]) ∧
      Joined next reference ∧ next.refers = true ∧ reference.refers = true ∧ reference.children = next.children := by
  unfold join? at h
  split at h
  · rename_i t label style target phrase htext href
    obtain ⟨⟨head, found⟩, -, heq⟩ := Option.map_eq_some_iff.mp h
    obtain ⟨rfl, rfl⟩ := Prod.mk.inj heq
    refine ⟨⟨t, htext⟩, ?_, ⟨rfl, rfl, .inr ⟨label, style, target, phrase, _, href, rfl⟩⟩, ?_, rfl, rfl⟩
    · by_cases hhead : head = []
      · exact .inl (if_pos hhead)
      · exact .inr ⟨head, if_neg hhead⟩
    · simp only [Node.refers, href]
  · cases h

theorem references_text {n : Node} (h : ∃ t, n.kind = .text t) (rest : List Node) :
    references (n :: rest) = references n.children ++ references rest := by
  obtain ⟨t, ht⟩ := h
  have hrefers : n.refers = false := by simp only [Node.refers, ht]
  rw [references_cons, List.filter_cons_of_neg (by simp [hrefers]), List.filter_nil, List.nil_append]

theorem references_reference {n : Node} (h : n.refers = true) (rest : List Node) :
    references (n :: rest) = n :: (references n.children ++ references rest) := by
  rw [references_cons, List.filter_cons_of_pos h, List.filter_nil, List.singleton_append]

/-- Joining keeps the references and links, all but those inside a text that is taken up. -/
theorem exists_kept_joinAll (s : Scope) (l : List Node) :
    ∃ kept, kept.Sublist (references l) ∧ List.Forall₂ Joined kept (references (joinAll s l)) ∧
      ((∀ n ∈ l, ∀ t, n.kind = .text t → n.children = []) → kept = references l) := by
  fun_induction joinAll s l with
  | case1 => exact ⟨[], .slnil, .nil, fun _ => rfl⟩
  | case2 only => exact ⟨_, List.Sublist.refl _, forall₂_joined_refl _, fun _ => rfl⟩
  | case3 before next rest left reference hjoin ih =>
      obtain ⟨kept, hsub, hjoined, hall⟩ := ih
      -- A text that is taken up goes with all that is inside it; one of which something is left keeps that.
      obtain ⟨htext, hleft, hnext, hrefers, hrefers', hchildren⟩ := join?_eq_some hjoin
      have htail : List.Forall₂ Joined (next :: (references next.children ++ kept))
          (references (reference :: joinAll s rest)) := by
        rw [references_reference hrefers', hchildren]
        exact .cons hnext (List.rel_append (forall₂_joined_refl _) hjoined)
      have hrest : (∀ n ∈ before :: next :: rest, ∀ t, n.kind = .text t → n.children = []) →
          kept = references rest :=
        fun hleaves => hall fun n hn => hleaves n (List.mem_cons_of_mem _ (List.mem_cons_of_mem _ hn))
      rw [references_text htext, references_reference hrefers]
      obtain rfl | ⟨t, rfl⟩ := hleft
      · refine ⟨_, ?_, htail, fun hleaves => ?_⟩
        · exact .append (List.nil_sublist _) (.cons_cons next (.append (List.Sublist.refl _) hsub))
        · obtain ⟨t, ht⟩ := htext
          rw [hleaves before List.mem_cons_self t ht, hrest hleaves]
          rfl
      · refine ⟨references before.children ++ next :: (references next.children ++ kept), ?_, ?_, fun hleaves => ?_⟩
        · exact .append (List.Sublist.refl _) (.cons_cons next (.append (List.Sublist.refl _) hsub))
        · rw [references_append, references_text ⟨t, rfl⟩, references_nil, List.append_nil]
          exact List.rel_append (forall₂_joined_refl _) htail
        · rw [hrest hleaves]
  | case4 before next rest hjoin ih =>
      obtain ⟨kept, hsub, hjoined, hall⟩ := ih
      refine ⟨[before].filter Node.refers ++ (references before.children ++ kept), ?_, ?_, fun hleaves => ?_⟩
      · rw [references_cons before]
        exact .append (List.Sublist.refl _) (.append (List.Sublist.refl _) hsub)
      · rw [references_cons before]
        exact List.rel_append (forall₂_joined_refl _) (List.rel_append (forall₂_joined_refl _) hjoined)
      · rw [references_cons before, hall fun n hn => hleaves n (List.mem_cons_of_mem _ hn)]

/-- The warning that a reference or link calls for. -/
def undefined? (s : Scope) : Kind → Option Warning
  | .ref label _ _ _ => if (s.labels.target? label).isSome then none else some (.undefinedReference label)
  | .link href =>
    (Text.after? "#" (s.cache.readable href)).bind fun label =>
      if (s.labels.target? label).isSome then none else some (.undefinedLink label)
  | _ => none

/-- What a reference that is not resolved yet, or a link, becomes. -/
def ResolvesTo (s : Scope) : Kind → Kind → Prop
  | .ref label style _ phrase, kind =>
    match s.labels.target? label with
    | some found => ∃ phrase', kind = .ref label style (some ⟨found.id, found.number⟩) phrase'
    | none => kind = .ref label style none phrase
  | .link href, kind =>
    match (Text.after? "#" (s.cache.readable href)).bind s.labels.target? with
    | some found => kind = .link ('#' :: found.id)
    | none => kind = .link href
  | _, _ => False

/-- A reference or a link and what has become of it: it is resolved, or marked, or left as it is. -/
def Resolves (s : Scope) (n m : Node) : Prop :=
  ResolvesTo s n.kind m.kind ∧
    m.attrs = (if (undefined? s n.kind).isSome then n.attrs.addClass undefinedClass else n.attrs) ∧
    m.number = n.number

theorem undefined?_eq (s : Scope) (kind : Kind) : (resolveKind s kind).2 = undefined? s kind := by
  cases kind with
  | ref label style target phrase =>
      simp only [resolveKind, undefined?]
      cases s.labels.target? label <;> rfl
  | link href =>
      simp only [resolveKind, undefined?]
      cases Text.after? "#" (s.cache.readable href) with
      | none => rfl
      | some label =>
          simp only [Option.bind_some]
          cases s.labels.target? label <;> rfl
  | _ => rfl

theorem resolvesTo_resolveKind {s : Scope} {n : Node} (h : n.refers = true) (hunresolved : n.isUnresolved = true) :
    ResolvesTo s n.kind (resolveKind s n.kind).1 := by
  obtain ⟨kind, a, number, children⟩ := n
  cases kind with
  | ref label style target phrase =>
      obtain rfl := Option.isNone_iff_eq_none.mp hunresolved
      simp only [resolveKind, ResolvesTo]
      cases s.labels.target? label with
      | none => rfl
      | some found => exact ⟨phrase, rfl⟩
  | link href =>
      simp only [resolveKind, ResolvesTo]
      cases Text.after? "#" (s.cache.readable href) with
      | none => rfl
      | some label =>
          simp only [Option.bind_some]
          cases s.labels.target? label <;> rfl
  | _ => cases h

/-- A linking phrase changes nothing of how a reference has been resolved. -/
theorem Resolves.joined {n m k : Node} (h : Resolves s n m) (hjoined : Joined m k) : Resolves s n k := by
  obtain ⟨hkind, hattrs, hnumber⟩ := h
  obtain ⟨hattrs', hnumber', hkind'⟩ := hjoined
  refine ⟨?_, hattrs'.trans hattrs, hnumber'.trans hnumber⟩
  obtain hkind' | ⟨label, style, target, phrase, phrase', hm, hk⟩ := hkind'
  · rwa [hkind']
  · rw [hm] at hkind
    rw [hk]
    cases hn : n.kind with
    | ref label' style' target' phrase₁ =>
        rw [hn] at hkind
        simp only [ResolvesTo] at hkind ⊢
        cases hfound : s.labels.target? label' with
        | none =>
            rw [hfound] at hkind
            cases hkind
        | some found =>
            rw [hfound] at hkind
            obtain ⟨phrase₂, heq⟩ := hkind
            obtain ⟨rfl, rfl, htarget, -⟩ := Kind.ref.inj heq
            exact ⟨phrase', by rw [htarget]⟩
    | link href =>
        rw [hn] at hkind
        simp only [ResolvesTo] at hkind
        split at hkind <;> cases hkind
    | _ =>
        rw [hn] at hkind
        cases hkind

theorem node_eq (s : Scope) (n : Node) :
    node s n =
      (⟨(resolveKind s n.kind).1,
        if (undefined? s n.kind).isSome then n.attrs.addClass undefinedClass else n.attrs, n.number,
        joinAll s (nodes s n.children).1⟩,
        (undefined? s n.kind).toList ++ (nodes s n.children).2) := by
  obtain ⟨kind, a, number, children⟩ := n
  rw [← undefined?_eq]
  rfl

theorem refers_node (s : Scope) (n : Node) : (node s n).1.refers = n.refers := by
  rw [node_eq]
  obtain ⟨kind, a, number, children⟩ := n
  cases kind with
  | ref label style target phrase =>
      simp only [resolveKind]
      cases s.labels.target? label <;> rfl
  | link href =>
      simp only [resolveKind]
      cases Text.after? "#" (s.cache.readable href) with
      | none => rfl
      | some label =>
          simp only
          cases s.labels.target? label <;> rfl
  | _ => rfl

theorem nodes_fst (s : Scope) (l : List Node) : (nodes s l).1 = l.map fun n => (node s n).1 := by
  induction l with
  | nil => rfl
  | cons n l ih => rw [List.map_cons, ← ih]; rfl

/-- The warnings are those that the references and links call for, in the order of the document. -/
theorem nodes_snd (s : Scope) (l : List Node) :
    (nodes s l).2 = (preorder l).filterMap fun n => undefined? s n.kind := by
  induction l using Forest.induction with
  | nil => rfl
  | cons n rest ihChildren ihRest =>
      rw [preorder_cons, List.filterMap_cons, List.filterMap_append, ← ihChildren, ← ihRest, nodes, node_eq]
      cases undefined? s n.kind <;> simp

theorem eq_text_of_resolveKind {s : Scope} {kind : Kind} {t : Text} (h : (resolveKind s kind).1 = .text t) :
    kind = .text t := by
  cases kind with
  | ref label style target phrase =>
      simp only [resolveKind] at h
      split at h <;> cases h
  | link href =>
      simp only [resolveKind] at h
      split at h
      · cases h
      · split at h <;> cases h
  | _ => exact h

/-- The references and links of a list of nodes have become those of another, all but some that are lost inside
texts. -/
def Carries (s : Scope) (l m : List Node) : Prop :=
  ∃ kept, kept.Sublist (references l) ∧ List.Forall₂ (Resolves s) kept (references m) ∧
    (TextsAreLeaves l → kept = references l)

theorem Carries.joinAll {l : List Node} (h : Carries s l (nodes s l).1) :
    Carries s l (joinAll s (nodes s l).1) := by
  obtain ⟨kept, hsub, hresolves, hall⟩ := h
  obtain ⟨kept', hsub', hjoined, hall'⟩ := exists_kept_joinAll s (nodes s l).1
  obtain ⟨kept'', hsub'', hresolves', hall''⟩ := exists_sublist_of_forall₂ hresolves hsub'
  have hcarried := forall₂_comp (T := Resolves s) (fun _ _ _ h h' => h.joined h') hresolves' hjoined
  refine ⟨kept'', hsub''.trans hsub, hcarried, fun hleaves => ?_⟩
  rw [hall'' (hall' ?_), hall hleaves]
  intro m hm t ht
  rw [nodes_fst] at hm
  obtain ⟨n, hn, rfl⟩ := List.mem_map.mp hm
  rw [node_eq] at ht ⊢
  have hchildren := hleaves n (mem_preorder_of_mem hn) t (eq_text_of_resolveKind ht)
  rw [hchildren]
  rfl

/-- Resolving carries the references and links over. -/
theorem carries_nodes {l : List Node} (hunresolved : ∀ n ∈ preorder l, n.isUnresolved = true) :
    Carries s l (nodes s l).1 := by
  induction l using Forest.induction with
  | nil => exact ⟨[], .slnil, .nil, fun _ => rfl⟩
  | cons n rest ihChildren ihRest =>
      rw [preorder_cons, List.forall_mem_cons, List.forall_mem_append] at hunresolved
      obtain ⟨hnode, hchildren, hlater⟩ := hunresolved
      -- Only what is inside a node has been joined by the time that its siblings are: the hypothesis for the children
      -- goes through `joinAll`, that for the rest does not.
      obtain ⟨kept, hsub, hresolves, hall⟩ := (ihChildren hchildren).joinAll
      obtain ⟨kept', hsub', hresolves', hall'⟩ := ihRest hlater
      have hfirst : List.Forall₂ (Resolves s) ([n].filter Node.refers) ([(node s n).1].filter Node.refers) := by
        by_cases hrefers : n.refers = true
        · rw [List.filter_cons_of_pos hrefers, List.filter_cons_of_pos ((refers_node s n).trans hrefers), node_eq]
          exact .cons ⟨resolvesTo_resolveKind hrefers hnode, rfl, rfl⟩ .nil
        · rw [List.filter_cons_of_neg hrefers, List.filter_cons_of_neg (by rwa [refers_node])]
          exact .nil
      refine ⟨[n].filter Node.refers ++ (kept ++ kept'), ?_, ?_, fun hleaves => ?_⟩
      · rw [references_cons]
        exact .append (List.Sublist.refl _) (.append hsub hsub')
      · rw [nodes, references_cons]
        refine List.rel_append hfirst (List.rel_append ?_ hresolves')
        rw [node_eq]
        exact hresolves
      · rw [TextsAreLeaves, preorder_cons, List.forall_mem_cons, List.forall_mem_append] at hleaves
        rw [references_cons, hall hleaves.2.1, hall' hleaves.2.2]

end References

/-- Numbering leaves references and links as they are. -/
def Alike (n m : Node) : Prop :=
  m.refers = n.refers ∧ (n.refers = true → m.kind = n.kind ∧ m.attrs = n.attrs ∧ m.number = n.number)

theorem Numbering.alike_visit (cache : Cache) (s : State) (p : Position) : Alike p.node (visit cache s p).1 := by
  obtain ⟨⟨kind, a, number, children⟩, around, isInFront⟩ := p
  cases kind <;> first | exact ⟨rfl, fun _ => ⟨rfl, rfl, rfl⟩⟩ | exact ⟨rfl, nofun⟩

theorem Numbering.forall₂_alike_visits (cache : Cache) (s : State) (ps : List Position) :
    List.Forall₂ (fun p m => Alike p.node m) ps (visits cache s ps).1 := by
  induction ps generalizing s with
  | nil => exact .nil
  | cons p ps ih => exact .cons (alike_visit cache s p) (ih _)

theorem isUnresolved_of_alike {n m : Node} (h : Alike n m) (hn : n.isUnresolved = true) : m.isUnresolved = true := by
  obtain ⟨hrefers, hsame⟩ := h
  obtain ⟨kind, a, number, children⟩ := m
  cases kind with
  | ref label style target phrase =>
      have hkind := (hsame hrefers.symm).1
      simp only [Node.isUnresolved, ← hkind] at hn ⊢
      exact hn
  | _ => rfl

theorem forall_isUnresolved {l m : List Node} (h : List.Forall₂ Alike l m)
    (hl : ∀ n ∈ l, n.isUnresolved = true) : ∀ n ∈ m, n.isUnresolved = true := by
  induction h with
  | nil => exact hl
  | cons hfirst _ ih =>
      obtain ⟨hn, hrest⟩ := List.forall_mem_cons.mp hl
      exact List.forall_mem_cons.mpr ⟨isUnresolved_of_alike hfirst hn, ih hrest⟩

theorem References.undefined?_of_alike (s : Scope) {n m : Node} (h : Alike n m) :
    undefined? s m.kind = undefined? s n.kind := by
  obtain ⟨hrefers, hsame⟩ := h
  by_cases hn : n.refers = true
  · rw [(hsame hn).1]
  · have hnone : ∀ {n : Node}, ¬n.refers = true → undefined? s n.kind = none := by
      intro n hn
      obtain ⟨kind, a, number, children⟩ := n
      cases kind <;> first | rfl | exact absurd rfl hn
    rw [hnone hn, hnone (hrefers ▸ hn)]

theorem References.filterMap_undefined? (s : Scope) {l m : List Node} (h : List.Forall₂ Alike l m) :
    (m.filterMap fun n => undefined? s n.kind) = l.filterMap fun n => undefined? s n.kind := by
  induction h with
  | nil => rfl
  | cons hfirst _ ih => rw [List.filterMap_cons, List.filterMap_cons, undefined?_of_alike s hfirst, ih]

namespace Document

open References Forest

variable (d : Document) (words : Words) (cache : Cache) (isArticle : Bool)

theorem forall₂_alike_number :
    List.Forall₂ Alike (preorder d.children) (preorder (d.number cache isArticle).1.children) := by
  have hvisits := Numbering.forall₂_alike_visits cache (.start isArticle) d.positions
  rw [← (d.number_eq_visits cache isArticle).1, List.forall₂_map_right_iff] at hvisits
  rw [← map_node_positions [] false, List.forall₂_map_left_iff]
  exact hvisits

theorem forall₂_references_number :
    List.Forall₂ (fun n m => m.kind = n.kind ∧ m.attrs = n.attrs ∧ m.number = n.number) (references d.children)
      (references (d.number cache isArticle).1.children) := by
  have hfilter : List.Forall₂ Alike (references d.children) (references (d.number cache isArticle).1.children) :=
    List.rel_filter (fun n m h => by simp only [h.1]) (d.forall₂_alike_number cache isArticle)
  have hrefers : ∀ n ∈ references d.children, n.refers = true := fun n hn => (List.mem_filter.mp hn).2
  refine ((List.forall₂_and_left _ _).mpr ⟨hrefers, hfilter⟩).imp ?_
  rintro n m ⟨hrefers, -, h⟩
  exact h hrefers

variable {d} in
theorem textsAreLeaves_number (h : TextsAreLeaves d.children) :
    TextsAreLeaves (d.number cache isArticle).1.children := by
  intro m hm t ht
  obtain ⟨n, hn, hshape⟩ := exists_shape_eq_of_mem (shape_number d cache isArticle) hm
  have hkind := congrArg Node.kind hshape
  have hchildren := congrArg Node.children hshape
  rw [Node.kind_shape, Node.kind_shape, ht] at hkind
  rw [Node.children_shape, Node.children_shape] at hchildren
  obtain ⟨t', ht'⟩ : ∃ t', n.kind = .text t' := by
    cases hn : n.kind <;> rw [hn] at hkind <;> first | exact ⟨_, rfl⟩ | cases hkind
  rw [h n hn t' ht'] at hchildren
  cases hm : m.children with
  | nil => rfl
  | cons first rest =>
      rw [hm] at hchildren
      cases hchildren

/-- All that the references of a numbered document are resolved against. -/
def scope : Scope := ⟨(d.number cache isArticle).2.1, words, cache⟩

/-- The document with its labels known and its references resolved, and the references that lead nowhere. -/
def finished : Document × List Warning :=
  (d.number cache isArticle).1.resolve (d.number cache isArticle).2.1 words cache

/-- The warnings are those that the references and links call for, in the order of the document. -/
theorem snd_finished :
    (d.finished words cache isArticle).2 =
      (preorder d.children).filterMap fun n => undefined? (d.scope words cache isArticle) n.kind := by
  rw [← filterMap_undefined? _ (d.forall₂_alike_number cache isArticle), ← nodes_snd]
  rfl

variable {d} in
/-- References and links are carried over from the document before it is numbered. -/
theorem carries_finished (hunresolved : ∀ n ∈ preorder d.children, n.isUnresolved = true) :
    Carries (d.scope words cache isArticle) d.children (d.finished words cache isArticle).1.children := by
  have hnumbered := forall_isUnresolved (d.forall₂_alike_number cache isArticle) hunresolved
  obtain ⟨kept, hsub, hresolves, hall⟩ := (carries_nodes (s := d.scope words cache isArticle) hnumbered).joinAll
  obtain ⟨kept', hsub', hsame, hall'⟩ := exists_sublist_of_forall₂ (d.forall₂_references_number cache isArticle) hsub
  refine ⟨kept', hsub', ?_, fun hleaves => hall' (hall (textsAreLeaves_number cache isArticle hleaves))⟩
  refine forall₂_comp (T := Resolves (d.scope words cache isArticle)) ?_ hsame hresolves
  rintro n m k ⟨hkind, hattrs, hnumber⟩ h
  rw [Resolves, hkind, hattrs, hnumber] at h
  exact h

/-- No reference of a parsed document is resolved yet, and its texts are leaves. -/
theorem isUnresolved_of_parse {t : Text} {d : Document} (h : parse? t = some d) :
    (∀ n ∈ preorder d.children, n.isUnresolved = true) ∧ TextsAreLeaves d.children := by
  constructor
  · refine forall_preorder_of_parse (fun _ => rfl) (fun name attributes children => ?_) h
    rw [nodeOfXml]
    simp only [Node.isUnresolved]
    apply kindOf_cases (Q := fun kind => (match kind with | .ref _ _ target _ => target.isNone | _ => true) = true)
    case htable => simp [kindTable]
    all_goals intros; rfl
  · refine forall_preorder_of_parse (fun _ _ _ => rfl) (fun name attributes children t hkind => ?_) h
    rw [nodeOfXml] at hkind
    exact absurd hkind (kindOf_ne_text name attributes _ t)

/-- All references and links of a parsed document are carried over. -/
theorem forall₂_resolves_of_parse {t : Text} {d : Document} (h : parse? t = some d) :
    List.Forall₂ (Resolves (d.scope words cache isArticle)) (references d.children)
      (references (d.finished words cache isArticle).1.children) := by
  obtain ⟨hunresolved, hleaves⟩ := isUnresolved_of_parse h
  obtain ⟨kept, -, hresolves, hall⟩ := carries_finished words cache isArticle hunresolved
  rwa [hall hleaves] at hresolves

/-- What the labels of a document and the references to them have become. -/
structure IsResolved : Prop where
  /-- A label is known if something in the numbered document defines it, -/
  isSome_target?_iff : ∀ label, ((d.number cache isArticle).2.1.target? label).isSome ↔
    ∃ n ∈ preorder (d.number cache isArticle).1.children, n.defined? = some label
  /-- and then it leads where its first definition says, -/
  target?_eq : ∀ label, (d.number cache isArticle).2.1.target? label =
    (d.definitions cache isArticle).lookup label
  id_eq : ∀ label target, (d.number cache isArticle).2.1.target? label = some target → target.id = label
  /-- while every later one is reported. -/
  duplicates_eq : (d.number cache isArticle).2.2 =
    (repeated ((d.definitions cache isArticle).map Prod.fst)).map .duplicateLabel
  /-- References and links are resolved by the labels, or marked, or left alone. -/
  carries : Carries (d.scope words cache isArticle) d.children (d.finished words cache isArticle).1.children
  /-- What is marked is reported. -/
  undefined_eq : (d.finished words cache isArticle).2 =
    (preorder d.children).filterMap fun n => undefined? (d.scope words cache isArticle) n.kind

variable {d} in
/-- Labels are defined by the first of their definitions, and references that are not resolved yet follow them. -/
theorem isResolved (hunresolved : ∀ n ∈ preorder d.children, n.isUnresolved = true) :
    d.IsResolved words cache isArticle := by
  constructor
  case isSome_target?_iff =>
    intro label
    rw [target?_number, Numbering.isSome_lookup_iff, mem_map_definitions]
  case target?_eq => exact d.target?_number cache isArticle
  case id_eq =>
    intro label target h
    rw [target?_number] at h
    obtain ⟨before, after, heq, -⟩ := List.lookup_eq_some_iff.mp h
    apply id_eq_of_mem_definitions d cache isArticle
    rw [heq]
    exact List.mem_append_right before List.mem_cons_self
  case duplicates_eq => exact d.duplicates_number cache isArticle
  case carries => exact carries_finished words cache isArticle hunresolved
  case undefined_eq => exact d.snd_finished words cache isArticle

end Document

namespace LostReference

/-- A figure with the label of the section around it, a reference to the section, and a reference and a link to what
is not there. -/
def source : Text :=
  "<section label='a'><figure label='a'/>See <ref target='a'/>, <ref target='b'/>, <link href='#b'/></section>"

def parsed : Document := (Document.parse? source).get (by decide +kernel)

theorem parse_source : Document.parse? source = some parsed := (Option.some_get _).symm

/-- The label is the section's, and three warnings are given. -/
theorem warnings_eq : parsed.IsResolved .default (.empty "s") false ∧
    (parsed.number (.empty "s") false).2.1.target? "a" = some ⟨"0.1", "a", "section"⟩ ∧
    (parsed.number (.empty "s") false).2.2 ++ (parsed.finished .default (.empty "s") false).2 =
      [.duplicateLabel "a", .undefinedReference "b", .undefinedLink "b"] := by
  have hunresolved := (Document.isUnresolved_of_parse parse_source).1
  refine ⟨Document.isResolved .default (.empty "s") false hunresolved, ?_⟩
  decide +kernel

end LostReference

end Manuscript
