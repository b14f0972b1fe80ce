import Manuscript.Proofs.References
import Manuscript.Proofs.Salt.Numbering

/-!
References in documents that are written alike.

Main statement: references are resolved alike, with alike warnings (`resolve_like`), as long as no linking phrase is
read from the middle of a token.
-/

namespace Manuscript

namespace References

/-- Splitting goes past a stretch that reads as the phrase at no place inside of it. -/
theorem splitReading?_append (cache : Cache) (phrase : Text) {stretch : Text} (hne : stretch ≠ [])
    (backwards tail : Text)
    (hinside : ∀ u w, stretch = u ++ w → u ≠ [] → w ≠ [] → cache.readable (w ++ tail) ≠ phrase) :
    splitReading? cache phrase (stretch.reverse ++ backwards) tail =
      if cache.readable (stretch ++ tail) = phrase then some (backwards.reverse, stretch ++ tail)
      else splitReading? cache phrase backwards (stretch ++ tail) := by
  induction stretch using List.reverseRecOn generalizing tail with
  | nil => exact absurd rfl hne
  | append_singleton stretch c ih =>
      rw [List.reverse_append, List.reverse_singleton, List.singleton_append, List.cons_append, splitReading?,
        List.append_assoc, List.singleton_append]
      cases stretch with
      | nil => rfl
      | cons d stretch =>
          have hlast : cache.readable (c :: tail) ≠ phrase :=
            hinside (d :: stretch) [c] rfl (List.cons_ne_nil d _) (List.cons_ne_nil c _)
          rw [if_neg hlast]
          refine ih (List.cons_ne_nil d _) (c :: tail) fun u w hsplit hu hw => ?_
          have hlonger := hinside u (w ++ [c]) (by rw [hsplit, List.append_assoc]) hu (by simp)
          rwa [List.append_assoc] at hlonger

end References

/-- Splits a script, which is given backwards, into a beginning and the shortest end that reads as `phrase`. -/
def Script.splitReading? (phrase : Text) : (backwards tail : Script) → Option (Script × Script)
  | [], _ => none
  | sign :: backwards, tail =>
    if readable (sign :: tail) = phrase then some (backwards.reverse, sign :: tail)
    else splitReading? phrase backwards (sign :: tail)

theorem Script.eq_append_of_splitReading? {phrase : Text} {backwards tail l r : Script}
    (h : splitReading? phrase backwards tail = some (l, r)) : backwards.reverse ++ tail = l ++ r := by
  induction backwards generalizing tail with
  | nil => cases h
  | cons sign backwards ih =>
      rw [splitReading?] at h
      split at h
      · obtain ⟨rfl, rfl⟩ := Prod.mk.inj (Option.some.inj h)
        simp
      · rw [← ih h]
        simp

namespace Salts

open References (Scope)

variable {words : Words} {first second : Text} {calls : List Call} {t t' : Text} {salt : Text}

/-- The text of a script is split as the script is. -/
theorem splitReading?_text {m : Script} (hm : (clear first second calls).permits m) (hsalt : salt ∈ [first, second])
    (hdistinct : Call.Distinct salt calls) {phrase : Text}
    (hwhole : ∀ l call r, m = l ++ .token call :: r → ∀ u w, call.token salt = u ++ w → u ≠ [] → w ≠ [] →
      (Cache.build salt calls).readable (w ++ Script.text salt r) ≠ phrase)
    (backwards tail : Script) (hsplit : m = backwards.reverse ++ tail) :
    References.splitReading? (Cache.build salt calls) phrase (Script.text salt backwards.reverse).reverse
        (Script.text salt tail) =
      (Script.splitReading? phrase backwards tail).map fun p => (Script.text salt p.1, Script.text salt p.2) := by
  induction backwards generalizing tail with
  | nil => rfl
  | cons sign backwards ih =>
      rw [List.reverse_cons, List.append_assoc, List.singleton_append] at hsplit
      have hrest := ih (sign :: tail) hsplit
      have hpart : sign :: tail <:+: m := hsplit ▸ (List.suffix_append _ _).isInfix
      have hread := readable_text ((clear first second calls).permits_of_part hm hpart) hsalt hdistinct
      rw [Script.splitReading?, List.reverse_cons, Script.text_append, List.reverse_append]
      have hstretch : ∀ stretch, Script.text salt [sign] = stretch → Script.text salt (sign :: tail) =
          stretch ++ Script.text salt tail := by
        rintro _ rfl
        exact Script.text_append salt [sign] tail
      cases sign with
      | character c =>
          have htext : (Script.text salt [.character c]).reverse = [c] := rfl
          rw [htext, List.singleton_append, References.splitReading?]
          rw [Script.text_character] at hrest hread
          rw [hread, hrest]
          split
          · simp
          · rfl
      | token call =>
          have htext : Script.text salt [.token call] = call.token salt := by simp
          rw [htext, References.splitReading?_append _ _ (call.token_ne_nil salt) _ _ (hwhole _ call tail hsplit)]
          rw [Script.text_token] at hrest hread
          rw [hread, hrest]
          split
          · simp
          · rfl

/-- The same phrase is split off texts that are alike. -/
theorem splitPhrase?_rel (hmarkers : Markers first second calls) (labels labels' : LabelTable)
    (h : (numbered words first second calls).shown t t') :
    Option.Rel (fun p p' => (of first second calls).Alike p.1 p'.1 ∧ (of first second calls).Alike p.2 p'.2)
      (References.splitPhrase? ⟨labels, words, Cache.build first calls⟩ t)
      (References.splitPhrase? ⟨labels', words, Cache.build second calls⟩ t') := by
  obtain ⟨m, hm, hwhole, rfl, rfl⟩ := h
  have hread {salt : Text} (hsalt : salt ∈ [first, second]) :
      (Cache.build salt calls).readable (Script.text salt m) = m.readable :=
    readable_text hm hsalt (hmarkers.distinct salt hsalt)
  unfold References.splitPhrase?
  dsimp only
  rw [hread (by simp), hread (by simp)]
  cases hphrase : words.splitPhrase? m.readable with
  | none => exact .none
  | some found =>
      obtain ⟨head, phrase⟩ := found
      have hsplit {salt : Text} (hsalt : salt ∈ [first, second]) :
          References.splitReading? (Cache.build salt calls) phrase (Script.text salt m).reverse [] =
            (Script.splitReading? phrase m.reverse []).map fun p => (Script.text salt p.1, Script.text salt p.2) := by
        have htext := splitReading?_text hm hsalt (hmarkers.distinct salt hsalt)
          (fun l call r hm => hwhole head phrase hphrase l call r hm salt hsalt) m.reverse [] (by simp)
        rwa [List.reverse_reverse] at htext
      simp only [Option.bind_eq_bind, Option.bind_some, hsplit (by simp : first ∈ [first, second]),
        hsplit (by simp : second ∈ [first, second])]
      cases hfound : Script.splitReading? phrase m.reverse [] with
      | none => exact .none
      | some parts =>
          obtain ⟨l, r⟩ := parts
          have hparts := Script.eq_append_of_splitReading? hfound
          rw [List.append_nil, List.reverse_reverse] at hparts
          subst hparts
          exact .some ⟨.of_part hm.1 (List.prefix_append l r).isInfix rfl rfl,
            .of_part hm.1 (List.suffix_append l r).isInfix rfl rfl⟩

theorem Alike.joinPhrase (h : (of first second calls).Alike t t') :
    (of first second calls).Alike (References.joinPhrase t) (References.joinPhrase t') := by
  have hword := h.before? (c := '~') (by decide)
  unfold References.joinPhrase
  generalize hx : Text.before? "~" t = x, hx' : Text.before? "~" t' = x'
  change Option.Rel _ (Text.before? "~" t) (Text.before? "~" t') at hword
  rw [hx, hx'] at hword
  cases hword with
  | none => exact h
  | some hword => exact hword.append (.refl _)

section Resolving

variable (first second calls) in
/-- How documents are related that are written with two salts. -/
def written : Likeness where
  shown := (of first second calls).Alike
  joined _ _ := True
  named := (of first second calls).Alike

variable (words first second calls) in
/-- How what nodes are is related once references are resolved, but phrases are not joined. -/
def resolved : Likeness := { numbered words first second calls with named := (of first second calls).Alike }

theorem written_of_resolved {kind kind' : Kind} (h : kind.Like (resolved words first second calls) kind') :
    kind.Like (written first second calls) kind' := by
  refine h.mono (fun _ _ h => h) ?_
  rintro t t' rfl rfl
  cases h with
  | bare hbare => cases hbare
  | text hshown =>
      obtain ⟨m, hm, -, rfl, rfl⟩ := hshown
      exact ⟨m, hm.1, rfl, rfl⟩

/-- Nodes that are written alike before linking phrases are joined. -/
def Pending (words : Words) (first second : Text) (calls : List Call) (n n' : Node) : Prop :=
  n.Like (written first second calls) n' ∧ n.kind.Like (resolved words first second calls) n'.kind

variable (hmarkers : Markers first second calls)

include hmarkers

theorem join?_rel (labels labels' : LabelTable) {before before' reference reference' : Node}
    (hbefore : Pending words first second calls before before')
    (href : reference.Like (written first second calls) reference') :
    Option.Rel (fun p p' => List.Forall₂ (Node.Like (written first second calls)) p.1 p'.1 ∧
        p.2.Like (written first second calls) p'.2)
      (References.join? ⟨labels, words, Cache.build first calls⟩ before reference)
      (References.join? ⟨labels', words, Cache.build second calls⟩ before' reference') := by
  obtain ⟨hnode, hkind⟩ := hbefore
  cases hnode with
  | @node kind kind' hwritten a a' hattrs number children children' hjoined hchildren =>
      dsimp only at hkind
      cases href with
      | @node kind₂ kind₂' hkind₂ a₂ a₂' hattrs₂ number₂ children₂ children₂' hjoined₂ hchildren₂ =>
          cases hkind with
          | text hshown =>
              have hsplit := splitPhrase?_rel hmarkers labels labels' hshown
              cases hkind₂ with
              | ref hlabel style htarget hphrase =>
                  cases htarget with
                  | none => exact .none
                  | some htarget =>
                      refine rel_map hsplit ?_
                      rintro ⟨head, phrase⟩ ⟨head', phrase'⟩ ⟨hhead, hfound⟩
                      refine ⟨?_, .node (.ref hlabel style (.some htarget)
                          (.some hfound.joinPhrase)) hattrs₂ _ trivial hchildren₂⟩
                      simp only [hhead.eq_nil_iff]
                      split
                      · exact .nil
                      · exact .cons (.node (.text hhead) hattrs _ trivial hchildren) .nil
              | bare hbare =>
                  unfold References.join?
                  cases kind₂ with
                  | ref => cases hbare
                  | _ => exact .none
              | _ => exact .none
          | bare hbare =>
              cases kind with
              | text => cases hbare
              | _ => exact .none
          | _ => exact .none

theorem joinAll_like {labels labels' : LabelTable} (l : List Node) {l' : List Node}
    (h : List.Forall₂ (Pending words first second calls) l l') :
    List.Forall₂ (Node.Like (written first second calls))
      (References.joinAll ⟨labels, words, Cache.build first calls⟩ l)
      (References.joinAll ⟨labels', words, Cache.build second calls⟩ l') := by
  match l, l', h with
  | [], [], .nil => exact .nil
  | [only], [only'], .cons honly .nil => exact .cons honly.1 .nil
  | before :: next :: rest, before' :: next' :: rest', .cons hbefore (.cons hnext hrest) =>
      have hjoin := join?_rel hmarkers labels labels' hbefore hnext.1
      rw [References.joinAll, References.joinAll]
      generalize References.join? ⟨labels, words, Cache.build first calls⟩ before next = x,
        References.join? ⟨labels', words, Cache.build second calls⟩ before' next' = x' at hjoin ⊢
      cases hjoin with
      | none => exact .cons hbefore.1 (joinAll_like (next :: rest) (.cons hnext hrest))
      | some hboth => exact List.rel_append hboth.1 (.cons hboth.2 (joinAll_like rest hrest))

variable {labels labels' : LabelTable} (hlabels : LabelTable.Like (clear first second calls).Alike labels labels')

include hlabels

theorem resolveKind_like {kind kind' : Kind} (h : kind.Like (numbered words first second calls) kind') :
    (References.resolveKind ⟨labels, words, Cache.build first calls⟩ kind).1.Like (resolved words first second calls)
        (References.resolveKind ⟨labels', words, Cache.build second calls⟩ kind').1 ∧
      Option.Rel (Warning.Like (clear first second calls).Alike)
        (References.resolveKind ⟨labels, words, Cache.build first calls⟩ kind).2
        (References.resolveKind ⟨labels', words, Cache.build second calls⟩ kind').2 := by
  have hsame : kind.Like (resolved words first second calls) kind' :=
    h.mono (fun _ _ => Alike.of_clear) fun _ _ hkind hkind' => by
      subst hkind hkind'
      cases h with
      | bare hbare => cases hbare
      | text hshown => exact hshown
  cases h with
  | bare hbare =>
      cases kind with
      | link | ref => cases hbare
      | _ => exact ⟨hsame, .none⟩
  | text | graphic => exact ⟨hsame, .none⟩
  | @ref label label' hlabel style target target' htarget phrase phrase' hphrase =>
      have hfound := target?_rel hmarkers hlabels hlabel
      unfold References.resolveKind
      dsimp only
      generalize labels.target? label = x, labels'.target? label' = x' at hfound ⊢
      cases hfound with
      | none => exact ⟨hsame, .some (.undefinedReference hlabel)⟩
      | some hfound =>
          refine ⟨.ref hlabel.of_clear style (.some ⟨hfound.id.of_clear, hfound.number⟩) ?_, .none⟩
          exact rel_mono hphrase fun _ _ => Alike.of_clear
  | @link href href' hhref =>
      obtain ⟨hread, habsent⟩ := hhref.readable_eq hmarkers
      unfold References.resolveKind
      dsimp only
      rw [← hread]
      cases hlabel : Text.after? "#" ((Cache.build first calls).readable href) with
      | none => exact ⟨hsame, .none⟩
      | some label =>
          have hsuffix : label <:+: (Cache.build first calls).readable href := by
            rw [Text.eq_append_of_after? hlabel]
            exact (List.suffix_append _ label).isInfix
          have hlabel' : (clear first second calls).Alike label label := .of_absent (habsent.of_part hsuffix)
          have hfound := target?_rel hmarkers hlabels hlabel'
          dsimp only
          generalize labels.target? label = x, labels'.target? label = x' at hfound ⊢
          cases hfound with
          | none => exact ⟨hsame, .some (.undefinedLink hlabel')⟩
          | some hfound => exact ⟨.link (hfound.id.of_clear.cons '#'), .none⟩

omit hmarkers hlabels

mutual

theorem resolvedNode_like (hmarkers : Markers first second calls)
    (hlabels : LabelTable.Like (clear first second calls).Alike labels labels') {n n' : Node}
    (h : n.Like (numbered words first second calls) n') :
    Pending words first second calls (References.node ⟨labels, words, Cache.build first calls⟩ n).1
        (References.node ⟨labels', words, Cache.build second calls⟩ n').1 ∧
      List.Forall₂ (Warning.Like (clear first second calls).Alike)
        (References.node ⟨labels, words, Cache.build first calls⟩ n).2
        (References.node ⟨labels', words, Cache.build second calls⟩ n').2 := by
  match n, n', h with
  | ⟨kind, a, _, children⟩, ⟨kind', a', _, children'⟩, .node hkind ha number hjoined hchildren =>
      obtain ⟨hresolved, hwarning⟩ := resolveKind_like hmarkers hlabels hkind
      obtain ⟨hinside, hwarnings⟩ := resolvedNodes_like hmarkers hlabels children hchildren
      have hnamed : (numbered words first second calls).named = (clear first second calls).Alike := rfl
      have hundefined := addClass_like hmarkers hnamed ha
        (.of_length_lt (by decide : References.undefinedClass.length < 40))
      rw [References.node, References.node]
      dsimp only
      generalize References.resolveKind ⟨labels, words, Cache.build first calls⟩ kind = x,
        References.resolveKind ⟨labels', words, Cache.build second calls⟩ kind' = x' at hresolved hwarning ⊢
      obtain ⟨kind, warning⟩ := x
      obtain ⟨kind', warning'⟩ := x'
      have hattrs : (if warning.isSome then a.addClass References.undefinedClass else a).Like
          (numbered words first second calls)
          (if warning'.isSome then a'.addClass References.undefinedClass else a') := by
        cases hwarning with
        | none => exact ha
        | some => exact hundefined
      refine ⟨⟨.node (written_of_resolved hresolved) (hattrs.mono fun _ _ => Alike.of_clear) number trivial
        (joinAll_like hmarkers _ hinside), hresolved⟩, List.rel_append ?_ hwarnings⟩
      cases hwarning with
      | none => exact .nil
      | some hwarning => exact .cons hwarning .nil

theorem resolvedNodes_like (hmarkers : Markers first second calls)
    (hlabels : LabelTable.Like (clear first second calls).Alike labels labels') (l : List Node) {l' : List Node}
    (h : List.Forall₂ (Node.Like (numbered words first second calls)) l l') :
    List.Forall₂ (Pending words first second calls) (References.nodes ⟨labels, words, Cache.build first calls⟩ l).1
        (References.nodes ⟨labels', words, Cache.build second calls⟩ l').1 ∧
      List.Forall₂ (Warning.Like (clear first second calls).Alike)
        (References.nodes ⟨labels, words, Cache.build first calls⟩ l).2
        (References.nodes ⟨labels', words, Cache.build second calls⟩ l').2 := by
  match l, l', h with
  | [], [], .nil => exact ⟨.nil, .nil⟩
  | n :: rest, n' :: rest', .cons hn hrest =>
      obtain ⟨hnode, hfound⟩ := resolvedNode_like hmarkers hlabels hn
      obtain ⟨hnodes, hwarnings⟩ := resolvedNodes_like hmarkers hlabels rest hrest
      exact ⟨.cons hnode hnodes, List.rel_append hfound hwarnings⟩

end

/-- References in documents that are numbered alike are resolved alike. -/
theorem resolve_like (hmarkers : Markers first second calls)
    (hlabels : LabelTable.Like (clear first second calls).Alike labels labels') {d d' : Document}
    (h : List.Forall₂ (Node.Like (numbered words first second calls)) d.children d'.children) :
    List.Forall₂ (Node.Like (written first second calls)) (d.resolve labels words (Cache.build first calls)).1.children
        (d'.resolve labels' words (Cache.build second calls)).1.children ∧
      List.Forall₂ (Warning.Like (clear first second calls).Alike) (d.resolve labels words (Cache.build first calls)).2
        (d'.resolve labels' words (Cache.build second calls)).2 := by
  obtain ⟨hnodes, hwarnings⟩ := resolvedNodes_like hmarkers hlabels d.children h
  exact ⟨joinAll_like hmarkers _ hnodes, hwarnings⟩

end Resolving

end Salts

end Manuscript
