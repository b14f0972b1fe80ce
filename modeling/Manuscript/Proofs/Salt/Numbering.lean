import Manuscript.Proofs.Numbering.Positions
import Manuscript.Proofs.Salt.Document
import Manuscript.Proofs.Text.Numeral

/-!
Numbers and anchors in documents that are written alike.

Main statement: documents that are alike get the same numbers, and alike anchors, labels and warnings (`number_like`).
-/

namespace Manuscript

/-- The label that a warning names. -/
def Warning.label? : Warning → Option Text
  | .duplicateLabel label | .undefinedReference label | .undefinedLink label => some label
  | .inclusionFailed _ _ | .resultsNotKept _ => none

/-- The same warnings, but for related labels that they name. -/
inductive Warning.Like (r : Text → Text → Prop) : Warning → Warning → Prop
  | nameless {warning : Warning} (h : warning.label? = none) : Like r warning warning
  | duplicateLabel {label label' : Text} (h : r label label') : Like r (.duplicateLabel label) (.duplicateLabel label')
  | undefinedReference {label label' : Text} (h : r label label') :
      Like r (.undefinedReference label) (.undefinedReference label')
  | undefinedLink {label label' : Text} (h : r label label') : Like r (.undefinedLink label) (.undefinedLink label')

/-- Targets of labels with related ids. -/
structure LabelTarget.Like (r : Text → Text → Prop) (target target' : LabelTarget) : Prop where
  number : target.number = target'.number
  id : r target.id target'.id
  kind : target.kind = target'.kind

/-- Tables with related labels and targets. -/
abbrev LabelTable.Like (r : Text → Text → Prop) : LabelTable → LabelTable → Prop :=
  List.Forall₂ fun l l' => r l.1 l'.1 ∧ l.2.Like r l'.2

/-- States that are the same but for related ids and labels. -/
structure Numbering.State.Like (r : Text → Text → Prop) (s s' : Numbering.State) : Prop where
  counters : s.counters = s'.counters
  ids : List.Forall₂ r s.ids s'.ids
  labels : LabelTable.Like r s.labels s'.labels
  warnings : List.Forall₂ (Warning.Like r) s.warnings s'.warnings
  isInFront : s.isInFront = s'.isInFront

theorem Text.natBelow?_eq_none {bound : Nat} {t : Text} {c : Char} (hc : c ∈ t) (hdigit : c.isDigit = false)
    (hplus : c ≠ '+') :
    natBelow? bound t = none := by
  have hmem : c ∈ (after? ['+'] t).getD t := by
    cases hafter : after? ['+'] t with
    | none => exact hc
    | some rest =>
        rw [eq_append_of_after? hafter] at hc
        exact (List.mem_append.mp hc).resolve_left fun h => hplus (List.mem_singleton.mp h)
  refine if_neg fun h => ?_
  rw [List.all_eq_true.mp h.2 c hmem] at hdigit
  cases hdigit

namespace Salts

open Manuscript.Numbering (State freshId candidates anchor slug)

variable {words : Words} {first second : Text} {calls : List Call} {t t' : Text} {like : Likeness}

section Numerals

variable (hletters : (of first second calls).HasLetters)

include hletters

/-- A text with a token in it is no numeral. -/
theorem natBelow?_eq (bound : Nat) (h : (of first second calls).Alike t t') :
    Text.natBelow? bound t = Text.natBelow? bound t' := by
  obtain ⟨m, hm, (rfl : Script.text first m = t), (rfl : Script.text second m = t')⟩ := h
  by_cases htoken : ∃ call, .token call ∈ m
  · obtain ⟨call, hcall⟩ := htoken
    have hnone : ∀ salt ∈ [first, second], Text.natBelow? bound (Script.text salt m) = none := by
      intro salt hsalt
      obtain ⟨before, c, after, hsplit, hc, halpha, -⟩ := hletters.exists_letter hm hcall hsalt
      have hmem : c ∈ Script.text salt m := by
        refine List.mem_flatMap.mpr ⟨_, hcall, ?_⟩
        rw [Sign.text, hsplit]
        exact List.mem_append_right before List.mem_cons_self
      have hapart : ∀ c ∈ hexDigits, c.isAlpha = true → c.isDigit = false ∧ c ≠ '+' :=
        forall_mem_hexDigits (by decide +kernel)
      exact Text.natBelow?_eq_none hmem (hapart c hc halpha).1 (hapart c hc halpha).2
    rw [hnone first (by simp), hnone second (by simp)]
  · rw [Script.text_eq_of_forall_notMem fun call hcall => htoken ⟨call, hcall⟩]

theorem suggested?_eq (c : Counters) (h : (of first second calls).Alike t t') : c.suggested? t = c.suggested? t' := by
  have hnumber {u u' : Text} (hu : (of first second calls).Alike u u') : Counters.number? u = Counters.number? u' :=
    congrArg (Option.map UInt32.ofNat) (natBelow?_eq hletters _ hu)
  have htrim := h.trim
  have hcut := htrim.cut? "." (by decide) (by decide) (by decide)
  unfold Counters.suggested?
  dsimp only
  rw [hnumber htrim]
  split
  · rfl
  · generalize Text.cut? "." (Text.trim t) = x, Text.cut? "." (Text.trim t') = x' at hcut ⊢
    cases hcut with
    | none => rfl
    | some hparts =>
        simp only [Option.bind_eq_bind, Option.bind_some]
        rw [hnumber hparts.1, hnumber hparts.2]

theorem addFloat_eq (c : Counters) (kind : FloatKind) {seq seq' : Option Text}
    (h : Option.Rel (of first second calls).Alike seq seq') : c.addFloat kind seq = c.addFloat kind seq' := by
  have hsuggested : seq.bind c.suggested? = seq'.bind c.suggested? := by
    cases h with
    | none => rfl
    | some ht => exact suggested?_eq hletters c ht
  unfold Counters.addFloat
  rw [hsuggested]

/-- A text of digits and of characters that are no hexadecimal digits holds no token. -/
theorem absentFrom_of_forall (h : ∀ c ∈ t, c.isDigit = true ∨ c ∉ hexDigits) :
    Call.AbsentFrom [first, second] calls t := by
  intro salt hsalt call hcall htoken
  have hpermits : (of first second calls).permits [.token call] := by
    intro other hother
    obtain rfl := Sign.token.inj (List.mem_singleton.mp hother)
    exact hcall
  obtain ⟨before, c, after, hsplit, hc, halpha, -⟩ := hletters.exists_letter hpermits (List.mem_singleton_self _) hsalt
  have hmem : c ∈ t := htoken.subset (hsplit ▸ List.mem_append_right before List.mem_cons_self)
  have hapart : ∀ c ∈ hexDigits, c.isAlpha = true → c.isDigit = false :=
    forall_mem_hexDigits (by decide +kernel)
  obtain hdigit | hother := h c hmem
  · rw [hapart c hc halpha] at hdigit
    cases hdigit
  · exact hother hc

theorem absentFrom_numbered {name : Text} (hname : name.length < 40) (ns : List Nat) :
    Call.AbsentFrom [first, second] calls
      (name ++ "-" ++ (Text.dotted ns).map fun c => if c = '.' then '-' else c) := by
  rw [List.append_assoc]
  refine Call.AbsentFrom.append_cons (by decide) (Call.absentFrom_of_length_lt hname) ?_
  refine absentFrom_of_forall hletters fun c hc => ?_
  obtain ⟨d, hd, rfl⟩ := List.mem_map.mp hc
  by_cases hpoint : d = '.'
  · exact .inr (by rw [if_pos hpoint]; decide)
  · rw [if_neg hpoint]
    exact .inl ((Text.mem_dotted hd).resolve_right hpoint)

theorem absentFrom_candidates {base : Text} (hbase : Call.AbsentFrom [first, second] calls base) (ids : List Text) :
    ∀ id ∈ candidates ids base, Call.AbsentFrom [first, second] calls id := by
  refine List.forall_mem_cons.mpr ⟨hbase, fun id hid => ?_⟩
  obtain ⟨n, -, rfl⟩ := List.mem_map.mp hid
  rw [List.append_assoc]
  refine hbase.append_cons (by decide) (absentFrom_of_forall hletters fun c hc => ?_)
  exact .inl (Text.isDigit_of_mem_ofNat hc)

end Numerals

section States

variable (hmarkers : Markers first second calls)

include hmarkers

theorem target?_rel {labels labels' : LabelTable} (h : LabelTable.Like (clear first second calls).Alike labels labels')
    (ht : (clear first second calls).Alike t t') :
    Option.Rel (LabelTarget.Like (clear first second calls).Alike) (labels.target? t) (labels'.target? t') := by
  unfold LabelTable.target?
  induction h with
  | nil => exact .none
  | @cons l l' _ _ hone _ ih =>
      obtain ⟨name, target⟩ := l
      obtain ⟨name', target'⟩ := l'
      rw [List.lookup_cons, List.lookup_cons]
      have hkey : (t == name) = (t' == name') := by
        rw [Bool.eq_iff_iff, beq_iff_eq, beq_iff_eq]
        exact Alike.eq_iff_eq hmarkers ht hone.1
      rw [hkey]
      cases t' == name' with
      | true => exact .some hone.2
      | false => exact ih

theorem freshId_eq {ids ids' : List Text}
    (h : List.Forall₂ (clear first second calls).Alike ids ids') {base : Text}
    (hbase : Call.AbsentFrom [first, second] calls base) :
    freshId ids base = freshId ids' base ∧ Call.AbsentFrom [first, second] calls (freshId ids base) := by
  have habsent := absentFrom_candidates hmarkers.letters hbase ids
  have hcandidates : candidates ids base = candidates ids' base := by
    unfold candidates
    rw [h.length_eq]
  have hfind : (candidates ids base).find? (fun id => id ∉ ids) = (candidates ids base).find? fun id => id ∉ ids' := by
    refine List.find?_congr fun id hid => ?_
    rw [decide_eq_decide]
    exact not_congr (mem_iff_mem hmarkers h (.of_absent (habsent id hid)))
  constructor
  · unfold freshId
    rw [hfind, hcandidates]
  · unfold freshId
    cases hfound : (candidates ids base).find? fun id => id ∉ ids with
    | none => exact hbase
    | some id => exact habsent id (List.mem_of_find?_eq_some hfound)

variable {s s' : State}

theorem register_like (h : s.Like (clear first second calls).Alike s') {label label' : Option Text}
    (hlabel : Option.Rel (clear first second calls).Alike label label') {target target' : LabelTarget}
    (htarget : target.Like (clear first second calls).Alike target') :
    (s.register label target).Like (clear first second calls).Alike (s'.register label' target') := by
  cases hlabel with
  | none => exact h
  | @some t t' ht =>
      have hfound := target?_rel hmarkers h.labels ht
      unfold State.register
      dsimp only
      generalize s.labels.target? t = x, s'.labels.target? t' = x' at hfound ⊢
      cases hfound with
      | none => exact { h with labels := List.rel_append h.labels (.cons ⟨ht, htarget⟩ .nil) }
      | some _ => exact { h with warnings := List.rel_append h.warnings (.cons (.duplicateLabel ht) .nil) }

theorem heading_like (hnamed : like.named = (clear first second calls).Alike)
    (h : s.Like (clear first second calls).Alike s') (level : Level) {a a' : Attrs} (ha : a.Like like a') {title : Text}
    (hslug : Call.AbsentFrom [first, second] calls (slug title)) :
    (Numbering.heading s level a title).1.Like like (Numbering.heading s' level a' title).1 ∧
      (Numbering.heading s level a title).2.1 = (Numbering.heading s' level a' title).2.1 ∧
      (Numbering.heading s level a title).2.2.Like (clear first second calls).Alike
        (Numbering.heading s' level a' title).2.2 := by
  have hlevel : level.name.length < 40 := by cases level <;> decide
  have hlabel := ha.label
  have hid := ha.id
  rw [hnamed] at hlabel hid
  have hanchor {new : Text} (hnew : Call.AbsentFrom [first, second] calls new) :
      (clear first second calls).Alike (anchor a new) (anchor a' new) := rel_getD (rel_or hlabel hid) (.of_absent hnew)
  have hcond : (a.isStarred || s.isInFront || (s.counters.isArticle && level == .chapter)) =
      (a'.isStarred || s'.isInFront || (s'.counters.isArticle && level == .chapter)) := by
    rw [ha.isStarred, h.isInFront, h.counters]
  unfold Numbering.heading
  by_cases hplain : (a'.isStarred || s'.isInFront || (s'.counters.isArticle && level == .chapter)) = true
  · have hbase : Call.AbsentFrom [first, second] calls (if slug title = [] then level.name else slug title) := by
      split
      · exact Call.absentFrom_of_length_lt hlevel
      · exact hslug
    obtain ⟨hfresh, habsent⟩ := freshId_eq hmarkers h.ids hbase
    have hid := hanchor habsent
    rw [if_pos (hcond.trans hplain), if_pos hplain]
    dsimp only
    rw [← hfresh]
    have hclass := addClass_like hmarkers hnamed ha (.of_length_lt (by decide : ("unnumbered".toList).length < 40))
    refine ⟨{ hclass with id := .some (hnamed ▸ hid) }, rfl, ?_⟩
    refine register_like hmarkers ?_ hlabel ?_
    · exact ⟨h.counters, .cons hid h.ids, h.labels, h.warnings, h.isInFront⟩
    · exact ⟨rfl, hid, rfl⟩
  · obtain ⟨ns, hns⟩ : ∃ ns, (s'.counters.enter level).headingNumber level = Text.dotted ns := by
      unfold Counters.headingNumber Counters.dotted
      rw [← Function.comp_def Text.ofNat UInt32.toNat, ← List.map_map]
      exact ⟨_, rfl⟩
    rw [if_neg (hcond ▸ hplain), if_neg hplain, h.counters]
    dsimp only
    rw [hns]
    have hid := hanchor (absentFrom_numbered hmarkers.letters hlevel ns)
    refine ⟨{ ha with id := .some (hnamed ▸ hid) }, rfl, ?_⟩
    refine register_like hmarkers ?_ hlabel ?_
    · exact ⟨rfl, .cons hid h.ids, h.labels, h.warnings, h.isInFront⟩
    · exact ⟨rfl, hid, rfl⟩

theorem float_like (hnamed : like.named = (clear first second calls).Alike)
    (h : s.Like (clear first second calls).Alike s') (kind : FloatKind) {a a' : Attrs} (ha : a.Like like a') :
    (Numbering.float s kind a).1.Like like (Numbering.float s' kind a').1 ∧
      (Numbering.float s kind a).2.1 = (Numbering.float s' kind a').2.1 ∧
      (Numbering.float s kind a).2.2.Like (clear first second calls).Alike (Numbering.float s' kind a').2.2 := by
  have hkind : kind.name.length < 40 := by cases kind <;> decide
  have hlabel := ha.label
  have hid := ha.id
  have hseq := ha.seq
  rw [hnamed] at hlabel hid hseq
  unfold Numbering.float
  by_cases hstarred : a'.isStarred = true
  · rw [if_pos (ha.isStarred.trans hstarred), if_pos hstarred]
    have hclass := addClass_like hmarkers hnamed ha (.of_length_lt (by decide : ("unnumbered".toList).length < 40))
    exact ⟨{ hclass with id := hnamed ▸ rel_or hlabel hid }, rfl, h⟩
  · have hcounters : s.counters.addFloat kind a.seq = s'.counters.addFloat kind a'.seq := by
      rw [h.counters]
      exact addFloat_eq hmarkers.letters _ kind (rel_mono hseq fun _ _ => Alike.of_clear)
    obtain ⟨ns, hns⟩ : ∃ ns, (s'.counters.addFloat kind a'.seq).floatNumber kind = Text.dotted ns := by
      unfold Counters.floatNumber Counters.dotted
      split
      · exact ⟨_, (Text.dotted_singleton _).symm⟩
      · rw [← Function.comp_def Text.ofNat UInt32.toNat, ← List.map_map]
        exact ⟨_, rfl⟩
    rw [if_neg (ha.isStarred ▸ hstarred), if_neg hstarred, hcounters]
    dsimp only
    rw [hns]
    have hanchor := rel_getD (rel_or hlabel hid) (.of_absent (absentFrom_numbered hmarkers.letters hkind ns))
    refine ⟨{ ha with id := .some (hnamed ▸ hanchor) }, rfl, ?_⟩
    refine register_like hmarkers ?_ hlabel ?_
    · exact ⟨rfl, .cons hanchor h.ids, h.labels, h.warnings, h.isInFront⟩
    · exact ⟨rfl, hanchor, rfl⟩

end States

section Titles

mutual

/-- The texts of documents are alike one by one. -/
theorem forall₂_texts {n n' : Node} (h : Node.Like like n n') : List.Forall₂ like.shown n.texts n'.texts := by
  match n, n', h with
  | ⟨kind, a, _, children⟩, ⟨kind', a', _, children'⟩, .node hkind _ _ _ hchildren =>
      have hinside := forall₂_textsIn children hchildren
      cases hkind with
      | text ht => exact .cons ht hinside
      | bare hbare =>
          cases kind with
          | text t => cases hbare
          | _ => exact hinside
      | _ => exact hinside

theorem forall₂_textsIn (l : List Node) {l' : List Node} (h : List.Forall₂ (Node.Like like) l l') :
    List.Forall₂ like.shown (Node.textsIn l) (Node.textsIn l') := by
  match l, l', h with
  | [], [], .nil => exact .nil
  | n :: rest, n' :: rest', .cons hn hrest => exact List.rel_append (forall₂_texts hn) (forall₂_textsIn rest hrest)

end

theorem title?_rel {children children' : List Node} (h : List.Forall₂ (Node.Like like) children children') :
    Option.Rel (fun n n' => Node.Like like n n' ∧ n.kind = .title) (Node.title? children) (Node.title? children') := by
  unfold Node.title?
  induction h with
  | nil => exact .none
  | @cons n n' _ _ hone _ ih =>
      have hkind : n.kind = .title ↔ n'.kind = .title := by
        cases hone with
        | node hkind => exact hkind.eq_iff _ rfl
      by_cases htitle : n'.kind = .title
      · rw [List.find?_cons_of_pos (by simpa using hkind.mpr htitle), List.find?_cons_of_pos (by simpa using htitle)]
        exact .some ⟨hone, hkind.mpr htitle⟩
      · rw [List.find?_cons_of_neg (by simpa using mt hkind.mp htitle), List.find?_cons_of_neg (by simpa using htitle)]
        exact ih

theorem exists_scripts {s : Salts} {ts ts' : List Text} (h : List.Forall₂ s.Alike ts ts') :
    ∃ ms : List Script, (∀ m ∈ ms, s.permits m) ∧ ts = ms.map (Script.text s.first) ∧
      ts' = ms.map (Script.text s.second) := by
  induction h with
  | nil => exact ⟨[], List.forall_mem_nil _, rfl, rfl⟩
  | cons hone _ ih =>
      obtain ⟨m, hm, rfl, rfl⟩ := hone
      obtain ⟨ms, hms, rfl, rfl⟩ := ih
      exact ⟨m :: ms, List.forall_mem_cons.mpr ⟨hm, hms⟩, rfl, rfl⟩

variable (hmarkers : Markers first second calls)

include hmarkers

/-- A reader sees the same of texts in a title. -/
theorem readable_flatten {ts ts' : List Text} (h : List.Forall₂ (clear first second calls).Alike ts ts')
    (htold : Told words first second calls ts.flatten ts'.flatten) (equations : Nat) :
    ∃ u, (Cache.build first calls).readable
        (ts.map (Numbering.stripped (Cache.build first calls) equations)).flatten = u ∧
      (Cache.build second calls).readable
        (ts'.map (Numbering.stripped (Cache.build second calls) equations)).flatten = u ∧
      Call.AbsentFrom [first, second] calls u ∧ Call.AbsentFrom [first, second] calls (slug u) := by
  obtain ⟨ms, hms, hts, hts'⟩ := exists_scripts h
  have hcalls : (of first second calls).permits ms.flatten := by
    intro call hcall
    obtain ⟨m, hm, hmem⟩ := List.mem_flatten.mp hcall
    exact (hms m hm).1 call hmem
  have hclear := htold ms.flatten hcalls (hts ▸ Script.text_flatten _ ms)
    (hts' ▸ Script.text_flatten _ ms)
  have hread {salt : Text} (hsalt : salt ∈ [first, second]) :
      (Cache.build salt calls).readable
        ((ms.map (Script.text salt)).map (Numbering.stripped (Cache.build salt calls) equations)).flatten =
        Script.readable ms.flatten := by
    have hstripped : (ms.map (Script.text salt)).map (Numbering.stripped (Cache.build salt calls) equations) =
        (ms.map (Script.stripped equations)).map (Script.text salt) := by
      rw [List.map_map, List.map_map]
      exact List.map_congr_left fun m hm => (stripped_text hmarkers (hms m hm) hsalt equations).1
    obtain ⟨-, hpermits⟩ := stripped_text hmarkers hclear.permits hsalt equations
    rw [hstripped, ← Script.text_flatten, Script.flatten_map_stripped,
      readable_text hpermits hsalt (hmarkers.distinct salt hsalt),
      Script.readable_stripped]
  refine ⟨Script.readable ms.flatten, ?_, ?_, absentFrom_readable hmarkers hclear.permits, hclear.slug⟩
  · rw [hts]
    exact hread (by simp)
  · rw [hts']
    exact hread (by simp)

variable {children children' : List Node}
  (h : List.Forall₂ (Node.Like (parsed words first second calls)) children children')

include h

theorem readableTitle_eq (equations : Nat) :
    ∃ u, Numbering.readableTitle (Cache.build first calls) equations children = u ∧
      Numbering.readableTitle (Cache.build second calls) equations children' = u ∧
      Call.AbsentFrom [first, second] calls u ∧ Call.AbsentFrom [first, second] calls (slug u) := by
  have htitle := title?_rel h
  unfold Numbering.readableTitle
  generalize Node.title? children = x, Node.title? children' = x' at htitle ⊢
  cases htitle with
  | none =>
      have habsent : Call.AbsentFrom [first, second] calls [] := Call.absentFrom_of_length_lt (by decide)
      exact ⟨[], rfl, rfl, habsent, habsent⟩
  | some hboth =>
      obtain ⟨hnode, hkind⟩ := hboth
      cases hnode with
      | node hkinds hattrs number hjoined hinside =>
          have hkind' := (hkinds.eq_iff .title rfl).mp hkind
          obtain rfl : _ = Kind.title := hkind
          obtain rfl := hkind'
          have htexts := forall₂_textsIn _ hinside
          exact readable_flatten hmarkers (htexts.imp fun _ _ hshown => hshown.2.alike hshown.1) hjoined.2 equations

theorem liftedLabel?_rel (equations : Nat) (kind : FloatKind) :
    Option.Rel (clear first second calls).Alike
      (Numbering.liftedLabel? (Cache.build first calls) equations kind children)
      (Numbering.liftedLabel? (Cache.build second calls) equations kind children') := by
  have htexts := forall₂_textsIn _ h
  have hfound : (Node.textsIn children).flatMap (fun t => ((Cache.build first calls).takeLabels
        (Numbering.stripped (Cache.build first calls) equations t)).2) =
      (Node.textsIn children').flatMap fun t => ((Cache.build second calls).takeLabels
        (Numbering.stripped (Cache.build second calls) equations t)).2 := by
    generalize Node.textsIn children = ts, Node.textsIn children' = ts' at htexts
    induction htexts with
    | nil => rfl
    | cons hshown _ ih =>
        rw [List.flatMap_cons, List.flatMap_cons, ih]
        exact congrArg (· ++ _) (Alike.stripped hmarkers (hshown.2.alike hshown.1) equations).2
  unfold Numbering.liftedLabel?
  rw [← hfound]
  split
  · cases hhead : ((Node.textsIn children).flatMap fun t => ((Cache.build first calls).takeLabels
        (Numbering.stripped (Cache.build first calls) equations t)).2).head? with
    | none => exact .none
    | some name =>
        obtain ⟨t, -, hname⟩ := List.mem_flatMap.mp (List.mem_of_mem_head? hhead)
        exact .some (.of_absent (hmarkers.labels name
          (Cache.label_mem_of_mem_takeLabels (hmarkers.distinct first (by simp)) hname)))
  · exact .none

end Titles

section Nodes

variable (words first second calls) in
/-- How documents are related that are numbered with two salts. -/
def numbered : Likeness where
  shown t t' := ∃ m, (clear first second calls).permits m ∧ m.IsWhole words [first, second] calls ∧
    Script.text first m = t ∧ Script.text second m = t'
  joined _ _ := True
  named := (clear first second calls).Alike

theorem stripped_like (hmarkers : Markers first second calls) (equations : Nat) {kind kind' : Kind}
    (h : kind.Like (parsed words first second calls) kind') :
    (kind.stripped (Cache.build first calls) equations).Like (numbered words first second calls)
      (kind'.stripped (Cache.build second calls) equations) := by
  have hother (hkind : ∀ t, kind ≠ .text t) : kind.Like (numbered words first second calls) kind' :=
    h.mono (fun _ _ h => h) fun t _ heq _ => absurd heq (hkind t)
  cases h with
  | bare hbare =>
      cases kind with
      | text t => cases hbare
      | _ => exact hother fun _ => Kind.noConfusion
  | @text t t' hshown =>
      obtain ⟨m, hm, (rfl : Script.text first m = t), (rfl : Script.text second m = t')⟩ := hshown.1
      have hclear := hshown.2 m hm rfl rfl
      obtain ⟨htext, hpermits⟩ := stripped_text hmarkers hclear.permits (by simp : first ∈ [first, second]) equations
      obtain ⟨htext', -⟩ := stripped_text hmarkers hclear.permits (by simp : second ∈ [first, second]) equations
      exact .text ⟨m.stripped equations, hpermits, hclear.phrase equations, htext.symm, htext'.symm⟩
  | _ => exact hother fun _ => Kind.noConfusion

theorem enter_like (hmarkers : Markers first second calls) (equations : Nat) {s s' : State}
    (hs : s.Like (clear first second calls).Alike s') {kind kind' : Kind}
    (hkind : kind.Like (parsed words first second calls) kind') {a a' : Attrs}
    (ha : a.Like (parsed words first second calls) a') (number : Option Text) {children children' : List Node}
    (hchildren : List.Forall₂ (Node.Like (parsed words first second calls)) children children') :
    (Numbering.enter (Cache.build first calls) equations s kind a number children).1.Like
        (numbered words first second calls)
        (Numbering.enter (Cache.build second calls) equations s' kind' a' number children').1 ∧
      (Numbering.enter (Cache.build first calls) equations s kind a number children).2.1 =
        (Numbering.enter (Cache.build second calls) equations s' kind' a' number children').2.1 ∧
      (Numbering.enter (Cache.build first calls) equations s kind a number children).2.2.Like
        (clear first second calls).Alike
        (Numbering.enter (Cache.build second calls) equations s' kind' a' number children').2.2 := by
  have hattrs : a.Like (numbered words first second calls) a' := ha.mono fun _ _ h => h
  have hnamed : (numbered words first second calls).named = (clear first second calls).Alike := rfl
  cases hkind with
  | bare hbare =>
      cases kind with
      | frontmatter | mainmatter => exact ⟨hattrs, rfl, { hs with isInFront := rfl }⟩
      | heading level =>
          obtain ⟨u, htitle, htitle', -, hslug⟩ := readableTitle_eq hmarkers hchildren equations
          obtain ⟨hnew, hnumber, hstate⟩ :=
            heading_like hmarkers hnamed hs level hattrs hslug
          unfold Numbering.enter
          dsimp only
          rw [htitle, htitle', hnumber]
          exact ⟨hnew, rfl, hstate⟩
      | float kind =>
          have hlifted := liftedLabel?_rel hmarkers hchildren equations kind
          unfold Numbering.enter
          dsimp only
          generalize Numbering.liftedLabel? (Cache.build first calls) equations kind children = lifted,
            Numbering.liftedLabel? (Cache.build second calls) equations kind children' = lifted' at hlifted
          have hlabelled : Attrs.Like (numbered words first second calls) { a with label := a.label <|> lifted }
              { a' with label := a'.label <|> lifted' } := { hattrs with label := rel_or hattrs.label hlifted }
          obtain ⟨hnew, hnumber, hstate⟩ :=
            float_like hmarkers hnamed hs kind hlabelled
          rw [hnumber]
          exact ⟨hnew, rfl, hstate⟩
      | text t => cases hbare
      | _ => exact ⟨hattrs, rfl, hs⟩
  | _ => exact ⟨hattrs, rfl, hs⟩

theorem leave_like {kind kind' : Kind} (hkind : kind.Like like kind') {r : Text → Text → Prop}
    {outer outer' inner inner' : State} (houter : outer.Like r outer') (hinner : inner.Like r inner') :
    (Numbering.leave kind outer inner).Like r (Numbering.leave kind' outer' inner') := by
  cases hkind with
  | bare =>
      cases kind with
      | frontmatter => exact { hinner with isInFront := houter.isInFront }
      | _ => exact hinner
  | _ => exact hinner

mutual

theorem node_like (hmarkers : Markers first second calls) (equations : Nat) {s s' : State}
    (hs : s.Like (clear first second calls).Alike s') {n n' : Node} (h : n.Like (parsed words first second calls) n') :
    (Numbering.node (Cache.build first calls) equations s n).1.Like (numbered words first second calls)
        (Numbering.node (Cache.build second calls) equations s' n').1 ∧
      (Numbering.node (Cache.build first calls) equations s n).2.Like (clear first second calls).Alike
        (Numbering.node (Cache.build second calls) equations s' n').2 := by
  match n, n', h with
  | ⟨kind, a, _, children⟩, ⟨kind', a', _, children'⟩, .node hkind ha number hjoined hchildren =>
      obtain ⟨hattrs, hnumber, hinner⟩ := enter_like hmarkers equations hs hkind ha number hchildren
      have hequation : kind = .float .equation ↔ kind' = .float .equation := hkind.eq_iff _ rfl
      obtain ⟨hinside, hlast⟩ := nodes_like hmarkers
        (if kind' = .float .equation then equations + 1 else equations) hinner
        children hchildren
      rw [Numbering.node_mk, Numbering.node_mk]
      simp only [hequation, hnumber]
      exact ⟨.node (stripped_like hmarkers equations hkind) hattrs _ trivial hinside, leave_like hkind hs hlast⟩

theorem nodes_like (hmarkers : Markers first second calls) (equations : Nat) {s s' : State}
    (hs : s.Like (clear first second calls).Alike s') (l : List Node) {l' : List Node}
    (h : List.Forall₂ (Node.Like (parsed words first second calls)) l l') :
    List.Forall₂ (Node.Like (numbered words first second calls))
        (Numbering.nodes (Cache.build first calls) equations s l).1
        (Numbering.nodes (Cache.build second calls) equations s' l').1 ∧
      (Numbering.nodes (Cache.build first calls) equations s l).2.Like (clear first second calls).Alike
        (Numbering.nodes (Cache.build second calls) equations s' l').2 := by
  match l, l', h with
  | [], [], .nil => exact ⟨.nil, hs⟩
  | n :: rest, n' :: rest', .cons hn hrest =>
      obtain ⟨hnode, hstate⟩ := node_like hmarkers equations hs hn
      obtain ⟨hnodes, hlast⟩ := nodes_like hmarkers equations hstate rest hrest
      exact ⟨.cons hnode hnodes, hlast⟩

end

/-- Documents that are alike are numbered alike. -/
theorem number_like (hmarkers : Markers first second calls) (isArticle : Bool) {d d' : Document}
    (h : List.Forall₂ (Node.Like (parsed words first second calls)) d.children d'.children) :
    List.Forall₂ (Node.Like (numbered words first second calls))
      (d.number (Cache.build first calls) isArticle).1.children
        (d'.number (Cache.build second calls) isArticle).1.children ∧
      LabelTable.Like (clear first second calls).Alike (d.number (Cache.build first calls) isArticle).2.1
        (d'.number (Cache.build second calls) isArticle).2.1 ∧
      List.Forall₂ (Warning.Like (clear first second calls).Alike) (d.number (Cache.build first calls) isArticle).2.2
        (d'.number (Cache.build second calls) isArticle).2.2 := by
  have hstart : (State.start isArticle).Like (clear first second calls).Alike (.start isArticle) :=
    ⟨rfl, .nil, .nil, .nil, rfl⟩
  obtain ⟨hnodes, hlast⟩ := nodes_like hmarkers 0 hstart d.children h
  exact ⟨hnodes, hlast.labels, hlast.warnings⟩

end Nodes

end Salts

end Manuscript
