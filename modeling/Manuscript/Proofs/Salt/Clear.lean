import Manuscript.Numbering
import Manuscript.Proofs.Cache.Parts
import Manuscript.Proofs.Cache.Reading
import Manuscript.Proofs.Cache.WriteOnce
import Manuscript.Proofs.Salt.Reference
import Manuscript.Proofs.Source.Calls
import Manuscript.Words

/-!
Texts in which the tokens of either salt occur only where they were put.

Main statements: such texts are told apart alike by either salt (`Alike.eq_iff_eq`), a reader sees the same of them
(`Alike.readable_eq`), and the same labels are taken out of them (`Alike.stripped`).
-/

namespace Manuscript

/-- What a reader sees of what is cached. -/
def Cacheable.readable : Cacheable → Text
  | .span kind content | .delimited kind _ content => (Entry.mk [] content kind none).readable
  | .code _ _ | .label _ => []

/-- What a reader sees of a sign. -/
def Sign.readable : Sign → Text
  | .character c => [c]
  | .token call => call.cacheable.readable

/-- A sign as a part of a draft. -/
def Sign.part (salt : Text) : Sign → Part
  | .character c => .character c
  | .token call => .token (call.token salt)

/-- Is the sign no token of a label? -/
def Sign.isUnlabelled : Sign → Bool
  | .token call => call.name?.isNone
  | .character _ => true

/-- No token of some calls by some salts occurs in the text. -/
def Call.AbsentFrom (salts : List Text) (calls : List Call) (t : Text) : Prop :=
  ∀ salt ∈ salts, ∀ call ∈ calls, ¬ call.token salt <:+: t

/-- The labels of some calls, in the order in which they are first given tokens. -/
def Call.labelNames (calls : List Call) : List Text := (firsts calls).filterMap name?

namespace Script

/-- A script as the draft of its text by a salt. -/
def draft (salt : Text) (m : Script) : Draft := m.map (Sign.part salt)

/-- What a reader sees of a script. -/
def readable (m : Script) : Text := m.flatMap Sign.readable

/-- A script without the tokens of labels. -/
def unlabelled (m : Script) : Script := m.filter Sign.isUnlabelled

/-- Where the tokens of a label stand, counted in characters of the text. -/
def placesFrom (name : Text) : (m : Script) → (position : Nat) → List Nat
  | [], _ => []
  | .character _ :: m, position => placesFrom name m (position + 1)
  | .token call :: m, position =>
    let later := placesFrom name m (position + 40)
    if call.name? = some name then position :: later else later

/-- The script inside a number of equations, each of which takes the tokens of labels out. -/
def stripped (equations : Nat) (m : Script) : Script := if equations = 0 then m else m.unlabelled

variable {salt : Text} {calls : List Call} {m : Script}

theorem text_draft (salt : Text) (m : Script) : Draft.text (m.draft salt) = text salt m := by
  rw [draft, Draft.text, List.flatMap_map]
  exact List.flatMap_congr fun sign _ => by cases sign <;> rfl

theorem draft_append (salt : Text) (l m : Script) : draft salt (l ++ m) = draft salt l ++ draft salt m :=
  List.map_append

theorem token_notMem_plain (call : Call) (t : Text) : .token call ∉ plain t := by
  intro hcall
  obtain ⟨c, -, heq⟩ := List.mem_map.mp hcall
  cases heq

theorem readable_plain (t : Text) : readable (plain t) = t := by
  induction t with
  | nil => rfl
  | cons c t ih => exact congrArg (c :: ·) ih

/-- A script begins with so many characters, or with fewer up to its end or a token. -/
theorem exists_plain (m : Script) (n : Nat) : ∃ u rest, m = plain u ++ rest ∧
    (u.length = n ∨ u.length < n ∧ (rest = [] ∨ ∃ call more, rest = .token call :: more)) := by
  induction m generalizing n with
  | nil =>
      refine ⟨[], [], rfl, ?_⟩
      cases n with
      | zero => exact .inl rfl
      | succ n => exact .inr ⟨Nat.succ_pos n, .inl rfl⟩
  | cons sign m ih =>
      cases n with
      | zero => exact ⟨[], sign :: m, rfl, .inl rfl⟩
      | succ n =>
          cases sign with
          | token call => exact ⟨[], .token call :: m, rfl, .inr ⟨Nat.succ_pos n, .inr ⟨call, m, rfl⟩⟩⟩
          | character c =>
              obtain ⟨u, rest, rfl, hu⟩ := ih n
              refine ⟨c :: u, rest, rfl, ?_⟩
              rw [List.length_cons]
              exact hu.imp (congrArg Nat.succ) (And.imp_left Nat.succ_lt_succ)

theorem token_mem_draft {token : Text} :
    .token token ∈ m.draft salt ↔ ∃ call, .token call ∈ m ∧ call.token salt = token := by
  rw [draft, List.mem_map]
  constructor
  · rintro ⟨sign, hsign, heq⟩
    cases sign with
    | character c => cases heq
    | token call => exact ⟨call, hsign, Part.token.inj heq⟩
  · rintro ⟨call, hcall, rfl⟩
    exact ⟨.token call, hcall, rfl⟩

theorem unlabelled_subset (m : Script) : m.unlabelled ⊆ m := List.filter_subset_self m

theorem stripped_subset (equations : Nat) (m : Script) : m.stripped equations ⊆ m := by
  unfold stripped
  split
  · exact List.Subset.refl m
  · exact unlabelled_subset m

theorem readable_unlabelled (m : Script) : m.unlabelled.readable = m.readable := by
  induction m with
  | nil => rfl
  | cons sign m ih =>
      unfold unlabelled readable at *
      by_cases hsign : sign.isUnlabelled = true
      · rw [List.filter_cons_of_pos hsign, List.flatMap_cons, List.flatMap_cons, ih]
      · rw [List.filter_cons_of_neg hsign, List.flatMap_cons, ih]
        cases sign with
        | character c => exact absurd rfl hsign
        | token call =>
            cases call with
            | label name => rfl
            | _ => exact absurd rfl hsign

theorem readable_stripped (equations : Nat) (m : Script) : (m.stripped equations).readable = m.readable := by
  unfold stripped
  split
  · rfl
  · exact readable_unlabelled m

theorem flatten_map_stripped (equations : Nat) (ms : List Script) :
    (ms.map (stripped equations)).flatten = stripped equations ms.flatten := by
  unfold stripped
  split
  · rw [List.map_id']
  · exact (List.filter_flatten).symm

/-- A token is read as what its call has cached. -/
theorem draft?_reading (hdistinct : Call.Distinct salt calls) {call : Call} (hcall : call ∈ calls) :
    (Cache.build salt calls).reading.draft? (call.token salt) = some (Draft.plain call.cacheable.readable) := by
  obtain ⟨first, -, hsame, hentry, hlabel⟩ := Cache.exists_read_token hdistinct hcall
  rw [← hsame]
  cases first with
  | label name => exact Cache.draft?_of_label? hentry hlabel
  | _ =>
      have hread := Cache.draft?_of_find? hentry
      exact hread

theorem expands_readable (hdistinct : Call.Distinct salt calls) (hcalls : ∀ call, .token call ∈ m → call ∈ calls) :
    (Cache.build salt calls).reading.Expands (m.draft salt) m.readable := by
  induction m with
  | nil => exact .nil
  | cons sign m ih =>
      have hrest := ih fun call hcall => hcalls call (List.mem_cons_of_mem sign hcall)
      cases sign with
      | character c => exact .character c hrest
      | token call => exact .token (draft?_reading hdistinct (hcalls call List.mem_cons_self)) (.plain _) hrest

theorem known_draft (hdistinct : Call.Distinct salt calls) (hcalls : ∀ call, .token call ∈ m → call ∈ calls) :
    (Cache.build salt calls).reading.Known (m.draft salt) :=
  (expands_readable hdistinct hcalls).known

/-- Only a token of the label is the same as the label's token. -/
theorem part_eq_label_iff (hdistinct : Call.Distinct salt calls) {name : Text} (hname : .label name ∈ calls)
    {call : Call} (hcall : call ∈ calls) :
    Part.token (call.token salt) = .token ((Call.label name).token salt) ↔ call.name? = some name := by
  rw [Part.token.injEq]
  constructor
  · intro htoken
    have hcacheable := hdistinct call hcall _ hname htoken
    cases call with
    | label other => exact congrArg some (Cacheable.label.inj hcacheable)
    | _ => cases hcacheable
  · intro hlabel
    cases call with
    | label other =>
        obtain rfl := Option.some.inj hlabel
        rfl
    | _ => cases hlabel

theorem places_draft (hdistinct : Call.Distinct salt calls) (hcalls : ∀ call, .token call ∈ m → call ∈ calls)
    {name : Text} (hname : .label name ∈ calls) (position : Nat) :
    Draft.places ((Call.label name).token salt) position (m.draft salt) = m.placesFrom name position := by
  induction m generalizing position with
  | nil => rfl
  | cons sign m ih =>
      have hrest := ih fun call hcall => hcalls call (List.mem_cons_of_mem sign hcall)
      cases sign with
      | character c => exact hrest (position + 1)
      | token call =>
          have hsame := part_eq_label_iff hdistinct hname (hcalls call List.mem_cons_self)
          rw [placesFrom, ← hrest, ← length_token salt call]
          simp only [draft, List.map_cons, Sign.part, Draft.places, Part.text, hsame]

end Script

namespace Call

variable {salts : List Text} {calls : List Call} {s t : Text}

theorem mem_labelNames {name : Text} : name ∈ labelNames calls ↔ .label name ∈ calls := by
  rw [labelNames, List.mem_filterMap]
  constructor
  · rintro ⟨call, hcall, hname⟩
    cases call with
    | label other =>
        obtain rfl := Option.some.inj hname
        exact (firsts_sublist calls).subset hcall
    | _ => cases hname
  · intro hmem
    obtain ⟨first, hfirst, hsame⟩ := exists_first hmem
    refine ⟨first, hfirst, ?_⟩
    cases first with
    | label other => exact congrArg some (Cacheable.label.inj hsame)
    | _ => cases hsame

/-- A character that is no hexadecimal digit is in no token. -/
theorem AbsentFrom.append_cons {c : Char} (hc : c ∉ hexDigits) (hs : AbsentFrom salts calls s)
    (ht : AbsentFrom salts calls t) : AbsentFrom salts calls (s ++ c :: t) := by
  intro salt hsalt call hcall htoken
  rcases (Text.infix_append_cons_iff (mt Script.mem_hexDigits_of_mem_token hc)).mp htoken with hleft | hright
  · exact hs salt hsalt call hcall hleft
  · exact ht salt hsalt call hcall hright

theorem AbsentFrom.of_part (h : AbsentFrom salts calls t) (hpart : s <:+: t) : AbsentFrom salts calls s :=
  fun salt hsalt call hcall htoken => h salt hsalt call hcall (htoken.trans hpart)

/-- A text that is shorter than a token holds none. -/
theorem absentFrom_of_length_lt (h : t.length < 40) : AbsentFrom salts calls t := by
  intro salt _ call _ htoken
  have hlength := htoken.length_le
  rw [Script.length_token] at hlength
  omega

end Call

namespace Cache

variable {salt : Text} {calls : List Call}

/-- The labels of a cache are those of its calls, each with its token. -/
theorem labels_build (hdistinct : Call.Distinct salt calls) :
    (build salt calls).labels = (Call.labelNames calls).map fun name => ((Call.label name).token salt, name) := by
  rw [(tables_build hdistinct).2, Call.labelNames, List.map_filterMap]
  refine List.filterMap_congr fun call _ => ?_
  cases call <;> rfl

theorem find?_of_mem_labels (hdistinct : Call.Distinct salt calls) {token : Text}
    (h : token ∈ (build salt calls).labels.map Prod.fst) : (build salt calls).find? token = none := by
  rw [labels_build hdistinct, List.map_map] at h
  obtain ⟨name, hname, rfl⟩ := List.mem_map.mp h
  obtain ⟨first, -, hsame, hfind, -⟩ := exists_read_token hdistinct (Call.mem_labelNames.mp hname)
  refine hfind.trans ?_
  cases first with
  | label other => rfl
  | _ => cases hsame

/-- Labels that are taken out of a text are labels of calls. -/
theorem label_mem_of_mem_takeLabels (hdistinct : Call.Distinct salt calls) {t name : Text}
    (h : name ∈ ((build salt calls).takeLabels t).2) : .label name ∈ calls := by
  rw [mem_takeLabels, labels_build hdistinct] at h
  · obtain ⟨l, hl, rfl, -⟩ := h
    obtain ⟨name, hname, rfl⟩ := List.mem_map.mp hl
    exact Call.mem_labelNames.mp hname
  · rw [labels_build hdistinct]
    intro l hl
    obtain ⟨name, -, rfl⟩ := List.mem_map.mp hl
    exact Call.token_ne_nil salt _

theorem draft?_of_mem_labels (hdistinct : Call.Distinct salt calls) {token : Text}
    (h : token ∈ (build salt calls).labels.map Prod.fst) : (build salt calls).reading.draft? token = some [] := by
  rw [labels_build hdistinct, List.map_map] at h
  obtain ⟨name, hname, rfl⟩ := List.mem_map.mp h
  exact Script.draft?_reading hdistinct (Call.mem_labelNames.mp hname)

end Cache

namespace Salts

/-- Two salts and the scripts about some calls in the texts of which their tokens occur only where they were put, even
when tokens are replaced by what a reader sees. -/
def clear (first second : Text) (calls : List Call) : Salts where
  first := first
  second := second
  permits m := (of first second calls).permits m ∧ ∀ salt ∈ [first, second],
    (Cache.build salt calls).reading.Marks (calls.map (Call.token salt)) (m.draft salt)
  permits_of_part := by
    rintro m' m ⟨hcalls, hmarks⟩ hpart
    refine ⟨(of first second calls).permits_of_part hcalls hpart, fun salt hsalt => ?_⟩
    obtain ⟨l, r, rfl⟩ := hpart
    have hmarks := hmarks salt hsalt
    rw [Script.draft_append, Script.draft_append] at hmarks
    refine hmarks.of_part fun token htoken => ?_
    obtain ⟨call, -, rfl⟩ := List.mem_map.mp htoken
    exact call.token_ne_nil salt

variable {first second : Text} {calls : List Call} {m l : Script} {t t' u u' : Text}

variable (first second calls) in
/-- The tokens of some calls by two salts act as markers: different things have different tokens, no token reads as a
number, and none occurs in a label. -/
structure Markers : Prop where
  distinct : ∀ salt ∈ [first, second], Call.Distinct salt calls
  letters : (of first second calls).HasLetters
  labels : ∀ name, .label name ∈ calls → Call.AbsentFrom [first, second] calls name

theorem Alike.of_clear (h : (clear first second calls).Alike t t') : (of first second calls).Alike t t' := by
  obtain ⟨m, hm, ht, ht'⟩ := h
  exact ⟨m, hm.1, ht, ht'⟩

theorem marks_plain (h : Call.AbsentFrom [first, second] calls t) (m : Meaning) {salt : Text}
    (hsalt : salt ∈ [first, second]) :
    m.Marks (calls.map (Call.token salt)) ((Script.plain t).draft salt) := by
  intro e he token htoken
  have hnone (token : Text) : .token token ∉ (Script.plain t).draft salt := by
    intro hmem
    obtain ⟨call, hcall, -⟩ := Script.token_mem_draft.mp hmem
    exact Script.token_notMem_plain call t hcall
  obtain rfl := he.eq_of_forall_notMem hnone
  obtain ⟨call, hcall, rfl⟩ := List.mem_map.mp htoken
  intro before after hsplit
  rw [Script.text_draft, Script.text_plain] at hsplit
  exact absurd ⟨before, after, hsplit.symm⟩ (h salt hsalt call hcall)

/-- Texts without tokens may be written. -/
theorem permits_plain (h : Call.AbsentFrom [first, second] calls t) :
    (clear first second calls).permits (Script.plain t) :=
  ⟨fun call hcall => absurd hcall (Script.token_notMem_plain call t), fun _ hsalt => marks_plain h _ hsalt⟩

theorem Alike.of_absent (h : Call.AbsentFrom [first, second] calls t) : (clear first second calls).Alike t t :=
  ⟨Script.plain t, permits_plain h, Script.text_plain _ t, Script.text_plain _ t⟩

theorem Alike.of_length_lt (h : t.length < 40) : (clear first second calls).Alike t t :=
  .of_absent (Call.absentFrom_of_length_lt h)

theorem occursAsPut_of_permits (hm : (clear first second calls).permits m) {salt : Text}
    (hsalt : salt ∈ [first, second])
    {call : Call} (hcall : call ∈ calls) : (m.draft salt).OccursAsPut (call.token salt) :=
  hm.2 salt hsalt _ .refl _ (List.mem_map_of_mem hcall)

section Equal

variable {salt salt' : Text} (hdistinct : Call.Distinct salt calls)

include hdistinct

/-- A token at the start of a text was put there. -/
theorem exists_token_of_text_eq (hsalt : salt ∈ [first, second]) {call : Call} (hcall : call ∈ calls)
    (hl : (clear first second calls).permits l) {rest : Text} (hstart : Script.text salt l = call.token salt ++ rest) :
    ∃ other l', l = .token other :: l' ∧ other.cacheable = call.cacheable := by
  obtain ⟨left, right, hdraft, hleft⟩ := occursAsPut_of_permits hl hsalt hcall [] rest (by
    rw [Script.text_draft, hstart, List.nil_append])
  cases l with
  | nil => cases left <;> cases hdraft
  | cons sign l =>
      cases left with
      | nil =>
          obtain ⟨hpart, -⟩ := List.cons.inj hdraft
          cases sign with
          | character c => cases hpart
          | token other =>
              refine ⟨other, l, rfl, ?_⟩
              exact hdistinct other (hl.1 other List.mem_cons_self) call hcall (Part.token.inj hpart)
      | cons p left =>
          obtain ⟨rfl, -⟩ := List.cons.inj hdraft
          cases sign with
          | character c => cases hleft
          | token other => exact absurd (List.append_eq_nil_iff.mp hleft).1 (other.token_ne_nil salt)

/-- What the texts of two scripts have at their start by one salt, their texts have at their start by the other. -/
theorem text_eq_of_text_eq (hsalt : salt ∈ [first, second])
    (hl : (clear first second calls).permits l) (hm : (clear first second calls).permits m)
    (h : Script.text salt l = Script.text salt m) : Script.text salt' l = Script.text salt' m := by
  have htail {sign : Sign} {l : Script} (hl : (clear first second calls).permits (sign :: l)) :
      (clear first second calls).permits l :=
    (clear first second calls).permits_of_part hl (List.suffix_cons sign l).isInfix
  induction l generalizing m with
  | nil =>
      rw [Script.text_nil, eq_comm, Script.text_eq_nil_iff] at h
      rw [h]
  | cons sign l ih =>
      cases sign with
      | token call =>
          obtain ⟨other, m', rfl, hsame⟩ :=
            exists_token_of_text_eq hdistinct hsalt (hl.1 call List.mem_cons_self) hm h.symm
          have htoken (salt : Text) : other.token salt = call.token salt := congrArg (Cacheable.token salt) hsame
          rw [Script.text_token, Script.text_token, htoken] at h ⊢
          rw [ih (htail hl) (htail hm) (List.append_cancel_left h)]
      | character c =>
          cases m with
          | nil => cases h
          | cons sign m =>
              cases sign with
              | character d =>
                  obtain ⟨rfl, hrest⟩ := List.cons.inj h
                  rw [Script.text_character, Script.text_character, ih (htail hl) (htail hm) hrest]
              | token call =>
                  obtain ⟨other, l', heq, -⟩ :=
                    exists_token_of_text_eq hdistinct hsalt (hm.1 call List.mem_cons_self) hl h
                  cases heq

omit hdistinct

/-- A token that is put at the start of a text is not spelled out in another script with the same two texts. -/
theorem not_texts_eq_of_character (hdiffer : ∀ call ∈ calls, call.token first ≠ call.token second) {c : Char}
    {call : Call} (hl : (of first second calls).permits (.character c :: l))
    (hm : (clear first second calls).permits (.token call :: m))
    (hfirst : Script.text first (.character c :: l) = Script.text first (.token call :: m)) :
    Script.text second (.character c :: l) ≠ Script.text second (.token call :: m) := by
  intro hsecond
  have hcall := hm.1 call List.mem_cons_self
  obtain ⟨u, rest, hsplit, hu⟩ := Script.exists_plain (.character c :: l) 40
  have hne : u ≠ [] := by
    rintro rfl
    obtain hlength | ⟨-, rfl | ⟨other, rest, rfl⟩⟩ := hu
    · cases hlength
    · cases hsplit
    · cases hsplit
  rw [hsplit, Script.text_append, Script.text_plain, Script.text_token] at hfirst hsecond
  obtain hlength | ⟨hlength, hrest⟩ := hu
  · -- All characters of the token are spelled out, and they are not those of the other salt.
    refine hdiffer call hcall ?_
    rw [← (List.append_inj hfirst (hlength.trans (Script.length_token first call).symm)).1,
      ← (List.append_inj hsecond (hlength.trans (Script.length_token second call).symm)).1]
  · obtain rfl | ⟨other, rest, rfl⟩ := hrest
    · have hlengths := congrArg List.length hfirst
      rw [Script.text_nil, List.append_nil, List.length_append, Script.length_token] at hlengths
      omega
    · -- Another token would begin in the middle of this one.
      have hother : other ∈ calls := by
        refine hl other ?_
        rw [hsplit]
        exact List.mem_append_right _ List.mem_cons_self
      obtain ⟨left, right, hdraft, hleft⟩ := occursAsPut_of_permits hm (by simp : first ∈ [first, second]) hother u
        (Script.text first rest) (by
          rw [Script.text_draft, Script.text_token, ← hfirst, Script.text_token, List.append_assoc])
      cases left with
      | nil => exact hne hleft.symm
      | cons p left =>
          obtain ⟨rfl, -⟩ := List.cons.inj hdraft
          have hlengths := congrArg List.length hleft
          rw [Draft.text_cons, List.length_append] at hlengths
          have htoken := Script.length_token first call
          simp only [Sign.part, Part.text] at hlengths
          omega

/-- A script in which tokens act as markers is the only one with its two texts. -/
theorem eq_of_texts_eq (hdistinct : Call.Distinct first calls)
    (hcalls : ∀ a ∈ calls, ∀ b ∈ calls, a.cacheable = b.cacheable → a = b)
    (hdiffer : ∀ call ∈ calls, call.token first ≠ call.token second) (hl : (of first second calls).permits l)
    (hm : (clear first second calls).permits m) (hfirst : Script.text first l = Script.text first m)
    (hsecond : Script.text second l = Script.text second m) : l = m := by
  have htail {sign : Sign} {m : Script} (hm : (clear first second calls).permits (sign :: m)) :
      (clear first second calls).permits m :=
    (clear first second calls).permits_of_part hm (List.suffix_cons sign m).isInfix
  induction l generalizing m with
  | nil =>
      rw [Script.text_nil, eq_comm, Script.text_eq_nil_iff] at hfirst
      exact hfirst.symm
  | cons sign l ih =>
      have hrest := (of first second calls).permits_of_part hl (List.suffix_cons sign l).isInfix
      cases sign with
      | token call =>
          have hcall := hl call List.mem_cons_self
          obtain ⟨other, m', rfl, hsame⟩ :=
            exists_token_of_text_eq hdistinct (by simp : first ∈ [first, second]) hcall hm hfirst.symm
          obtain rfl := hcalls other (hm.1 other List.mem_cons_self) call hcall hsame
          rw [Script.text_token, Script.text_token] at hfirst hsecond
          rw [ih hrest (htail hm) (List.append_cancel_left hfirst) (List.append_cancel_left hsecond)]
      | character c =>
          cases m with
          | nil => cases hfirst
          | cons sign m =>
              cases sign with
              | character d =>
                  obtain ⟨rfl, hbefore⟩ := List.cons.inj hfirst
                  rw [ih hrest (htail hm) hbefore (List.cons.inj hsecond).2]
              | token call => exact absurd hsecond (not_texts_eq_of_character hdiffer hl hm hfirst)

end Equal

section Calls

variable (hmarkers : Markers first second calls)

include hmarkers

/-- Texts in which tokens occur only where they were put are told apart alike by either salt. -/
theorem Alike.eq_iff_eq (ht : (clear first second calls).Alike t t') (hu : (clear first second calls).Alike u u') :
    t = u ↔ t' = u' := by
  obtain ⟨l, hl, rfl, rfl⟩ := ht
  obtain ⟨m, hm, rfl, rfl⟩ := hu
  constructor
  · exact text_eq_of_text_eq (hmarkers.distinct first (by simp)) List.mem_cons_self hl hm
  · exact text_eq_of_text_eq (hmarkers.distinct second (by simp)) (List.mem_cons_of_mem first List.mem_cons_self) hl hm

theorem mem_iff_mem {ts ts' : List Text} (hts : List.Forall₂ (clear first second calls).Alike ts ts')
    (h : (clear first second calls).Alike t t') : t ∈ ts ↔ t' ∈ ts' := by
  induction hts with
  | nil => exact iff_of_false List.not_mem_nil List.not_mem_nil
  | cons hother _ ih =>
      rw [List.mem_cons, List.mem_cons]
      exact or_congr (Alike.eq_iff_eq hmarkers h hother) ih

end Calls

variable {salt : Text}

theorem marks_tokens (hm : (clear first second calls).permits m) (hsalt : salt ∈ [first, second])
    (hdistinct : Call.Distinct salt calls) :
    (Cache.build salt calls).reading.Marks (Cache.build salt calls).tokens (m.draft salt) := by
  intro e he token htoken
  obtain ⟨call, hcall, rfl⟩ := Cache.exists_call_of_mem_tokens hdistinct (.refl _) (.refl _) htoken
  exact hm.2 salt hsalt e he _ (List.mem_map_of_mem hcall)

theorem readable_text (hm : (clear first second calls).permits m) (hsalt : salt ∈ [first, second])
    (hdistinct : Call.Distinct salt calls) : (Cache.build salt calls).readable (Script.text salt m) = m.readable := by
  rw [← Script.text_draft]
  exact Cache.readable_build hdistinct (marks_tokens hm hsalt hdistinct) (Script.expands_readable hdistinct hm.1)

/-- No token is left of what a reader sees. -/
theorem absentFrom_readable (hmarkers : Markers first second calls)
    (hm : (clear first second calls).permits m) : Call.AbsentFrom [first, second] calls m.readable := by
  intro salt hsalt call hcall ⟨before, after, hsplit⟩
  have hdistinct := hmarkers.distinct salt hsalt
  have hread := Script.expands_readable hdistinct hm.1
  have hunfolds : (Cache.build salt calls).reading.Unfolds (m.draft salt) _ :=
    Meaning.Unfolds.refl.foldl (Cache.build salt calls).tokens
  have hdone := Cache.token_notMem_foldl_unfold (fun _ => Cache.find?_of_mem_labels hdistinct) hread.known
  have htext := (Meaning.Expands.of_unfolds hunfolds (.text hdone)).unique hread
  have hput := hm.2 salt hsalt _ hunfolds _ (List.mem_map_of_mem hcall) before after (htext.trans hsplit.symm)
  obtain ⟨left, right, heq, -⟩ := hput
  refine hdone (call.token salt) ?_
  rw [heq]
  exact List.mem_append_right left List.mem_cons_self

/-- The tokens of labels are those of the calls about labels. -/
theorem isUnlabelled_iff (hdistinct : Call.Distinct salt calls) {sign : Sign}
    (hsign : ∀ call, sign = .token call → call ∈ calls) :
    (∀ token ∈ (Cache.build salt calls).labels.map Prod.fst, sign.part salt ≠ .token token) ↔
      sign.isUnlabelled = true := by
  have hlabels (token : Text) : token ∈ (Cache.build salt calls).labels.map Prod.fst ↔
      ∃ name, .label name ∈ calls ∧ (Call.label name).token salt = token := by
    simp only [Cache.labels_build hdistinct, List.map_map, List.mem_map, Call.mem_labelNames, Function.comp_apply]
  cases sign with
  | character c => exact iff_of_true (fun _ _ heq => Part.noConfusion heq) rfl
  | token call =>
      have hcall := hsign call rfl
      rw [Sign.isUnlabelled, Option.isNone_iff_eq_none, Option.eq_none_iff_forall_ne_some]
      constructor
      · intro hnone name hname
        cases call with
        | label other => exact hnone _ ((hlabels _).mpr ⟨other, hcall, rfl⟩) rfl
        | _ => cases hname
      · intro hnone token htoken heq
        obtain ⟨name, hname, rfl⟩ := (hlabels token).mp htoken
        exact hnone name ((Script.part_eq_label_iff hdistinct hname hcall).mp heq)

/-- The tokens of labels are taken out of a text. -/
theorem unfolds_unlabelled (hm : (clear first second calls).permits m) (hsalt : salt ∈ [first, second])
    (hdistinct : Call.Distinct salt calls) :
    ((Cache.build salt calls).takeLabels (Script.text salt m)).1 = Script.text salt m.unlabelled ∧
      (Cache.build salt calls).reading.Unfolds (m.draft salt) (m.unlabelled.draft salt) := by
  let c := Cache.build salt calls
  have hempty : ∀ token ∈ c.labels.map Prod.fst, c.reading.draft? token = some [] :=
    fun _ => Cache.draft?_of_mem_labels hdistinct
  have hfilter : (c.labels.map Prod.fst).foldl c.reading.unfold (m.draft salt) = m.unlabelled.draft salt := by
    rw [Meaning.foldl_unfold_eq_filter hempty, Script.draft, Script.draft, Script.unlabelled, List.filter_map]
    refine congrArg _ (List.filter_congr fun sign hsign => ?_)
    rw [Function.comp_apply, Bool.eq_iff_iff, decide_eq_true_iff]
    exact isUnlabelled_iff hdistinct fun call heq => hm.1 call (heq ▸ hsign)
  have hunfolds : c.reading.Unfolds (m.draft salt) _ := Meaning.Unfolds.refl.foldl (c.labels.map Prod.fst)
  refine ⟨?_, hfilter ▸ hunfolds⟩
  have hmap : (c.labels.map fun l => (l.1, ([] : Text))).map Prod.fst = c.labels.map Prod.fst := by
    rw [List.map_map]
    rfl
  have htokens : ∀ token ∈ c.labels.map Prod.fst, token ∈ c.tokens := fun _ => List.mem_append_right _
  have hmarks := marks_tokens hm hsalt hdistinct
  have hfold := Meaning.foldl_replaceAll_text (Cache.closed_reading c) (c.labels.map fun l => (l.1, ([] : Text)))
    (d := m.draft salt) ?_ ?_ ?_ (Script.known_draft hdistinct hm.1)
  · rw [hmap, hfilter, Script.text_draft, Script.text_draft, List.foldl_map] at hfold
    exact hfold
  · rw [hmap]
    intro token htoken
    obtain ⟨call, -, rfl⟩ := Cache.exists_call_of_mem_tokens hdistinct (.refl _) (.refl _) (htokens token htoken)
    exact call.token_ne_nil salt
  · intro r hr new hnew
    obtain ⟨l, hl, rfl⟩ := List.mem_map.mp hr
    rw [hempty l.1 (List.mem_map_of_mem hl)] at hnew
    obtain rfl := Option.some.inj hnew
    rfl
  · rw [hmap]
    exact fun e he token htoken => hmarks e he token (htokens token htoken)

theorem permits_unlabelled (hmarkers : Markers first second calls)
    (hm : (clear first second calls).permits m) : (clear first second calls).permits m.unlabelled := by
  refine ⟨fun call hcall => hm.1 call (m.unlabelled_subset hcall), fun salt hsalt e he => ?_⟩
  have hunfolds := (unfolds_unlabelled hm hsalt (hmarkers.distinct salt hsalt)).2
  exact hm.2 salt hsalt e (hunfolds.trans he)

/-- The labels that are found in a text are those of its tokens. -/
theorem foundLabels_text (hm : (clear first second calls).permits m) (hsalt : salt ∈ [first, second])
    (hdistinct : Call.Distinct salt calls) :
    (Cache.build salt calls).foundLabels (Script.text salt m) =
      (Call.labelNames calls).flatMap fun name => (m.placesFrom name 0).map fun place => (place, name) := by
  rw [Cache.foundLabels, Cache.labels_build hdistinct, List.flatMap_map]
  refine List.flatMap_congr fun name hname => ?_
  have hcall := Call.mem_labelNames.mp hname
  have hoccurs := occursAsPut_of_permits hm hsalt hcall
  dsimp only
  rw [← Script.text_draft, Draft.occurrences_text (Call.token_ne_nil salt _) hoccurs,
    Script.places_draft hdistinct hm.1 hcall]

section Numbering

open Manuscript.Numbering (stripped)

variable (hmarkers : Markers first second calls)

include hmarkers

theorem stripped_text (hm : (clear first second calls).permits m) (hsalt : salt ∈ [first, second]) (equations : Nat) :
    stripped (Cache.build salt calls) equations (Script.text salt m) = Script.text salt (m.stripped equations) ∧
      (clear first second calls).permits (m.stripped equations) := by
  have hdistinct := hmarkers.distinct salt hsalt
  have hunlabelled := permits_unlabelled hmarkers hm
  cases equations with
  | zero => exact ⟨rfl, hm⟩
  | succ n =>
      refine ⟨?_, hunlabelled⟩
      change stripped _ _ _ = Script.text salt m.unlabelled
      induction n with
      | zero => exact (unfolds_unlabelled hm hsalt hdistinct).1
      | succ n ih =>
          have htwice : m.unlabelled.unlabelled = m.unlabelled := by simp [Script.unlabelled]
          have hnext := (unfolds_unlabelled hunlabelled hsalt hdistinct).1
          rw [htwice] at hnext
          rw [← hnext, ← ih]
          rfl

/-- Equations leave alike what is alike, and the same labels are found in it. -/
theorem Alike.stripped (h : (clear first second calls).Alike t t') (equations : Nat) :
    (clear first second calls).Alike (Numbering.stripped (Cache.build first calls) equations t)
        (Numbering.stripped (Cache.build second calls) equations t') ∧
      ((Cache.build first calls).takeLabels (Numbering.stripped (Cache.build first calls) equations t)).2 =
        ((Cache.build second calls).takeLabels (Numbering.stripped (Cache.build second calls) equations t')).2 := by
  obtain ⟨m, hm, (rfl : Script.text first m = t), (rfl : Script.text second m = t')⟩ := h
  obtain ⟨htext, hpermits⟩ := stripped_text hmarkers hm (by simp : first ∈ [first, second]) equations
  obtain ⟨htext', -⟩ := stripped_text hmarkers hm (by simp : second ∈ [first, second]) equations
  rw [htext, htext']
  refine ⟨⟨_, hpermits, rfl, rfl⟩, ?_⟩
  rw [Cache.takeLabels, Cache.takeLabels, foundLabels_text hpermits (by simp) (hmarkers.distinct first (by simp)),
    foundLabels_text hpermits (by simp) (hmarkers.distinct second (by simp))]

/-- A reader sees the same of both texts, and no token is left of it. -/
theorem Alike.readable_eq (h : (clear first second calls).Alike t t') :
    (Cache.build first calls).readable t = (Cache.build second calls).readable t' ∧
      Call.AbsentFrom [first, second] calls ((Cache.build first calls).readable t) := by
  obtain ⟨m, hm, (rfl : Script.text first m = t), (rfl : Script.text second m = t')⟩ := h
  rw [readable_text hm (by simp) (hmarkers.distinct first (by simp)),
    readable_text hm (by simp) (hmarkers.distinct second (by simp))]
  exact ⟨rfl, absentFrom_readable hmarkers hm⟩

end Numbering

/-- Every script by which both texts may be written has the property. -/
def Always (s : Salts) (p : Script → Prop) (t t' : Text) : Prop :=
  ∀ m, s.permits m → Script.text s.first m = t → Script.text s.second m = t' → p m

/-- It is enough to look at one script in which the tokens act as markers. -/
theorem always_of_permits {p : Script → Prop} (hdistinct : Call.Distinct first calls)
    (hcalls : ∀ a ∈ calls, ∀ b ∈ calls, a.cacheable = b.cacheable → a = b)
    (hdiffer : ∀ call ∈ calls, call.token first ≠ call.token second) (hm : (clear first second calls).permits m)
    (hp : p m) : (of first second calls).Always p (Script.text first m) (Script.text second m) := by
  intro l hl hfirst hsecond
  rwa [eq_of_texts_eq hdistinct hcalls hdiffer hl hm hfirst hsecond]

end Salts

/-- No linking phrase at the end of the script is read from the middle of a token. -/
def Script.IsWhole (words : Words) (salts : List Text) (calls : List Call) (m : Script) : Prop :=
  ∀ head phrase, words.splitPhrase? m.readable = some (head, phrase) → ∀ l call r, m = l ++ .token call :: r →
    ∀ salt ∈ salts, ∀ u w, call.token salt = u ++ w → u ≠ [] → w ≠ [] →
      (Cache.build salt calls).readable (w ++ text salt r) ≠ phrase

/-- The tokens of some calls by two salts act as markers in all that is made of the script: in its parts, in the id that
a heading with it gets, and where a phrase is split off its end, even if it stands inside equations. -/
structure Script.IsClear (words : Words) (first second : Text) (calls : List Call) (m : Script) : Prop where
  permits : (Salts.clear first second calls).permits m
  slug : Call.AbsentFrom [first, second] calls (Numbering.slug m.readable)
  phrase : ∀ equations, (m.stripped equations).IsWhole words [first, second] calls

end Manuscript
