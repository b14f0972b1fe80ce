import Manuscript.Cache
import Manuscript.Proofs.Text.Numeral
import Manuscript.Proofs.Text.Utf8
import Manuscript.Source.Environment
import Manuscript.Source.Line

/-!
What digests are made of.  A null character follows each part, and nothing keeps null characters out of the parts.

Main statements: spans given without null characters are digested from bytes of their own (`IsClean.eq`), and so are the
spans that can be cached while tokens are written, whatever they hold (`IsScanned.eq`).
-/

namespace Manuscript

theorem Utf8.encode_injective : Function.Injective Utf8.encode := by
  intro s t h
  have hdecode := congrArg Utf8.decode? h
  rw [Utf8.decode?_encode, Utf8.decode?_encode] at hdecode
  exact Option.some.inj hdecode

/-- The character that follows each part. -/
def nul : Char := '\x00'

/-- Parts with what follows each of them. -/
def framed (parts : List Text) : Text := parts.flatMap fun part => part ++ [nul]

theorem framed_cons (part : Text) (parts : List Text) : framed (part :: parts) = part ++ nul :: framed parts := by
  rw [framed, List.flatMap_cons, List.append_assoc]
  rfl

theorem framed_concat (parts : List Text) (part : Text) :
    framed (parts ++ [part]) = framed parts ++ part ++ [nul] := by
  rw [framed, List.flatMap_append, List.flatMap_singleton, List.append_assoc]
  rfl

theorem digestInput_eq_encode (parts : List Text) : digestInput parts = Utf8.encode (framed parts) := by
  induction parts with
  | nil => rfl
  | cons part parts ih =>
      rw [digestInput] at ih ⊢
      rw [List.flatMap_cons, ih, framed_cons, List.append_assoc]
      simp only [Utf8.encode, List.flatMap_append, List.flatMap_cons]
      rfl

/-- Different bytes have the same digest. -/
def Collide (parts parts' : List Text) : Prop :=
  digestInput parts ≠ digestInput parts' ∧ digest parts = digest parts'

instance (parts parts' : List Text) : Decidable (Collide parts parts') :=
  inferInstanceAs (Decidable (_ ∧ _))

theorem framed_eq_of_digestInput {parts parts' : List Text} (h : digestInput parts = digestInput parts') :
    framed parts = framed parts' := by
  rw [digestInput_eq_encode, digestInput_eq_encode] at h
  exact Utf8.encode_injective h

section Framed

variable {part part' : Text} {parts parts' : List Text}

/-- A first part without null characters ends where it seems to. -/
theorem framed_cons_inj (hpart : nul ∉ part) (hpart' : nul ∉ part')
    (h : framed (part :: parts) = framed (part' :: parts')) : part = part' ∧ framed parts = framed parts' := by
  rw [framed_cons, framed_cons] at h
  exact Text.append_cons_inj hpart hpart' h

/-- Parts without null characters can be told apart, however many they are. -/
theorem framed_inj (hparts : ∀ part ∈ parts, nul ∉ part) (hparts' : ∀ part ∈ parts', nul ∉ part)
    (h : framed parts = framed parts') : parts = parts' := by
  induction parts generalizing parts' with
  | nil =>
      cases parts' with
      | nil => rfl
      | cons part' parts' => simp [framed] at h
  | cons part parts ih =>
      cases parts' with
      | nil => simp [framed] at h
      | cons part' parts' =>
          obtain ⟨hfirst, hothers⟩ := List.forall_mem_cons.mp hparts
          obtain ⟨hfirst', hothers'⟩ := List.forall_mem_cons.mp hparts'
          obtain ⟨rfl, hrest⟩ := framed_cons_inj hfirst hfirst' h
          rw [ih hothers hothers' hrest]

/-- A first part may hold null characters where as many others follow that hold none. -/
theorem framed_cons_inj_of_length (hparts : ∀ part ∈ parts, nul ∉ part) (hparts' : ∀ part ∈ parts', nul ∉ part)
    (hlength : parts.length = parts'.length) (h : framed (part :: parts) = framed (part' :: parts')) :
    part = part' ∧ parts = parts' := by
  induction parts using List.reverseRecOn generalizing parts' with
  | nil =>
      obtain rfl := List.length_eq_zero_iff.mp hlength.symm
      rw [framed_cons, framed_cons] at h
      exact ⟨List.append_cancel_right h, rfl⟩
  | append_singleton parts last ih =>
      -- The last parts are read off the end, and what is before them ends in a null character again.
      obtain rfl | ⟨parts', last', rfl⟩ := List.eq_nil_or_concat' parts'
      · simp at hlength
      simp only [List.mem_append, List.mem_singleton, or_imp, forall_and, forall_eq] at hparts hparts'
      have hshorter : parts.length = parts'.length := by simpa using hlength
      rw [← List.cons_append, ← List.cons_append, framed_concat, framed_concat] at h
      have hends := List.append_cancel_right h
      have hinit : ∀ (first : Text) (others : List Text),
          ∃ init, framed (first :: others) = init ++ [nul] := by
        intro first others
        rcases List.eq_nil_or_concat' (first :: others) with hnil | ⟨init, final, heq⟩
        · cases hnil
        · exact ⟨framed init ++ final, by rw [heq, framed_concat]⟩
      obtain ⟨init, hinit₁⟩ := hinit part parts
      obtain ⟨init', hinit₂⟩ := hinit part' parts'
      rw [hinit₁, hinit₂, List.append_assoc, List.append_assoc, List.singleton_append,
        List.singleton_append] at hends
      obtain ⟨rfl, rfl⟩ := Text.append_cons_inj_of_notMem_right hparts.2 hparts'.2 hends
      obtain ⟨rfl, rfl⟩ := ih hparts.1 hparts'.1 hshorter (hinit₁.trans hinit₂.symm)
      exact ⟨rfl, rfl⟩

end Framed

namespace Highlight.Options

/-- The written form of options, which has the numbers of the marked lines between brackets. -/
theorem canonical_eq (o : Options) :
    o.canonical = ("\x7b\"hl_lines\":[" : Text) ++ Text.join "," (o.markedLines.map fun n => Text.ofNat n.toNat) ++
      ']' :: ((",\"linenos\":" : Text) ++ (if o.isNumbered then ("true" : Text) else "false") ++ "\x7d") := by
  have hitems : ∀ ns : List UInt32, Json.compactItems (ns.map fun n => Json.ofNat n.toNat) =
      ns.map fun n => Text.ofNat n.toNat := by
    intro ns
    induction ns with
    | nil => rfl
    | cons n ns ih =>
        rw [List.map_cons, Json.compactItems, ih]
        rfl
  have hflag : Json.compact (.bool o.isNumbered) = if o.isNumbered then ("true" : Text) else "false" := by
    cases o.isNumbered <;> rw [Json.compact] <;> rfl
  rw [canonical, Json.compact, Json.compactMembers, Json.compactMembers, Json.compactMembers, Json.compact, hitems,
    hflag]
  generalize Text.join "," (o.markedLines.map fun n => Text.ofNat n.toNat) = numerals
  simp only [Text.join, List.intercalate_cons_cons, List.intercalate_singleton, List.append_assoc]
  rfl

/-- The numerals of the marked lines. -/
theorem map_ofNat_toNat (ns : List UInt32) :
    (ns.map fun n => Text.ofNat n.toNat) = (ns.map UInt32.toNat).map Text.ofNat := by
  rw [List.map_map]
  rfl

theorem notMem_join_numerals {c : Char} (hdigit : c.isDigit = false) (hcomma : c ≠ ',') (ns : List UInt32) :
    c ∉ Text.join "," (ns.map fun n => Text.ofNat n.toNat) := by
  intro h
  rw [map_ofNat_toNat] at h
  obtain h | h := Text.mem_join_numerals h
  · rw [h] at hdigit
    cases hdigit
  · exact hcomma h

theorem canonical_injective : Function.Injective canonical := by
  rintro ⟨lines, isNumbered⟩ ⟨lines', isNumbered'⟩ h
  simp only [canonical_eq, List.append_assoc] at h
  obtain ⟨hlines, hflag⟩ := Text.append_cons_inj (notMem_join_numerals rfl (by decide) lines)
    (notMem_join_numerals rfl (by decide) lines') (List.append_cancel_left h)
  rw [map_ofNat_toNat, map_ofNat_toNat] at hlines
  have hnumbers := Text.join_numerals_injective (rfl : ','.isDigit = false) hlines
  have hsame : isNumbered = isNumbered' := by
    have hwords := List.append_cancel_right (List.append_cancel_left hflag)
    cases isNumbered <;> cases isNumbered' <;> first | rfl | cases hwords
  rw [List.map_injective_iff.mpr (fun _ _ => UInt32.toNat_inj.mp) hnumbers, hsame]

theorem nul_notMem_canonical (o : Options) : nul ∉ o.canonical := by
  have hends : nul ∉ ("\x7b\"hl_lines\":[" : Text) ∧
      nul ∉ ']' :: ((",\"linenos\":" : Text) ++ (if o.isNumbered then ("true" : Text) else "false") ++ "\x7d") := by
    cases o.isNumbered <;> decide
  rw [canonical_eq, List.mem_append, List.mem_append]
  exact not_or.mpr ⟨not_or.mpr ⟨hends.1, notMem_join_numerals rfl (by decide) _⟩, hends.2⟩

end Highlight.Options

namespace Cacheable

/-- The kind of a span; a label has none. -/
def kind? : Cacheable → Option SpanKind
  | .span kind _ | .delimited kind _ _ => some kind
  | .code _ _ => some .code
  | .label _ => none

/-- The word for a kind of span, or for labels. -/
def word : Option SpanKind → Text
  | some kind => kind.name
  | none => "label"

theorem word_injective : Function.Injective word := by
  intro kind kind'
  rcases kind with _ | kind <;> rcases kind' with _ | kind' <;> (try cases kind) <;> (try cases kind') <;> decide

theorem nul_notMem_word (kind : Option SpanKind) : nul ∉ word kind := by
  rcases kind with _ | kind <;> (try cases kind) <;> decide

/-- The parts of a span after its word. -/
def others : Cacheable → List Text
  | .span _ content => [content]
  | .delimited _ context content => [context, content]
  | .code source key =>
    [source, key.language, key.format.name, if key.isInListing then "listing" else "bare", key.options.canonical]
  | .label name => [name]

theorem parts_eq (salt : Text) (span : Cacheable) : span.parts salt = salt :: word span.kind? :: span.others := by
  cases span <;> rfl

/-- The same bytes are about one kind of span. -/
theorem kind?_eq_of_digestInput {salt : Text} {a b : Cacheable}
    (h : digestInput (a.parts salt) = digestInput (b.parts salt)) :
    a.kind? = b.kind? ∧ framed a.others = framed b.others := by
  have hframed := framed_eq_of_digestInput h
  rw [parts_eq, parts_eq, framed_cons, framed_cons salt] at hframed
  obtain ⟨hword, hothers⟩ := framed_cons_inj (nul_notMem_word a.kind?) (nul_notMem_word b.kind?)
    (List.cons.inj (List.append_cancel_left hframed)).2
  exact ⟨word_injective hword, hothers⟩

theorem nul_notMem_of_isLanguage {language : Text} (h : language.all Source.isLanguageCharacter = true) :
    nul ∉ language :=
  fun hmem => absurd (List.all_eq_true.mp h nul hmem) (by decide)

theorem nul_notMem_name (format : Format) : nul ∉ format.name := by
  cases format <;> decide

theorem nul_notMem_flag (isInListing : Bool) : nul ∉ (if isInListing then ("listing" : Text) else "bare") := by
  cases isInListing <;> decide

theorem name_injective : Function.Injective Format.name := by
  rintro (_ | _) (_ | _) <;> decide

theorem keyParts_injective {key key' : CodeKey}
    (h : [key.language, key.format.name, if key.isInListing then "listing" else "bare", key.options.canonical] =
      [key'.language, key'.format.name, if key'.isInListing then "listing" else "bare", key'.options.canonical]) :
    key = key' := by
  obtain ⟨language, format, isInListing, options⟩ := key
  obtain ⟨language', format', isInListing', options'⟩ := key'
  simp only [List.cons.injEq, and_true] at h
  obtain ⟨rfl, hformat, hflag, hoptions⟩ := h
  obtain rfl := name_injective hformat
  obtain rfl := Highlight.Options.canonical_injective hoptions
  obtain rfl : isInListing = isInListing' := by
    cases isInListing <;> cases isInListing' <;> first | rfl | cases hflag
  rfl

/-- A span is what its kind and its parts say. -/
theorem eq_of_others {a b : Cacheable} (hkind : a.kind? = b.kind?) (h : a.others = b.others) : a = b := by
  cases a <;> cases b
  case span.span =>
    obtain rfl := Option.some.inj hkind
    obtain rfl := (List.cons.inj h).1
    rfl
  case delimited.delimited =>
    obtain rfl := Option.some.inj hkind
    obtain ⟨rfl, hcontent⟩ := List.cons.inj h
    rw [(List.cons.inj hcontent).1]
  case code.code =>
    obtain ⟨rfl, hkey⟩ := List.cons.inj h
    rw [keyParts_injective hkey]
  case label.label =>
    obtain rfl := (List.cons.inj h).1
    rfl
  case span.label | label.span => cases hkind
  all_goals cases h

/-- The texts that a span is given by. -/
def arguments : Cacheable → List Text
  | .span _ content => [content]
  | .delimited _ context content => [context, content]
  | .code source key => [source, key.language]
  | .label name => [name]

/-- The span is given without null characters. -/
def IsClean (span : Cacheable) : Prop := ∀ argument ∈ span.arguments, nul ∉ argument

instance : DecidablePred IsClean := fun span =>
  inferInstanceAs (Decidable (∀ argument ∈ span.arguments, nul ∉ argument))

theorem IsClean.nul_notMem {span : Cacheable} (h : span.IsClean) : ∀ part ∈ span.others, nul ∉ part := by
  cases span with
  | span | delimited | label => exact h
  | code source key =>
      obtain ⟨hsource, hlanguage, -⟩ := by simpa only [IsClean, arguments, List.forall_mem_cons] using h
      simp only [others, List.forall_mem_cons]
      exact ⟨hsource, hlanguage, nul_notMem_name _, nul_notMem_flag _, Highlight.Options.nul_notMem_canonical _, by simp⟩

/-- Spans given without null characters are digested from bytes of their own: the null characters between the parts show
how many there are. -/
theorem IsClean.eq {salt : Text} {a b : Cacheable} (ha : a.IsClean) (hb : b.IsClean)
    (h : digestInput (a.parts salt) = digestInput (b.parts salt)) : a = b := by
  obtain ⟨hkind, hframed⟩ := kind?_eq_of_digestInput h
  exact eq_of_others hkind (framed_inj ha.nul_notMem hb.nul_notMem hframed)

/-- The ways in which mathematics can be delimited. -/
def contexts : List Text := "inline" :: "display" :: Source.mathEnvironments

/-- What can be cached while tokens are written. -/
inductive IsScanned : Cacheable → Prop
  | span {kind : SpanKind} (hkind : kind ∈ [SpanKind.literal, .url, .unicode, .rawHtml]) (content : Text) :
      IsScanned (.span kind content)
  | delimited {context : Text} (hcontext : context ∈ contexts) (content : Text) :
      IsScanned (.delimited .math context content)
  | code (source : Text) {key : CodeKey} (hlanguage : key.language.all Source.isLanguageCharacter = true) :
      IsScanned (.code source key)
  | label (name : Text) : IsScanned (.label name)

/-- The parts of a code block after its source, which itself may hold anything. -/
theorem nul_notMem_keyParts {key : CodeKey} (h : key.language.all Source.isLanguageCharacter = true) :
    ∀ part ∈ [key.language, key.format.name, if key.isInListing then "listing" else "bare", key.options.canonical],
      nul ∉ part := by
  simp only [List.forall_mem_cons]
  exact ⟨nul_notMem_of_isLanguage h, nul_notMem_name _, nul_notMem_flag _, Highlight.Options.nul_notMem_canonical _,
    by simp⟩

theorem framed_singleton_injective : Function.Injective fun part : Text => framed [part] :=
  fun _ _ h => (framed_cons_inj_of_length (by simp) (by simp) rfl h).1

theorem nul_notMem_context : ∀ context ∈ contexts, nul ∉ context := by
  decide +kernel

/-- Whatever is cached while tokens are written is digested from bytes of its own.  The kind says how many parts there
are, and of these only one can hold null characters. -/
theorem IsScanned.eq {salt : Text} {a b : Cacheable} (ha : a.IsScanned) (hb : b.IsScanned)
    (h : digestInput (a.parts salt) = digestInput (b.parts salt)) : a = b := by
  obtain ⟨hkind, hothers⟩ := kind?_eq_of_digestInput h
  refine eq_of_others hkind ?_
  cases ha with
  | span hmem content =>
      cases hb with
      | span => exact congrArg (fun content => [content]) (framed_singleton_injective hothers)
      | delimited | code =>
          obtain rfl := Option.some.inj hkind
          exact absurd hmem (by decide)
      | label => cases hkind
  | delimited hcontext content =>
      cases hb with
      | span hmem =>
          obtain rfl := Option.some.inj hkind
          exact absurd hmem (by decide)
      | delimited hcontext' content' =>
          obtain ⟨rfl, hcontent⟩ :=
            framed_cons_inj (nul_notMem_context _ hcontext) (nul_notMem_context _ hcontext') hothers
          exact congrArg (fun content => [_, content]) (framed_singleton_injective hcontent)
      | code | label => cases hkind
  | code source hlanguage =>
      cases hb with
      | span hmem =>
          obtain rfl := Option.some.inj hkind
          exact absurd hmem (by decide)
      | code source' hlanguage' =>
          obtain ⟨rfl, hkey⟩ :=
            framed_cons_inj_of_length (nul_notMem_keyParts hlanguage) (nul_notMem_keyParts hlanguage') rfl hothers
          exact congrArg (source :: ·) hkey
      | delimited | label => cases hkind
  | label name =>
      cases hb with
      | label name' => exact congrArg (fun name => [name]) (framed_singleton_injective hothers)
      | span | delimited | code => cases hkind

end Cacheable

end Manuscript
