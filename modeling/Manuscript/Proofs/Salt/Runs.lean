import Manuscript.Proofs.Salt.Footnotes
import Manuscript.Proofs.Salt.Html
import Manuscript.Proofs.Salt.Tokens

/-!
Where the salt of a run shows.  A run is compared with a run of the same conversion by another salt; the parser reads
XML.

Main statement: the salt shows in no error of the source, no markup, no HTML, no outline and nothing that is left
behind, but in whether the text with tokens is well formed, and in the labels that warnings name (`isHidden`).
-/

namespace Manuscript

/-- The warning about what has become of the label that it names. -/
def Warning.mapLabel (f : Text → Text) : Warning → Warning
  | .duplicateLabel label => .duplicateLabel (f label)
  | .undefinedReference label => .undefinedReference (f label)
  | .undefinedLink label => .undefinedLink (f label)
  | warning => warning

namespace Salts

variable {first second : Text} {calls : List Call} {t t' : Text}

/-- Texts of one script are the same just if it holds no token. -/
theorem Alike.eq_iff_absentFrom (hdiffer : ∀ call ∈ calls, call.token first ≠ call.token second)
    (h : (clear first second calls).Alike t t') : t = t' ↔ Call.AbsentFrom [first, second] calls t := by
  obtain ⟨m, hm, (rfl : Script.text first m = t), (rfl : Script.text second m = t')⟩ := h
  constructor
  · intro heq salt hsalt call hcall hpart
    have htext : Script.text salt m = Script.text first m := by
      obtain rfl | hsecond := List.mem_cons.mp hsalt
      · rfl
      · rw [List.mem_singleton.mp hsecond, heq]
    obtain ⟨before, after, hsplit⟩ := hpart
    obtain ⟨left, right, hdraft, -⟩ := occursAsPut_of_permits hm hsalt hcall before after (by
      rw [Script.text_draft, htext, hsplit])
    obtain ⟨other, hother, -⟩ := Script.token_mem_draft.mp (hdraft ▸ List.mem_append_right left List.mem_cons_self)
    -- The tokens of this call stand at one place in both texts.
    obtain ⟨l, r, rfl⟩ := List.append_of_mem hother
    rw [Script.text_append, Script.text_append, Script.text_token, Script.text_token] at heq
    have hrest := (List.append_inj heq (Script.length_text_eq l first second)).2
    have hlength := (Script.length_token first other).trans (Script.length_token second other).symm
    exact hdiffer other (hm.1 other hother) (List.append_inj hrest hlength).1
  · intro habsent
    refine Script.text_eq_of_forall_notMem (fun call hcall => ?_) _ _
    refine habsent first (by simp) call (hm.1 call hcall) ?_
    obtain ⟨l, r, rfl⟩ := List.append_of_mem hcall
    rw [Script.text_append, Script.text_token]
    exact ⟨_, _, List.append_assoc _ _ _⟩

section Warnings

variable {warnings warnings' : List Warning}
    (h : List.Forall₂ (Warning.Like (clear first second calls).Alike) warnings warnings')

include h

/-- The labels that warnings name are read alike. -/
theorem map_mapLabel_eq (hmarkers : Markers first second calls) :
    warnings.map (Warning.mapLabel (Cache.build first calls).readable) =
      warnings'.map (Warning.mapLabel (Cache.build second calls).readable) := by
  rw [← List.forall₂_eq_eq_eq, List.forall₂_map_left_iff, List.forall₂_map_right_iff]
  refine h.imp fun warning warning' hone => ?_
  cases hone with
  | nameless hnone =>
      cases warning with
      | inclusionFailed | resultsNotKept => rfl
      | _ => cases hnone
  | duplicateLabel ht => exact congrArg _ (ht.readable_eq hmarkers).1
  | undefinedReference ht => exact congrArg _ (ht.readable_eq hmarkers).1
  | undefinedLink ht => exact congrArg _ (ht.readable_eq hmarkers).1

/-- Warnings are the same just if they name no label with a token in it. -/
theorem warnings_eq_iff (hdiffer : ∀ call ∈ calls, call.token first ≠ call.token second) :
    warnings = warnings' ↔ ∀ label ∈ warnings.filterMap Warning.label?,
      Call.AbsentFrom [first, second] calls label := by
  induction h with
  | nil => exact iff_of_true rfl (List.forall_mem_nil _)
  | @cons warning warning' rest rest' hone hrest ih =>
      have hfirst : warning = warning' ↔
          ∀ label ∈ warning.label?.toList, Call.AbsentFrom [first, second] calls label := by
        cases hone with
        | nameless hnone =>
            rw [hnone]
            exact iff_of_true rfl (List.forall_mem_nil _)
        | duplicateLabel ht | undefinedReference ht | undefinedLink ht =>
            simpa [Warning.label?] using ht.eq_iff_absentFrom hdiffer
      have hcons : (warning :: rest).filterMap Warning.label? =
          warning.label?.toList ++ rest.filterMap Warning.label? := by
        rw [List.filterMap_cons]
        cases warning.label? <;> rfl
      rw [List.cons.injEq, hcons, List.forall_mem_append, hfirst, ih]

end Warnings

end Salts

namespace Conversion

/-- The conversion by another salt. -/
def salted (c : Conversion) (salt : Text) : Conversion := { c with salt }

/-- The text with tokens by a salt, if the source is read. -/
def tokens? (c : Conversion) (salt : Text) (w : Workspace) (source : Text) : Option Text :=
  ((c.salted salt).gather w source).1.toOption

/-- The tree of the text with tokens by a salt, if there is one. -/
def tree? (c : Conversion) (salt : Text) (w : Workspace) (source : Text) : Option Xml :=
  (c.tokens? salt w source).bind Xml.parse?

/-- The HTML of a document and of its outline, with the tokens in it. -/
def unrestored (c : Conversion) (cache : Cache) (d : Document) : Converted :=
  let numbered := d.number cache c.isArticle
  let resolved := numbered.1.resolve numbered.2.1 c.words cache
  let placed := (resolved.1.placeFootnotes c.footnotes).1
  let outline := placed.outline c.isArticle
  ⟨placed.html ⟨c.words, some outline⟩, some outline.html, numbered.2.2 ++ resolved.2⟩

/-- HTML with the spans in place of their tokens, cleaned if it is to be. -/
def restored (c : Conversion) (cache : Cache) (html : Text) : Text :=
  if c.isSanitized then Html.sanitize (cache.restore html .html) else cache.restore html .html

/-- How a run ends after the text with tokens has been made. -/
def conclude (w : Workspace) (failures : List Warning) (result : Except ParserError Converted) :
    Except ConversionError Converted × Workspace :=
  match result with
  | .error e => (.error (.parser e), w)
  | .ok converted =>
    (.ok { converted with warnings := failures ++ converted.warnings ++ (keepResults w).1 }, (keepResults w).2)

variable {c : Conversion} {first second salt : Text} {w : Workspace} {source : Text}

theorem write_eq (c : Conversion) (cache : Cache) (d : Document) :
    c.write cache d =
      let html := c.unrestored cache d
      ⟨c.restored cache html.body, html.outline.map (c.restored cache), html.warnings⟩ := rfl

theorem run_salted (c : Conversion) (salt : Text) (w : Workspace) (source : Text) :
    (c.salted salt).run w source =
      let g := (c.salted salt).gather w source
      match g.1 with
      | .error e => (.error (.source e), { w with store := g.2.store })
      | .ok t =>
        conclude { w with store := g.2.store } (Inclusion.expand w.sources.provider source).2
          (c.finish (.build salt (c.calls w source)) t) := by
  have hcache := cache_gather (c.salted salt) w source
  unfold run gather at *
  dsimp only at hcache ⊢
  generalize Source.tokenize (c.salted salt).highlighter (c.salted salt).format ⟨.empty (c.salted salt).salt, w.store⟩
    (Inclusion.expand w.sources.provider source).1 = g at hcache ⊢
  obtain ⟨tokens, gathered⟩ := g
  cases tokens with
  | error e => rfl
  | ok t =>
      dsimp only at hcache ⊢
      rw [hcache]
      rfl

section Markers

variable (c first second w source) in
/-- The tokens of a run act as markers by two salts: in the markup, in the texts of the tree that the text with tokens
is read as, and in the HTML that is written of it. -/
structure IsMarked : Prop where
  markers : Salts.Markers first second (c.calls w source)
  markup : c.format = .markup → ∀ t ∈ c.tokens? first w source, ∀ t' ∈ c.tokens? second w source,
    Salts.Restorable first second (c.calls w source) .markup t t'
  tree : c.format = .html → ∀ x ∈ c.tree? first w source, ∀ x' ∈ c.tree? second w source,
    ∀ p ∈ x.writings.zip x'.writings, Salts.Told c.words first second (c.calls w source) p.1 p.2
  html : c.format = .html → ∀ x ∈ c.tree? first w source, ∀ x' ∈ c.tree? second w source,
    let written := c.unrestored (.build first (c.calls w source)) (Document.ofXml x)
    let written' := c.unrestored (.build second (c.calls w source)) (Document.ofXml x')
    Salts.Restorable first second (c.calls w source) .html written.body written'.body ∧
      ∀ o ∈ written.outline, ∀ o' ∈ written'.outline, Salts.Restorable first second (c.calls w source) .html o o'

variable (c first second w source) in
/-- What a run shows of its salt. -/
structure IsHidden : Prop where
  /-- A source that is not read gives the same error, -/
  unread : c.tokens? first w source = none ∨ c.tokens? second w source = none →
    (c.salted first).run w source = (c.salted second).run w source
  /-- and so does a text that is well formed with neither salt. -/
  malformed : c.tree? first w source = none → c.tree? second w source = none →
    (c.salted first).run w source = (c.salted second).run w source
  /-- Markup is the same. -/
  markup : c.format = .markup → (c.salted first).run w source = (c.salted second).run w source
  /-- HTML is the same, and so are its outline, all that is left behind, and the warnings if their labels are read; the
  labels as they are named are the same just if none of them holds a token. -/
  html : c.format = .html → (c.tree? first w source).isSome → (c.tree? second w source).isSome →
    ∃ body outline warnings warnings' w',
      (c.salted first).run w source = (.ok ⟨body, outline, warnings⟩, w') ∧
      (c.salted second).run w source = (.ok ⟨body, outline, warnings'⟩, w') ∧
      warnings.map (Warning.mapLabel (Cache.build first (c.calls w source)).readable) =
        warnings'.map (Warning.mapLabel (Cache.build second (c.calls w source)).readable) ∧
      ((∀ call ∈ c.calls w source, call.token first ≠ call.token second) →
        (warnings = warnings' ↔ ∀ label ∈ warnings.filterMap Warning.label?,
          Call.AbsentFrom [first, second] (c.calls w source) label))
  /-- A run has no result if its text is not well formed, and so it is the same by both salts just if it gives the same
  warnings by both. -/
  eq_iff : (c.salted first).run w source = (c.salted second).run w source ↔
    ((c.salted first).run w source).1.toOption.map Converted.warnings =
      ((c.salted second).run w source).1.toOption.map Converted.warnings

end Markers

/-- Documents that are parsed alike are written alike, with alike warnings. -/
theorem unrestored_alike {calls : List Call} (hmarkers : Salts.Markers first second calls) {d d' : Document}
    (h : List.Forall₂ (Node.Like (Salts.parsed c.words first second calls)) d.children d'.children) :
    let html := c.unrestored (.build first calls) d
    let html' := c.unrestored (.build second calls) d'
    (Salts.of first second calls).Alike html.body html'.body ∧
      Option.Rel (Salts.of first second calls).Alike html.outline html'.outline ∧
      List.Forall₂ (Warning.Like (Salts.clear first second calls).Alike) html.warnings html'.warnings := by
  obtain ⟨hnumbered, hlabels, hrepeated⟩ := Salts.number_like hmarkers c.isArticle h
  obtain ⟨hresolved, hundefined⟩ := Salts.resolve_like hmarkers hlabels hnumbered
  have hplaced := (Salts.placeFootnotes_like c.footnotes hresolved).1
  have houtline := Salts.outline_alike (Salts.ofNodes_like c.isArticle hplaced)
  unfold unrestored
  dsimp only
  exact ⟨Salts.html_alike (Salts.settingLike c.words houtline) hplaced, .some houtline,
    List.rel_append hrepeated hundefined⟩

/-- A failed inclusion names no label. -/
theorem label?_of_mem_expand {provider : Inclusion.Provider} {warning : Warning}
    (h : warning ∈ (Inclusion.expand provider source).2) : warning.label? = none := by
  suffices hlines : ∀ (isOpen : Inclusion.OpenLiteral) (number : Nat) (lines : List Text),
      ∀ warning ∈ (Inclusion.expandLines provider isOpen number lines).2, warning.label? = none from
    hlines _ _ _ warning h
  intro isOpen number lines
  fun_induction Inclusion.expandLines provider isOpen number lines with
  | case1 => exact List.forall_mem_nil _
  | case2 _ _ _ _ _ lines warnings hrest ih => simpa only [hrest] using ih
  | case3 _ _ _ _ _ lines warnings hrest ih => simpa only [hrest] using ih
  | case4 number line rest hbegin first found hfirst lines warnings hrest ih =>
      rw [hrest] at ih
      refine List.forall_mem_append.mpr ⟨?_, ih⟩
      unfold Inclusion.expandLine at hfirst
      split at hfirst
      · obtain ⟨-, rfl⟩ := Prod.mk.inj hfirst
        exact List.forall_mem_nil _
      · split at hfirst
        · obtain ⟨-, rfl⟩ := Prod.mk.inj hfirst
          exact List.forall_mem_nil _
        · obtain ⟨-, rfl⟩ := Prod.mk.inj hfirst
          exact List.forall_mem_singleton.mpr rfl

theorem label?_of_mem_keepResults {warning : Warning} (h : warning ∈ (keepResults w).1) : warning.label? = none := by
  unfold keepResults at h
  split at h
  · cases h
  · obtain rfl := List.mem_singleton.mp h
    rfl

theorem forall₂_nameless {r : Text → Text → Prop} {warnings : List Warning}
    (h : ∀ warning ∈ warnings, warning.label? = none) : List.Forall₂ (Warning.Like r) warnings warnings :=
  List.forall₂_same.mpr fun warning hwarning => .nameless (h warning hwarning)

/-- Where both runs are the same, the salt shows in nothing. -/
theorem isHidden_of_eq (h : (c.salted first).run w source = (c.salted second).run w source)
    (hhtml : c.format = .html → (c.tree? first w source).isSome → (c.tree? second w source).isSome → False) :
    c.IsHidden first second w source where
  unread _ := h
  malformed _ _ := h
  markup _ := h
  html hformat hfirst hsecond := (hhtml hformat hfirst hsecond).elim
  eq_iff := iff_of_true h (by rw [h])

/-- The result of a conversion to HTML. -/
theorem finish_html (hparser : c.parser = Document.ofXmlText) (hformat : c.format = .html) (cache : Cache) (t : Text) :
    c.finish cache t = match Xml.parse? t with
      | some x => .ok (c.write cache (Document.ofXml x))
      | none => .error .malformed := by
  unfold finish
  rw [hformat, hparser]
  dsimp only
  unfold Document.ofXmlText Document.parse?
  cases Xml.parse? t <;> rfl

/-- HTML comes of the texts that are well formed. -/
theorem isSome_run (hparser : c.parser = Document.ofXmlText) (hformat : c.format = .html) (salt : Text) :
    ((c.salted salt).run w source).1.toOption.isSome = (c.tree? salt w source).isSome := by
  rw [run_salted, tree?, tokens?]
  dsimp only
  cases ((c.salted salt).gather w source).1 with
  | error e => rfl
  | ok t =>
      dsimp only
      rw [finish_html hparser hformat, Except.toOption, Option.bind_some]
      cases Xml.parse? t <;> rfl

/-- Where only one text is well formed, the other run has no result. -/
theorem isHidden_of_apart (hparser : c.parser = Document.ofXmlText) (hformat : c.format = .html)
    (hfirst : (c.tokens? first w source).isSome) (hsecond : (c.tokens? second w source).isSome)
    (hapart : (c.tree? first w source).isSome ≠ (c.tree? second w source).isSome) :
    c.IsHidden first second w source where
  unread hnone := by
    obtain hnone | hnone := hnone
    · simp [hnone] at hfirst
    · simp [hnone] at hsecond
  malformed hnone hnone' := absurd (by rw [hnone, hnone']) hapart
  markup hmarkup := by
    rw [hformat] at hmarkup
    cases hmarkup
  html _ htree htree' := absurd (htree.trans htree'.symm) hapart
  eq_iff := by
    rw [← isSome_run hparser hformat, ← isSome_run hparser hformat] at hapart
    refine iff_of_false (fun heq => hapart (by rw [heq])) fun heq => hapart ?_
    have hsome := congrArg Option.isSome heq
    rwa [Option.isSome_map, Option.isSome_map] at hsome

theorem restored_eq {calls : List Call} (htokenless : Call.Tokenless calls)
    (hmarkers : Salts.Markers first second calls)
    {html html' : Text} (h : (Salts.of first second calls).Alike html html')
    (hrestorable : Salts.Restorable first second calls .html html html') :
    c.restored (.build first calls) html = c.restored (.build second calls) html' := by
  unfold restored
  rw [Salts.restore_eq htokenless hmarkers.distinct h hrestorable]

/-- Where both texts are well formed, the HTML is the same, and the warnings name labels that are read alike. -/
theorem isHidden_of_trees (h : c.IsMarked first second w source) (hformat : c.format = .html) {x x' : Xml}
    (htree : c.tree? first w source = some x) (htree' : c.tree? second w source = some x')
    (hlike : Xml.Like (Salts.of first second (c.calls w source)).Alike x x') {left : Workspace}
    {failures : List Warning} (hfailures : ∀ warning ∈ failures, warning.label? = none)
    (hrun : (c.salted first).run w source =
      conclude left failures (.ok (c.write (.build first (c.calls w source)) (Document.ofXml x))))
    (hrun' : (c.salted second).run w source =
      conclude left failures (.ok (c.write (.build second (c.calls w source)) (Document.ofXml x')))) :
    c.IsHidden first second w source := by
  have htokenless : Call.Tokenless (c.calls w source) := Source.tokenless_cached c.highlighter c.format w.store _
  obtain ⟨hbody, houtline, hwarnings⟩ :=
    unrestored_alike h.markers (Salts.ofXml_like h.markers hlike (h.tree hformat x htree x' htree'))
  obtain ⟨hmarksBody, hmarksOutline⟩ := h.html hformat x htree x' htree'
  rw [write_eq] at hrun hrun'
  dsimp only at hrun hrun'
  generalize c.unrestored (.build first (c.calls w source)) (Document.ofXml x) = html,
    c.unrestored (.build second (c.calls w source)) (Document.ofXml x') = html' at *
  have hsameBody : c.restored (.build first (c.calls w source)) html.body =
      c.restored (.build second (c.calls w source)) html'.body := restored_eq htokenless h.markers hbody hmarksBody
  have hsameOutline : html.outline.map (c.restored (.build first (c.calls w source))) =
      html'.outline.map (c.restored (.build second (c.calls w source))) := by
    generalize html.outline = o, html'.outline = o' at houtline hmarksOutline ⊢
    cases houtline with
    | none => rfl
    | some hone => exact congrArg some (restored_eq htokenless h.markers hone (hmarksOutline _ rfl _ rfl))
  have hall : List.Forall₂ (Warning.Like (Salts.clear first second (c.calls w source)).Alike)
      (failures ++ html.warnings ++ (keepResults left).1) (failures ++ html'.warnings ++ (keepResults left).1) :=
    List.rel_append (List.rel_append (forall₂_nameless hfailures) hwarnings)
      (forall₂_nameless fun _ hwarning => label?_of_mem_keepResults hwarning)
  rw [← hsameBody, ← hsameOutline] at hrun'
  refine
    { unread := fun hnone => ?_
      malformed := fun hnone => ?_
      markup := fun hmarkup => ?_
      html := fun _ _ _ => ⟨_, _, _, _, _, hrun, hrun', Salts.map_mapLabel_eq hall h.markers,
        Salts.warnings_eq_iff hall⟩
      eq_iff := ⟨fun heq => by rw [heq], fun heq => ?_⟩ }
  · obtain hnone | hnone := hnone
    · rw [tree?, hnone] at htree
      cases htree
    · rw [tree?, hnone] at htree'
      cases htree'
  · rw [hnone] at htree
    cases htree
  · rw [hformat] at hmarkup
    cases hmarkup
  · rw [hrun, hrun'] at heq ⊢
    have hsame : failures ++ html.warnings ++ (keepResults left).1 =
        failures ++ html'.warnings ++ (keepResults left).1 :=
      Option.some.inj heq
    unfold conclude
    dsimp only
    rw [hsame]

/-- A salt shows only in whether the text with tokens is well formed and in the labels that warnings name. -/
theorem isHidden (hparser : c.parser = Document.ofXmlText) (h : c.IsMarked first second w source) :
    c.IsHidden first second w source := by
  obtain ⟨htokens, hstore⟩ := Source.tokenize_alike first second c.highlighter c.format w.store
    (Inclusion.expand w.sources.provider source).1
  change ((c.salted first).gather w source).2.store = ((c.salted second).gather w source).2.store at hstore
  have htokenless : Call.Tokenless (c.calls w source) := Source.tokenless_cached c.highlighter c.format w.store _
  obtain ⟨e, he, he'⟩ | ⟨t, t', ht, ht', halike⟩ := htokens
  · -- The source is not read.
    change ((c.salted first).gather w source).1 = .error e at he
    change ((c.salted second).gather w source).1 = .error e at he'
    refine isHidden_of_eq ?_ fun _ hfirst _ => ?_
    · rw [run_salted, run_salted]
      dsimp only
      rw [he, he', hstore]
    · simp [tree?, tokens?, he, Except.toOption] at hfirst
  · change ((c.salted first).gather w source).1 = .ok t at ht
    change ((c.salted second).gather w source).1 = .ok t' at ht'
    change (Salts.of first second (c.calls w source)).Alike t t' at halike
    have htokens : c.tokens? first w source = some t := by rw [tokens?, ht]; rfl
    have htokens' : c.tokens? second w source = some t' := by rw [tokens?, ht']; rfl
    have hrun : (c.salted first).run w source = _ := run_salted c first w source
    have hrun' : (c.salted second).run w source = _ := run_salted c second w source
    dsimp only at hrun hrun'
    rw [ht] at hrun
    rw [ht', ← hstore] at hrun'
    dsimp only at hrun hrun'
    generalize ({ w with store := ((c.salted first).gather w source).2.store } : Workspace) = left at hrun hrun'
    cases hformat : c.format with
    | markup =>
        have hrestore := Salts.restore_eq htokenless h.markers.distinct halike
          (h.markup hformat t htokens t' htokens')
        refine isHidden_of_eq ?_ fun hhtml => ?_
        · rw [hrun, hrun']
          unfold finish
          rw [hformat]
          dsimp only
          rw [hrestore]
        · rw [hformat] at hhtml
          cases hhtml
    | html =>
        have htree : c.tree? first w source = Xml.parse? t := by rw [tree?, htokens, Option.bind_some]
        have htree' : c.tree? second w source = Xml.parse? t' := by rw [tree?, htokens', Option.bind_some]
        rw [finish_html hparser hformat] at hrun hrun'
        cases hx : Xml.parse? t with
        | none =>
            rw [hx] at hrun htree
            cases hx' : Xml.parse? t' with
            | none =>
                rw [hx'] at hrun'
                exact isHidden_of_eq (hrun.trans hrun'.symm) fun _ hfirst _ => by simp [htree] at hfirst
            | some x' =>
                rw [hx'] at hrun' htree'
                refine isHidden_of_apart hparser hformat ?_ ?_ ?_ <;> simp [htokens, htokens', htree, htree']
        | some x =>
            rw [hx] at hrun htree
            cases hx' : Xml.parse? t' with
            | none =>
                rw [hx'] at hrun' htree'
                refine isHidden_of_apart hparser hformat ?_ ?_ ?_ <;> simp [htokens, htokens', htree, htree']
            | some x' =>
                rw [hx'] at hrun' htree'
                exact isHidden_of_trees h hformat htree htree' (halike.parse? h.markers.letters x x' hx hx')
                  (fun _ => label?_of_mem_expand) hrun hrun'

/-- Whether a name that is a token starts as a name must depends on the salt. -/
example :
    let c : Conversion := ⟨.html, false, .numbered, false, .default, Highlight.plain, Document.ofXmlText, []⟩
    let w : Workspace := ⟨⟨.empty, [], []⟩, .inMemory⟩
    (c.tree? "s" w "<document><é/></document>").isSome ∧ (c.tree? "3" w "<document><é/></document>").isNone := by
  decide +kernel

end Conversion

deriving instance DecidableEq for Call

namespace AccentedTarget

/-- A reference to a label beyond ASCII that nothing defines. -/
def source : Text := "<document><ref target=\"é\"/></document>"

def conversion : Conversion :=
  ⟨.html, false, .numbered, false, .default, Highlight.plain, Document.ofXmlText, []⟩

def workspace : Workspace := ⟨⟨.empty, [], []⟩, .inMemory⟩

/-- The only call to the cache. -/
def call : Call := .span .unicode (Draft.plain "é")

/-- The HTML with the token in it. -/
def html : Script := Script.plain "<span class=\"undefined_ref\">" ++ [.token call] ++ Script.plain "</span>"

/-- The outline of a document without headings. -/
def emptyOutline : Text := "<div id=\"table_of_contents\">\n</div>"

/-- What comes of a script when the token is replaced. -/
def drafts (salt : Text) (m : Script) : List Draft := [m.draft salt, Draft.plain m.readable]

/-- The tokens by both salts differ and hold a letter, and what stands for them is too short to hold a token. -/
theorem tokens_call :
    call.token "s" ≠ call.token "3" ∧
      (∀ salt ∈ (["s", "3"] : List Text), ((call.token salt).take 32).any Char.isAlpha = true) ∧
      Words.default.splitPhrase? (Script.readable [.token call]) = none ∧
      (Numbering.slug (Script.readable [.token call])).length < 40 ∧
      ∀ t ∈ (["document", "", "ref"] : List Text), t.length < 40 ∧ (Numbering.slug t).length < 40 := by
  decide +kernel

/-- The run makes the one call; its token is in the tree, in the HTML and in the message, by both salts. -/
theorem run_source :
    conversion.calls workspace source = [call] ∧
      ∀ salt ∈ (["s", "3"] : List Text),
        (conversion.tree? salt workspace source).map Xml.writings =
          some (["document", "", "", "ref", "", "", call.token salt] : List Text) ∧
        (conversion.tree? salt workspace source).map (fun x =>
            let written := conversion.unrestored (.build salt [call]) (Document.ofXml x)
            (written.body, written.outline)) =
          some (Script.text salt html, some emptyOutline) ∧
        ((conversion.salted salt).run workspace source).1.toOption.map Converted.warnings =
          some [.undefinedReference (call.token salt)] := by
  decide +kernel

/-- The token is a marker in the label and in the HTML, by both salts. -/
theorem marks {m : Script} (hm : m = [.token call] ∨ m = html) {salt : Text} (hsalt : salt ∈ (["s", "3"] : List Text)) :
    (Cache.build salt [call]).reading.Marks ([call].map (Call.token salt)) (m.draft salt) ∧
      (Call.meaning salt [call] .html).Marks ([call].map (Call.token salt)) (m.draft salt) := by
  have hfacts : ∀ salt ∈ (["s", "3"] : List Text), ∀ m ∈ [[.token call], html],
      [call].map (Call.token salt) = (Cache.build salt [call]).tokens ∧
      (∀ e ∈ drafts salt m, ∀ token ∈ [call].map (Call.token salt),
        (Cache.build salt [call]).reading.unfold e token ∈ drafts salt m ∧
        (Call.meaning salt [call] .html).unfold e token ∈ drafts salt m) ∧
      ∀ e ∈ drafts salt m, ∀ token ∈ [call].map (Call.token salt), ∀ place < (Draft.text e).length,
        Text.startsWith token ((Draft.text e).drop place) → place ∈ Draft.places token 0 e := by
    decide +kernel
  obtain ⟨htokens, hunfold, hplaces⟩ := hfacts salt hsalt m (by simpa using hm)
  have hne : ∀ token ∈ [call].map (Call.token salt), token ≠ [] := by
    intro token htoken
    obtain ⟨other, -, rfl⟩ := List.mem_map.mp htoken
    exact other.token_ne_nil salt
  constructor
  · refine Meaning.marks_of_forall_mem (drafts salt m) (fun token htoken => ?_) hne
      (fun e he token htoken => (hunfold e he token htoken).1) hplaces List.mem_cons_self
    exact Cache.draft?_of_notMem_tokens (htokens ▸ htoken)
  · exact Meaning.marks_of_forall_mem (drafts salt m) (fun token htoken => Call.draft?_meaning_eq_none htoken) hne
      (fun e he token htoken => (hunfold e he token htoken).2) hplaces List.mem_cons_self

theorem markers : Salts.Markers "s" "3" [call] where
  distinct salt _ := Call.distinct_of_nodup (List.nodup_singleton _)
  letters := by
    intro m hm other hother salt hsalt
    obtain rfl := List.mem_singleton.mp (hm other hother)
    obtain ⟨-, hletter, -⟩ := tokens_call
    exact hletter salt hsalt
  labels name hname := by
    have hother := List.mem_singleton.mp hname
    cases hother

/-- The tokens of the call act as markers in its script and in the HTML. -/
theorem permits {m : Script} (hm : m = [.token call] ∨ m = html) : (Salts.clear "s" "3" [call]).permits m := by
  have htoken : (Salts.of "s" "3" [call]).permits [.token call] := by
    intro other hother
    obtain rfl := Sign.token.inj (List.mem_singleton.mp hother)
    exact List.mem_singleton_self _
  refine ⟨?_, fun salt hsalt => (marks hm hsalt).1⟩
  obtain rfl | rfl := hm
  · exact htoken
  · exact Salts.IsOpen.permits_append (Salts.IsOpen.permits_append (Salts.IsOpen.permits_plain _) htoken)
      (Salts.IsOpen.permits_plain _)

/-- What is true of the script is true however the texts are written. -/
theorem always {p : Script → Prop} {m : Script} (hm : m = [.token call] ∨ m = html) (hp : p m) :
    (Salts.of "s" "3" [call]).Always p (Script.text "s" m) (Script.text "3" m) := by
  refine Salts.always_of_permits (markers.distinct "s" (by simp)) (fun a ha b hb _ => ?_) (fun other hother => ?_)
    (permits hm) hp
  · rw [List.mem_singleton.mp ha, List.mem_singleton.mp hb]
  · rw [List.mem_singleton.mp hother]
    exact tokens_call.1

theorem told : Salts.Told .default "s" "3" [call] (call.token "s") (call.token "3") := by
  obtain ⟨-, -, hphrase, hslug, -⟩ := tokens_call
  have hclear : Script.IsClear .default "s" "3" [call] [.token call] := by
    refine ⟨permits (.inl rfl), Call.absentFrom_of_length_lt hslug, fun equations head phrase hsplit => ?_⟩
    rw [Script.readable_stripped, hphrase] at hsplit
    cases hsplit
  have htold := always (.inl rfl) hclear
  rwa [Script.text_singleton, Script.text_singleton] at htold

/-- The tokens act as markers in the run, by both salts. -/
theorem isMarked_source : conversion.IsMarked "s" "3" workspace source := by
  obtain ⟨hcalls, hrun⟩ := run_source
  obtain ⟨htree, hhtml, -⟩ := hrun "s" (by simp)
  obtain ⟨htree', hhtml', -⟩ := hrun "3" (by simp)
  have hmarkers : Salts.Markers "s" "3" (conversion.calls workspace source) := hcalls ▸ markers
  refine ⟨hmarkers, fun hmarkup => ?_, fun _ x hx x' hx' => ?_, fun _ x hx x' hx' => ?_⟩
  · cases hmarkup
  · rw [hx] at htree
    rw [hx'] at htree'
    rw [Option.some.inj htree, Option.some.inj htree', hcalls]
    have hshort : ∀ t ∈ (["document", "", "ref"] : List Text), Salts.Told .default "s" "3" [call] t t := by
      obtain ⟨-, -, -, -, hlength⟩ := tokens_call
      exact fun t ht => Salts.told_of_length_lt (hlength t ht).1 (hlength t ht).2
    have hdocument := hshort "document" (by simp)
    have hnil := hshort "" (by simp)
    have href := hshort "ref" (by simp)
    simp only [List.zip_cons_cons, List.zip_nil_left, List.forall_mem_cons]
    exact ⟨hdocument, hnil, hnil, href, hnil, hnil, told, List.forall_mem_nil _⟩
  · rw [hx] at hhtml
    rw [hx'] at hhtml'
    obtain ⟨hbody, houtline⟩ := Prod.mk.inj (Option.some.inj hhtml)
    obtain ⟨hbody', houtline'⟩ := Prod.mk.inj (Option.some.inj hhtml')
    dsimp only at hbody houtline hbody' houtline' ⊢
    rw [hcalls, hbody, hbody', houtline, houtline']
    refine ⟨always (.inr rfl) fun salt hsalt => (marks (.inr rfl) hsalt).2, fun o ho o' ho' => ?_⟩
    obtain rfl := Option.some.inj ho
    obtain rfl := Option.some.inj ho'
    exact Salts.restorable_of_length_lt (by decide)

theorem isHidden_source : conversion.parser = Document.ofXmlText ∧ conversion.IsMarked "s" "3" workspace source ∧
    conversion.IsHidden "s" "3" workspace source :=
  ⟨rfl, isMarked_source, Conversion.isHidden rfl isMarked_source⟩

end AccentedTarget

/-- No salt shows where tokens act as markers and stand nowhere in the source. -/
def Conversion.NeverShowsSalt : Prop :=
  ∀ (c : Conversion) (first second : Text) (w : Workspace) (source : Text), c.parser = Document.ofXmlText →
    c.IsMarked first second w source → Call.AbsentFrom [first, second] (c.calls w source) source →
    (c.salted first).run w source = (c.salted second).run w source

theorem AccentedTarget.not_neverShowsSalt : ¬Conversion.NeverShowsSalt := by
  intro h
  have heq := h conversion "s" "3" workspace source rfl isMarked_source (Call.absentFrom_of_length_lt (by decide))
  have hsame : some [Warning.undefinedReference (call.token "s")] =
      some [Warning.undefinedReference (call.token "3")] := by
    rw [← (run_source.2 "s" (by simp)).2.2, ← (run_source.2 "3" (by simp)).2.2, heq]
  exact tokens_call.1 (Warning.undefinedReference.inj (List.singleton_inj.mp (Option.some.inj hsame)))

end Manuscript
