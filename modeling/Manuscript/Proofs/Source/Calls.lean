import Mathlib.Data.List.Forall2
import Manuscript.Proofs.Cache.Plain
import Manuscript.Source.Tokens

/-!
What tokenizing a manuscript does to the cache, and where it puts the tokens.

Main statements: tokens are written where spans stood, and their spans are cached in that order
(`passageTokens_eq`); putting the spans back gives each passage the lines `Passage.restored` (`expands_unlines`).
Code blocks are left out, for what is cached of them depends on the highlighter.
-/

namespace Manuscript

/-- The lines of a draft, joined again. -/
def Draft.unlines (parts : List Draft) : Draft := List.intercalate (Draft.plain ['\n']) parts

theorem Draft.text_unlines (parts : List Draft) :
    Draft.text (Draft.unlines parts) = Text.unlines (parts.map Draft.text) := by
  induction parts with
  | nil => rfl
  | cons d parts ih =>
      cases parts with
      | nil => simp [Draft.unlines, Text.unlines, Text.join]
      | cons e parts =>
          simp only [Draft.unlines, Text.unlines, Text.join, List.map_cons] at ih ⊢
          rw [List.intercalate_cons_cons, List.intercalate_cons_cons, Draft.text_append, Draft.text_append,
            ih, Draft.text_plain]

theorem Meaning.Expands.unlines {m : Meaning} {parts : List Draft} {lines : List Text}
    (h : List.Forall₂ m.Expands parts lines) : m.Expands (Draft.unlines parts) (Text.unlines lines) := by
  induction h with
  | nil => exact .nil
  | @cons d t parts lines hd hrest ih =>
      cases hrest with
      | nil => simpa [Draft.unlines, Text.unlines, Text.join] using hd
      | cons =>
          simp only [Draft.unlines, Text.unlines, Text.join] at ih ⊢
          rw [List.intercalate_cons_cons, List.intercalate_cons_cons]
          have hbreak : m.Expands (Draft.plain ['\n']) ['\n'] := .character '\n' .nil
          exact (hd.append hbreak).append ih

theorem Meaning.Expands.plain {m : Meaning} (t : Text) : m.Expands (Draft.plain t) t := by
  have h := Expands.text (m := m) fun token => Draft.token_notMem_plain token t
  rwa [Draft.text_plain] at h

namespace Source

/-- What stands before and after the span of an item. -/
def Item.frame : Item → Text × Text
  | .verb _ delimiter _ => (verbCommand ++ [delimiter], [delimiter])
  | .math fence _ => (fence.opening, fence.closing)
  | .link command _ => (command.opening, linkClosing)
  | .escaped _ | .beyondAscii _ _ | .character _ => ([], [])

/-- The call that caches the span of an item. -/
def Item.call? : Item → Option Call
  | .verb _ _ body => some (.span .literal (Draft.plain body))
  | .math fence body => some (.delimited .math fence.context (Draft.plain body))
  | .link _ target => some (.span .url (Draft.plain target))
  | .beyondAscii first others => some (.span .unicode (Draft.plain (first :: others)))
  | .escaped _ | .character _ => none

/-- An item with a token for its span. -/
def Item.draft (salt : Text) (i : Item) : Draft :=
  match i.call? with
  | some call => Draft.plain i.frame.1 ++ [.token (call.token salt)] ++ Draft.plain i.frame.2
  | none => Draft.plain i.source

/-- An item as it comes back: the star of a `\verb*` span does not. -/
def Item.restored : Item → Text
  | .verb _ delimiter body => Item.source (.verb false delimiter body)
  | i => i.source

/-- The call that caches the opaque span of a passage. -/
def Passage.call? : Passage → Option Call
  | .rawHtml _ html => some (.span .rawHtml (Draft.plain html))
  | .literal _ body _ => some (.span .literal (Draft.plain (Text.unlines body)))
  | .math environment _ body _ =>
    let lines := body.filter fun line => (loneLabel? line).isNone
    some (.delimited .math environment (Draft.plain (Text.unlines lines)))
  | .hint _ | .code _ _ _ _ _ | .comment _ | .prose _ => none

/-- The labels that are taken out of a passage. -/
def Passage.labels : Passage → List Text
  | .math _ _ body _ => body.filterMap loneLabel?
  | _ => []

/-- The calls that cache what is opaque in a passage. -/
def Passage.calls (p : Passage) : List Call :=
  match p with
  | .prose line => (items line).filterMap Item.call?
  | _ => p.labels.map .label ++ p.call?.toList

/-- The lines of a passage with tokens for what is opaque. -/
def Passage.drafts (salt : Text) (p : Passage) : List Draft :=
  let tokens := (p.call?.toList ++ p.labels.map Call.label).map fun call => [.token (call.token salt)]
  match p with
  | .rawHtml _ _ => tokens
  | .literal first _ last | .math _ first _ last => Draft.plain first :: tokens ++ [Draft.plain last]
  | .comment line => [Draft.plain line]
  | .prose line => [(items line).flatMap (Item.draft salt)]
  | .hint _ | .code _ _ _ _ _ => []

/-- The lines of a passage as they come back: labels stand after the rest of a body, and a body without lines
is an empty line. -/
def Passage.restored : Passage → List Text
  | .rawHtml _ html => ["%= " ++ html]
  | .literal first body last => [first, Text.unlines body, last]
  | .math _ first body last =>
    first :: Text.unlines (body.filter fun line => (loneLabel? line).isNone) ::
      (body.filterMap loneLabel?).map (Cache.renderLabel .markup) ++ [last]
  | .comment line => [line]
  | .prose line => [(items line).flatMap Item.restored]
  | .hint _ | .code _ _ _ _ _ => []

/-- Is the passage a code block? -/
def Passage.isCode : Passage → Bool
  | .code _ _ _ _ _ => true
  | _ => false

namespace Gathered

/-- What is gathered after some calls. -/
def perform (g : Gathered) (calls : List Call) : Gathered := { g with cache := g.cache.perform calls }

theorem salt_perform (c : Cache) (calls : List Call) : (c.perform calls).salt = c.salt := by
  induction calls generalizing c with
  | nil => rfl
  | cons call calls ih => exact (ih _).trans (Cache.salt_perform_call c call)

theorem perform_append (g : Gathered) (calls more : List Call) :
    g.perform (calls ++ more) = (g.perform calls).perform more := by
  simp [perform, Cache.perform]

theorem add_eq (g : Gathered) (kind : SpanKind) (t : Text) :
    g.add kind t =
      ((Call.span kind (Draft.plain t)).token g.cache.salt, g.perform [.span kind (Draft.plain t)]) := by
  simp [add, Cache.add, perform, Cache.perform, Call.perform, Call.token, Call.cacheable]

theorem addDelimited_eq (g : Gathered) (kind : SpanKind) (context t : Text) :
    g.addDelimited kind context t =
      ((Call.delimited kind context (Draft.plain t)).token g.cache.salt,
        g.perform [.delimited kind context (Draft.plain t)]) := by
  simp [addDelimited, Cache.addDelimited, perform, Cache.perform, Call.perform, Call.token, Call.cacheable]

theorem addLabels_eq (g : Gathered) (labels : List Text) :
    g.addLabels labels =
      (labels.map fun name => (Call.label name).token g.cache.salt, g.perform (labels.map .label)) := by
  induction labels generalizing g with
  | nil => rfl
  | cons name labels ih =>
      have hsalt : (g.cache.addLabel name).2.salt = g.cache.salt := Cache.salt_perform_call g.cache (.label name)
      simp only [addLabels, ih, hsalt]
      rfl

end Gathered

theorem Item.text_draft {salt : Text} {i : Item} {call : Call} (h : i.call? = some call) :
    Draft.text (i.draft salt) = i.frame.1 ++ call.token salt ++ i.frame.2 := by
  simp only [draft, h, Draft.text_append, Draft.text_plain, Draft.text_cons, Draft.text_nil, Part.text,
    List.append_nil]

theorem Item.tokens_eq (g : Gathered) (i : Item) :
    i.tokens g = (Draft.text (i.draft g.cache.salt), g.perform i.call?.toList) := by
  cases i with
  | escaped c | character c => rfl
  | verb isStarred delimiter body =>
      rw [text_draft rfl, tokens, Gathered.add_eq]
      simp only [frame, verbCommand, List.append_assoc, List.singleton_append]
      rfl
  | math fence body =>
      rw [text_draft rfl, tokens, Gathered.addDelimited_eq]
      rfl
  | link command target =>
      rw [text_draft rfl, tokens, Gathered.add_eq]
      rfl
  | beyondAscii first others =>
      rw [text_draft rfl, tokens, Gathered.add_eq]
      simp only [frame, List.nil_append, List.append_nil]
      rfl

theorem itemTokens_eq (g : Gathered) (is : List Item) :
    itemTokens g is =
      (Draft.text (is.flatMap (Item.draft g.cache.salt)), g.perform (is.filterMap Item.call?)) := by
  induction is generalizing g with
  | nil => rfl
  | cons i is ih =>
      have hsalt : (g.perform i.call?.toList).cache.salt = g.cache.salt := Gathered.salt_perform g.cache _
      simp only [itemTokens, Item.tokens_eq, ih, hsalt]
      rw [List.flatMap_cons, Draft.text_append, ← Gathered.perform_append]
      cases hcall : i.call? <;> simp [hcall]

theorem mathTokens_eq (g : Gathered) (environment first : Text) (body : List Text) (last : Text) :
    mathTokens g environment first body last =
      (((Passage.math environment first body last).drafts g.cache.salt).map Draft.text,
        g.perform (Passage.math environment first body last).calls) := by
  have hsalt : ∀ labels, (g.perform labels).cache.salt = g.cache.salt :=
    fun labels => Gathered.salt_perform g.cache labels
  simp only [mathTokens, Gathered.addLabels_eq, Gathered.addDelimited_eq, hsalt]
  rw [← Gathered.perform_append]
  simp [Passage.drafts, Passage.calls, Passage.call?, Passage.labels, Function.comp_def, Part.text]

theorem Passage.tokens_eq (highlighter : Highlighter) (format : Format) (g : Gathered) {p : Passage}
    (hp : p.isCode = false) :
    p.tokens highlighter format g = ((p.drafts g.cache.salt).map Draft.text, g.perform p.calls) := by
  cases p with
  | hint line => rfl
  | comment line => simp [tokens, drafts, calls, labels, call?, Gathered.perform, Cache.perform]
  | rawHtml line html =>
      simp only [tokens, Gathered.add_eq]
      simp [drafts, calls, labels, call?, Part.text]
  | literal first body last =>
      simp only [tokens, Gathered.add_eq]
      simp [drafts, calls, labels, call?, Part.text]
  | code first body last hint isInListing => simp [isCode] at hp
  | math environment first body last => exact mathTokens_eq g environment first body last
  | prose line => simp only [tokens, itemTokens_eq, drafts, calls, List.map_cons, List.map_nil]

theorem passageTokens_eq (highlighter : Highlighter) (format : Format) (g : Gathered) {ps : List Passage}
    (hps : ∀ p ∈ ps, p.isCode = false) :
    passageTokens highlighter format g ps =
      ((ps.flatMap (Passage.drafts g.cache.salt)).map Draft.text, g.perform (ps.flatMap Passage.calls)) := by
  induction ps generalizing g with
  | nil => rfl
  | cons p ps ih =>
      have hsalt : (g.perform p.calls).cache.salt = g.cache.salt := Gathered.salt_perform g.cache _
      have hrest := ih (g.perform p.calls) fun q hq => hps q (List.mem_cons_of_mem p hq)
      rw [hsalt, ← Gathered.perform_append] at hrest
      simp only [passageTokens, p.tokens_eq highlighter format g (hps p List.mem_cons_self), hrest,
        List.flatMap_cons, List.map_append]

theorem Item.isPlain_of_call? {i : Item} {call : Call} (h : i.call? = some call) : call.IsPlain := by
  cases i <;> simp only [call?, Option.some.injEq, reduceCtorEq] at h <;> exact h ▸ ⟨_, rfl⟩

theorem Passage.isPlain_of_mem_calls {p : Passage} {call : Call} (h : call ∈ p.calls) : call.IsPlain := by
  cases p with
  | prose line =>
      obtain ⟨i, -, hi⟩ := List.mem_filterMap.mp h
      exact Item.isPlain_of_call? hi
  | hint line | code first body last hint isInListing | comment line => cases h
  | rawHtml line html | literal first body last =>
      obtain rfl := List.mem_singleton.mp h
      exact ⟨_, rfl⟩
  | math environment first body last =>
      rcases List.mem_append.mp h with hlabel | hbody
      · obtain ⟨name, -, rfl⟩ := List.mem_map.mp hlabel
        exact trivial
      · obtain rfl := List.mem_singleton.mp hbody
        exact ⟨_, rfl⟩

theorem Item.restored_eq_source {i : Item} (h : i.call? = none) : i.restored = i.source := by
  cases i <;> simp only [call?, reduceCtorEq] at h <;> rfl

theorem Item.restored_eq {i : Item} {call : Call} (h : i.call? = some call) :
    i.restored = i.frame.1 ++ Draft.text (call.rendered .markup) ++ i.frame.2 := by
  cases i <;> simp only [call?, Option.some.injEq, reduceCtorEq] at h <;> subst h <;>
    simp only [Call.rendered, SpanKind.text_render_markup, reduceCtorEq, if_false]
  · simp only [restored, source, frame, Bool.false_eq_true, if_false, List.append_nil, List.append_assoc,
      List.nil_append, List.cons_append]
  · rfl
  · rfl
  · simp only [restored, source, frame, List.nil_append, List.append_nil]

section Restored

variable {salt : Text} {calls : List Call}

theorem Item.expands_draft (hdistinct : Call.Distinct salt calls) (hflat : Call.Flat calls)
    {i : Item} (hcalls : ∀ call, i.call? = some call → call ∈ calls) :
    (Call.meaning salt calls .markup).Expands (i.draft salt) i.restored := by
  unfold Item.draft
  split
  · rename_i call hcall
    rw [restored_eq hcall]
    have htoken : (Call.meaning salt calls .markup).Expands [.token (call.token salt)] _ :=
      hflat.expands_token hdistinct (hcalls call hcall)
    exact ((Meaning.Expands.plain i.frame.1).append htoken).append (.plain i.frame.2)
  · rename_i hcall
    rw [restored_eq_source hcall]
    exact .plain i.source

theorem expands_flatMap_draft (hdistinct : Call.Distinct salt calls) (hflat : Call.Flat calls)
    {is : List Item} (hcalls : ∀ i ∈ is, ∀ call, i.call? = some call → call ∈ calls) :
    (Call.meaning salt calls .markup).Expands (is.flatMap (Item.draft salt)) (is.flatMap Item.restored) := by
  induction is with
  | nil => exact .nil
  | cons i is ih =>
      have hrest := ih fun j hj => hcalls j (List.mem_cons_of_mem i hj)
      exact (Item.expands_draft hdistinct hflat (hcalls i List.mem_cons_self)).append hrest

theorem forall₂_expands_tokens (hdistinct : Call.Distinct salt calls) (hflat : Call.Flat calls)
    (some : List Call) (hcalls : ∀ call ∈ some, call ∈ calls) :
    List.Forall₂ (Call.meaning salt calls .markup).Expands (some.map fun call => [.token (call.token salt)])
      (some.map fun call => Draft.text (call.rendered .markup)) := by
  induction some with
  | nil => exact .nil
  | cons call some ih =>
      have hrest := ih fun other hother => hcalls other (List.mem_cons_of_mem call hother)
      exact .cons (hflat.expands_token hdistinct (hcalls call List.mem_cons_self)) hrest

theorem Passage.expands_drafts (hdistinct : Call.Distinct salt calls) (hflat : Call.Flat calls)
    {p : Passage} (hcalls : ∀ call ∈ p.calls, call ∈ calls) :
    List.Forall₂ (Call.meaning salt calls .markup).Expands (p.drafts salt) p.restored := by
  have htokens := fun some => forall₂_expands_tokens hdistinct hflat some
  cases p with
  | prose line =>
      refine .cons (expands_flatMap_draft hdistinct hflat fun i hi call hcall => ?_) .nil
      exact hcalls call (List.mem_filterMap.mpr ⟨i, hi, hcall⟩)
  | hint line | code first body last hint isInListing => exact .nil
  | comment line => exact .cons (.plain line) .nil
  | rawHtml line html => 
      have h := htokens [.span .rawHtml (Draft.plain html)] hcalls
      simp only [List.map_cons, Call.rendered, SpanKind.text_render_markup] at h
      exact h
  | literal first body last =>
      have h := htokens [.span .literal (Draft.plain (Text.unlines body))] hcalls
      simp only [List.map_cons, Call.rendered, SpanKind.text_render_markup] at h
      exact .cons (.plain first) (List.rel_append h (.cons (.plain last) .nil))
  | math environment first body last =>
      let lines := body.filter fun line => (loneLabel? line).isNone
      have h := htokens (.delimited .math environment (Draft.plain (Text.unlines lines)) ::
        (body.filterMap loneLabel?).map .label) fun call hcall => hcalls call (by
          simpa [Passage.calls, Passage.labels, Passage.call?, or_comm] using hcall)
      simp only [List.map_cons, List.map_map, Function.comp_def, Call.rendered, SpanKind.text_render_markup,
        Draft.text_plain] at h
      rw [drafts, Passage.labels, Passage.call?, Option.toList_some, List.singleton_append, List.map_cons, List.map_map]
      exact .cons (.plain first) (List.rel_append h (.cons (.plain last) .nil))

/-- Putting the spans of some passages back gives their lines as they come back. -/
theorem expands_unlines (hdistinct : Call.Distinct salt calls) (hplain : ∀ call ∈ calls, call.IsPlain)
    {ps : List Passage} (hcalls : ∀ p ∈ ps, ∀ call ∈ p.calls, call ∈ calls) :
    (Call.meaning salt calls .markup).Expands (Draft.unlines (ps.flatMap (Passage.drafts salt)))
      (Text.unlines (ps.flatMap Passage.restored)) := by
  apply Meaning.Expands.unlines
  induction ps with
  | nil => exact .nil
  | cons p ps ih =>
      have hrest := ih fun q hq => hcalls q (List.mem_cons_of_mem p hq)
      exact List.rel_append (p.expands_drafts hdistinct (Call.flat_of_isPlain hplain) (hcalls p List.mem_cons_self)) hrest

end Restored

end Source

end Manuscript
