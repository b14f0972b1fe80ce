import Mathlib.Data.List.Find
import Manuscript.Proofs.LabelNames
import Manuscript.Proofs.Salt.Clear

/-!
Manuscripts with the tokens of two salts, and what is put back in their place.

Main statements: the tokens of either salt are written in one script (`tokenize_alike`), and both texts of a script are
restored to one text (`restore_eq`).
-/

namespace Manuscript

theorem Script.text_singleton (salt : Text) (call : Call) : text salt [.token call] = call.token salt := by
  simp

namespace Source

open Highlight (Store)
open Salts (of Alike)

variable {first second : Text} {calls : List Call} {highlighter : Highlighter} {format : Format}

theorem token_alike {call : Call} (hcall : call ∈ calls) :
    (of first second calls).Alike (call.token first) (call.token second) := by
  refine ⟨[.token call], fun other hother => ?_, Script.text_singleton first call, Script.text_singleton second call⟩
  obtain rfl := Sign.token.inj (List.mem_singleton.mp hother)
  exact hcall

theorem Item.draft_alike {i : Item} (hcalls : ∀ call ∈ i.call?, call ∈ calls) :
    (of first second calls).Alike (Draft.text (i.draft first)) (Draft.text (i.draft second)) := by
  cases hcall : i.call? with
  | none =>
      simp only [draft, hcall]
      exact .refl _
  | some call =>
      rw [text_draft hcall, text_draft hcall]
      exact ((Alike.refl _).append (token_alike (hcalls call hcall))).append (.refl _)

theorem items_alike {is : List Item} (hcalls : ∀ i ∈ is, ∀ call ∈ i.call?, call ∈ calls) :
    (of first second calls).Alike (Draft.text (is.flatMap (Item.draft first)))
      (Draft.text (is.flatMap (Item.draft second))) := by
  induction is with
  | nil => exact .refl []
  | cons i is ih =>
      obtain ⟨hitem, hitems⟩ := List.forall_mem_cons.mp hcalls
      rw [List.flatMap_cons, List.flatMap_cons, Draft.text_append, Draft.text_append]
      exact (Item.draft_alike hitem).append (ih hitems)

theorem tokens_alike {some : List Call} (hcalls : ∀ call ∈ some, call ∈ calls) :
    List.Forall₂ (of first second calls).Alike
      ((some.map fun call => ([.token (call.token first)] : Draft)).map Draft.text)
      ((some.map fun call => ([.token (call.token second)] : Draft)).map Draft.text) := by
  induction some with
  | nil => exact .nil
  | cons call some ih =>
      obtain ⟨hcall, hsome⟩ := List.forall_mem_cons.mp hcalls
      refine .cons ?_ (ih hsome)
      simpa [Part.text] using token_alike hcall

theorem Passage.drafts_alike {p : Passage} (hcalls : ∀ call ∈ p.calls, call ∈ calls) :
    List.Forall₂ (of first second calls).Alike ((p.drafts first).map Draft.text)
      ((p.drafts second).map Draft.text) := by
  have hframed {l : Text} {some : List Call} {r : Text} (hsome : ∀ call ∈ some, call ∈ calls) :
      List.Forall₂ (of first second calls).Alike
        ((Draft.plain l :: (some.map fun call => ([.token (call.token first)] : Draft)) ++
          [Draft.plain r]).map Draft.text)
        ((Draft.plain l :: (some.map fun call => ([.token (call.token second)] : Draft)) ++
          [Draft.plain r]).map Draft.text) := by
    rw [List.cons_append, List.cons_append, List.map_cons, List.map_cons, List.map_append, List.map_append]
    exact .cons (.refl _) (List.rel_append (tokens_alike hsome) (.cons (.refl _) .nil))
  cases p with
  | hint | code => exact .nil
  | comment line => exact .cons (.refl _) .nil
  | prose line =>
      refine .cons (items_alike fun i hi call hcall => ?_) .nil
      exact hcalls call (List.mem_filterMap.mpr ⟨i, hi, hcall⟩)
  | rawHtml line html => exact tokens_alike hcalls
  | literal first body last => exact hframed hcalls
  | math environment first body last =>
      exact hframed fun call hcall => hcalls call (List.perm_append_comm.subset hcall)

variable {g g' : Gathered}

/-- The lines of a passage are written alike, whatever is cached already. -/
theorem Passage.tokens_alike (hfirst : g.cache.salt = first) (hsecond : g'.cache.salt = second)
    {p : Passage} (hcalls : ∀ call ∈ (p.requests highlighter format g.store).filterMap Request.call?, call ∈ calls) :
    List.Forall₂ (of first second calls).Alike (p.tokens highlighter format g).1
      (p.tokens highlighter format g').1 := by
  subst hfirst hsecond
  cases p with
  | code opening body closing hint isInListing =>
      have hcall := hcalls _ (List.mem_filterMap.mpr ⟨_, List.mem_append_right _ List.mem_cons_self, rfl⟩)
      have htoken : (of g.cache.salt g'.cache.salt calls).Alike _ _ := token_alike hcall
      cases format with
      | markup => exact .cons htoken .nil
      | html => exact .cons (.refl _) (.cons htoken (.cons (.refl _) .nil))
  | _ =>
      rw [tokens_eq highlighter format g rfl, tokens_eq highlighter format g' rfl]
      refine Passage.drafts_alike fun call hcall => hcalls call ?_
      exact List.mem_filterMap.mpr ⟨.cache call, List.mem_map_of_mem hcall, rfl⟩

theorem passageTokens_alike (hfirst : g.cache.salt = first) (hsecond : g'.cache.salt = second) {ps : List Passage}
    (hcalls : ∀ call ∈ cached highlighter format g.store ps, call ∈ calls) :
    List.Forall₂ (of first second calls).Alike (passageTokens highlighter format g ps).1
      (passageTokens highlighter format g' ps).1 := by
  induction ps generalizing g g' with
  | nil => exact .nil
  | cons p ps ih =>
      have hafter : (p.tokens highlighter format g).2.store =
          (p.requests highlighter format g.store).foldl Request.store g.store := by
        rw [p.gathered_tokens, store_foldl_answer]
      rw [cached, requests, List.filterMap_append, List.forall_mem_append] at hcalls
      obtain ⟨hnow, hlater⟩ := hcalls
      have hrest : ∀ call ∈ cached highlighter format (p.tokens highlighter format g).2.store ps, call ∈ calls := by
        rw [hafter]
        exact hlater
      exact List.rel_append (p.tokens_alike hfirst hsecond hnow)
        (ih ((p.salt_tokens g).trans hfirst) ((p.salt_tokens g').trans hsecond) hrest)

variable (first second) in
/-- The tokens of either salt are written in one script, from one store and with one store left. -/
theorem tokenize_alike (highlighter : Highlighter) (format : Format) (s : Store) (source : Text) :
    let tokenized (salt : Text) := tokenize highlighter format ⟨.empty salt, s⟩ source
    let calls := cached highlighter format s (passages .start (source.splitOn '\n')).1
    ((∃ e, (tokenized first).1 = .error e ∧ (tokenized second).1 = .error e) ∨
        ∃ t t', (tokenized first).1 = .ok t ∧ (tokenized second).1 = .ok t' ∧ (of first second calls).Alike t t') ∧
      (tokenized first).2.store = (tokenized second).2.store := by
  intro tokenized calls
  have hlines : List.Forall₂ (of first second calls).Alike
      (passageTokens highlighter format ⟨.empty first, s⟩ (passages .start (source.splitOn '\n')).1).1
      (passageTokens highlighter format ⟨.empty second, s⟩ (passages .start (source.splitOn '\n')).1).1 :=
    passageTokens_alike (rfl : (Cache.empty first).salt = first) (rfl : (Cache.empty second).salt = second)
      fun _ hcall => hcall
  simp only [tokenized, tokenize_eq]
  constructor
  · cases (passages .start (source.splitOn '\n')).2 with
    | some e => exact .inl ⟨e, rfl, rfl⟩
    | none => exact .inr ⟨_, _, rfl, rfl, .join _ hlines⟩
  · rw [gathered_passageTokens, gathered_passageTokens, store_foldl_answer, store_foldl_answer]

theorem call?_codeRequests {s : Store} {code : Text} {hint : Hint} {r : Request}
    (hr : r ∈ codeRequests highlighter format s code hint) : r.call? = none := by
  unfold codeRequests at hr
  dsimp only at hr
  split at hr
  · split at hr
    · obtain rfl := List.mem_singleton.mp hr
      rfl
    · simp only [List.mem_cons, List.not_mem_nil, or_false] at hr
      obtain rfl | rfl | rfl := hr <;> rfl
  · obtain rfl := List.mem_singleton.mp hr
    rfl

/-- What is cached for passages holds no tokens. -/
theorem tokenless_cached (highlighter : Highlighter) (format : Format) (s : Store) (ps : List Passage) :
    Call.Tokenless (cached highlighter format s ps) := by
  induction ps generalizing s with
  | nil => exact List.forall_mem_nil _
  | cons p ps ih =>
      rw [cached, requests, List.filterMap_append]
      refine List.forall_mem_append.mpr ⟨fun call hcall => ?_, ih _⟩
      obtain ⟨r, hr, hrequest⟩ := List.mem_filterMap.mp hcall
      cases p with
      | code first body last hint isInListing =>
          obtain hr | hr := List.mem_append.mp hr
          · rw [call?_codeRequests hr] at hrequest
            cases hrequest
          · obtain rfl := List.mem_singleton.mp hr
            obtain rfl := Option.some.inj hrequest
            exact fun token => Draft.token_notMem_plain token _
      | _ =>
          obtain ⟨other, hother, rfl⟩ := List.mem_map.mp hr
          obtain rfl := Option.some.inj hrequest
          exact (Passage.isPlain_of_mem_calls hother).token_notMem_content

end Source

/-- What a script becomes when all spans are put back: what the first call for a span has cached. -/
def Script.restored (format : Format) (calls : List Call) (m : Script) : Text :=
  m.flatMap fun
    | .character c => [c]
    | .token call =>
      ((calls.find? fun first => first.cacheable = call.cacheable).map fun first =>
        Draft.text (first.rendered format)).getD []

namespace Salts

variable {first second salt : Text} {calls : List Call} {format : Format} {m : Script} {t t' : Text}

theorem first?_token (hdistinct : Call.Distinct salt calls) {call : Call} (hcall : call ∈ calls) :
    Call.first? salt calls (call.token salt) = calls.find? fun first => first.cacheable = call.cacheable := by
  refine List.find?_congr fun other hother => ?_
  rw [decide_eq_decide]
  exact ⟨hdistinct other hother call hcall, congrArg (Cacheable.token salt)⟩

theorem expands_restored (htokenless : Call.Tokenless calls) (hdistinct : Call.Distinct salt calls)
    (hm : (of first second calls).permits m) :
    (Call.meaning salt calls format).Expands (m.draft salt) (m.restored format calls) := by
  induction m with
  | nil => exact .nil
  | cons sign m ih =>
      have hrest := ih ((of first second calls).permits_of_part hm (List.suffix_cons sign m).isInfix)
      cases sign with
      | character c => exact .character c hrest
      | token call =>
          have hcall := hm call List.mem_cons_self
          obtain ⟨found, hfound⟩ := Option.isSome_iff_exists.mp (Call.isSome_first? salt hcall)
          have hmeaning : (Call.meaning salt calls format).draft? (call.token salt) = some (found.rendered format) := by
            rw [Call.draft?_meaning, hfound, Option.map_some]
          have hinside : (Call.meaning salt calls format).Expands (found.rendered format)
              (Draft.text (found.rendered format)) :=
            .text fun token htoken => htokenless found (Call.first?_eq_some hfound).1 token
              (Call.token_mem_rendered.mp htoken)
          have hall := Meaning.Expands.token hmeaning hinside hrest
          rw [first?_token hdistinct hcall] at hfound
          rw [Script.restored, List.flatMap_cons]
          dsimp only
          rw [hfound]
          exact hall

variable (first second calls format) in
/-- However both texts are written with tokens, the tokens act as markers in them until all spans are put back. -/
def Restorable (t t' : Text) : Prop :=
  (of first second calls).Always (fun m => ∀ salt ∈ [first, second],
    (Call.meaning salt calls format).Marks (calls.map (Call.token salt)) (m.draft salt)) t t'

theorem restorable_of_length_lt (h : t.length < 40) : Restorable first second calls format t t := by
  rintro m hm hfirst -
  obtain rfl : m = Script.plain t := hfirst ▸ Script.eq_plain_of_length_lt (hfirst.symm ▸ h)
  exact fun salt hsalt => marks_plain (Call.absentFrom_of_length_lt h) _ hsalt

/-- Texts that are written alike are restored to one text. -/
theorem restore_eq (htokenless : Call.Tokenless calls) (hdistinct : ∀ salt ∈ [first, second], Call.Distinct salt calls)
    (h : (of first second calls).Alike t t') (hrestorable : Restorable first second calls format t t') :
    (Cache.build first calls).restore t format = (Cache.build second calls).restore t' format := by
  obtain ⟨m, hm, rfl, rfl⟩ := h
  have hmarks := hrestorable m hm rfl rfl
  have hrestore (salt : Text) (hsalt : salt ∈ [first, second]) :
      (Cache.build salt calls).restore (Script.text salt m) format = m.restored format calls := by
    rw [← Script.text_draft]
    exact Cache.restore_of_tokenless htokenless (hdistinct salt hsalt) (hmarks salt hsalt)
      (expands_restored htokenless (hdistinct salt hsalt) hm)
  exact (hrestore first (by simp)).trans (hrestore second (by simp)).symm

end Salts

end Manuscript
