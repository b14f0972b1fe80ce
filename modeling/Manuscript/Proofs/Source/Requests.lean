import Manuscript.Proofs.Highlight.Faithful

/-!
All that tokenizing asks for, in order: what is cached, what is looked up in the store, what the highlighter is asked
to render and what is kept of that.

Main statements: what is gathered in the end is what the requests bring about (`gathered_passageTokens`), and what is
written depends on the salt alone (`passageTokens_of_salt`).
-/

namespace Manuscript.Source

open Highlight (Block Store)

/-- A request that is made while tokens are written. -/
inductive Request where
  | cache (call : Call)
  | lookUp (key : Text)
  | highlight (code language : Text) (format : Format) (options : Highlight.Options)
  | keep (key rendered : Text)

/-- The store after a request. -/
def Request.store (s : Store) : Request → Store
  | .keep key rendered => s.insert key rendered
  | .cache _ | .lookUp _ | .highlight _ _ _ _ => s

/-- What is gathered after a request. -/
def Gathered.answer (g : Gathered) : Request → Gathered
  | .cache call => g.perform [call]
  | .keep key rendered => { g with store := g.store.insert key rendered }
  | .lookUp _ | .highlight _ _ _ _ => g

/-- The requests for the rendered form of a code block.  Only one without options is looked up. -/
def codeRequests (highlighter : Highlighter) (format : Format) (s : Store) (code : Text) (hint : Hint) :
    List Request :=
  let ask := Request.highlight code hint.language format hint.options
  if hint.options.isDefault then
    let key := Store.key code hint.language format
    match s.get? key with
    | some _ => [.lookUp key]
    | none => [.lookUp key, ask, .keep key (highlighter code hint.language format hint.options)]
  else [ask]

/-- The requests for a passage. -/
def Passage.requests (highlighter : Highlighter) (format : Format) (s : Store) : Passage → List Request
  | .code _ body _ requested isInListing =>
    let code := Text.unlines body
    let rendered := (renderCode highlighter format s code requested).1
    codeRequests highlighter format s code requested ++
      [.cache (.code code (Draft.plain rendered) ⟨requested.language, format, isInListing, requested.options⟩)]
  | p => p.calls.map .cache

/-- The requests for some passages. -/
def requests (highlighter : Highlighter) (format : Format) (s : Store) : List Passage → List Request
  | [] => []
  | p :: rest =>
    let first := p.requests highlighter format s
    first ++ requests highlighter format (first.foldl Request.store s) rest

/-- The call to the cache that a request is, if it is one. -/
def Request.call? : Request → Option Call
  | .cache call => some call
  | .lookUp _ | .highlight _ _ _ _ | .keep _ _ => none

/-- The calls to the cache for some passages. -/
def cached (highlighter : Highlighter) (format : Format) (s : Store) (ps : List Passage) : List Call :=
  (requests highlighter format s ps).filterMap Request.call?

/-- The store after the requests for some passages. -/
def storeAfter (highlighter : Highlighter) (format : Format) (s : Store) (ps : List Passage) : Store :=
  (requests highlighter format s ps).foldl Request.store s

variable {highlighter : Highlighter} {format : Format}

theorem store_foldl_answer (g : Gathered) (rs : List Request) :
    (rs.foldl Gathered.answer g).store = rs.foldl Request.store g.store := by
  induction rs generalizing g with
  | nil => rfl
  | cons r rs ih =>
      rw [List.foldl_cons, ih, List.foldl_cons]
      cases r <;> rfl

theorem cache_foldl_answer (g : Gathered) (rs : List Request) :
    (rs.foldl Gathered.answer g).cache = g.cache.perform (rs.filterMap Request.call?) := by
  induction rs generalizing g with
  | nil => rfl
  | cons r rs ih =>
      rw [List.foldl_cons, ih]
      cases r <;> rfl

theorem foldl_answer_cache (g : Gathered) (calls : List Call) :
    (calls.map Request.cache).foldl Gathered.answer g = g.perform calls := by
  induction calls generalizing g with
  | nil => rfl
  | cons call calls ih =>
      rw [List.map_cons, List.foldl_cons, ih]
      exact (Gathered.perform_append g [call] calls).symm

theorem requests_append (s : Store) (ps qs : List Passage) :
    requests highlighter format s (ps ++ qs) =
      requests highlighter format s ps ++ requests highlighter format (storeAfter highlighter format s ps) qs := by
  induction ps generalizing s with
  | nil => rfl
  | cons p ps ih => simp only [List.cons_append, requests, ih, storeAfter, List.foldl_append, List.append_assoc]

theorem foldl_answer_codeRequests (g : Gathered) (code : Text) (hint : Hint) :
    (codeRequests highlighter format g.store code hint).foldl Gathered.answer g =
      { g with store := (renderCode highlighter format g.store code hint).2 } := by
  unfold codeRequests renderCode
  split
  · cases hget : g.store.get? (Store.key code hint.language format) <;> simp only [hget] <;> rfl
  · rfl

/-- What is gathered from a passage is what its requests bring about. -/
theorem Passage.gathered_tokens (g : Gathered) (p : Passage) :
    (p.tokens highlighter format g).2 = (p.requests highlighter format g.store).foldl Gathered.answer g := by
  cases p with
  | code first body last hint isInListing =>
      simp only [tokens, codeTokens, requests, List.foldl_append, foldl_answer_codeRequests, List.foldl_cons,
        List.foldl_nil, Gathered.answer, Gathered.perform, Cache.perform, Call.perform, Draft.text_plain]
  | _ =>
      rw [tokens_eq highlighter format g rfl]
      exact (foldl_answer_cache g _).symm

theorem gathered_passageTokens (g : Gathered) (ps : List Passage) :
    (passageTokens highlighter format g ps).2 =
      (requests highlighter format g.store ps).foldl Gathered.answer g := by
  induction ps generalizing g with
  | nil => rfl
  | cons p ps ih =>
      simp only [passageTokens, requests, List.foldl_append, ih, Passage.gathered_tokens, store_foldl_answer]

/-- The cache in the end is what the calls build up. -/
theorem cache_tokenize (salt : Text) (s : Store) (source : Text) :
    (tokenize highlighter format ⟨.empty salt, s⟩ source).2.cache =
      .build salt (cached highlighter format s (passages .start (source.splitOn '\n')).1) := by
  rw [tokenize_eq]
  simp only [gathered_passageTokens, cache_foldl_answer]
  rfl

/-- The opaque spans of a passage that is no code block are cached. -/
theorem mem_cached {s : Store} {ps : List Passage} {p : Passage} (hp : p ∈ ps) (hcode : p.isCode = false)
    {call : Call} (hcall : call ∈ p.calls) : call ∈ cached highlighter format s ps := by
  induction ps generalizing s with
  | nil => cases hp
  | cons q qs ih =>
      rw [cached, requests, List.filterMap_append]
      obtain rfl | hmem := List.mem_cons.mp hp
      · refine List.mem_append_left _ (List.mem_filterMap.mpr ⟨.cache call, ?_, rfl⟩)
        have hrequests : p.requests highlighter format s = p.calls.map .cache := by
          cases p with
          | code first body last hint isInListing => cases hcode
          | _ => rfl
        rw [hrequests]
        exact List.mem_map_of_mem hcall
      · exact List.mem_append_right _ (ih hmem)

theorem salt_answer (g : Gathered) (rs : List Request) : (rs.foldl Gathered.answer g).cache.salt = g.cache.salt := by
  rw [cache_foldl_answer]
  exact Gathered.salt_perform g.cache _

theorem Passage.salt_tokens (g : Gathered) (p : Passage) :
    (p.tokens highlighter format g).2.cache.salt = g.cache.salt := by
  rw [p.gathered_tokens]
  exact salt_answer g _

/-- What is written for a passage depends on the salt alone. -/
theorem Passage.tokens_of_salt {g g' : Gathered} (h : g.cache.salt = g'.cache.salt) (p : Passage) :
    (p.tokens highlighter format g).1 = (p.tokens highlighter format g').1 := by
  cases p with
  | code first body last hint isInListing => simp only [tokens, codeTokens, Cache.addCode, h]
  | _ => rw [tokens_eq highlighter format g rfl, tokens_eq highlighter format g' rfl, h]

theorem passageTokens_of_salt {g g' : Gathered} (h : g.cache.salt = g'.cache.salt) (ps : List Passage) :
    (passageTokens highlighter format g ps).1 = (passageTokens highlighter format g' ps).1 := by
  induction ps generalizing g g' with
  | nil => rfl
  | cons p ps ih =>
      have hafter : (p.tokens highlighter format g).2.cache.salt = (p.tokens highlighter format g').2.cache.salt := by
        rw [p.salt_tokens, p.salt_tokens, h]
      simp only [passageTokens, p.tokens_of_salt h, ih hafter]

theorem passageTokens_append (g : Gathered) (ps qs : List Passage) :
    (passageTokens highlighter format g (ps ++ qs)).1 =
      (passageTokens highlighter format g ps).1 ++ (passageTokens highlighter format g qs).1 := by
  induction ps generalizing g with
  | nil => rfl
  | cons p ps ih =>
      simp only [List.cons_append, passageTokens, ih, List.append_assoc]
      rw [passageTokens_of_salt (p.salt_tokens g) qs]

end Manuscript.Source
