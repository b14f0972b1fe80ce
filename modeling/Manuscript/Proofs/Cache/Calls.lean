import Manuscript.Cache
import Manuscript.Proofs.Digest
import Manuscript.Proofs.Draft
import Manuscript.Proofs.SortedMap

/-!
Caches as they come about: by a sequence of calls, each of which caches a span or gives a label a token.  What
is cached may hold tokens that earlier calls returned, so it is given as a draft.

Main statements: a token leads to the entry of the first call with that token (`find?_build`, `label?_build`),
and a span is rendered between two fixed texts, character by character and token by token (`text_rendered`).
-/

namespace Manuscript

namespace SpanKind

/-- How the characters of a span are written in a format. -/
def rewriting : SpanKind → Format → Char → Text
  | .literal, .html | .math, .html => Html.textCharacter
  | .url, .html => Html.attributeCharacter
  | _, _ => fun c => [c]

/-- What stands before and after the characters of a span in a format. -/
def surroundings (kind : SpanKind) (context : Option Text) : Format → Text × Text
  | .markup => if kind = .rawHtml then ("%= ", []) else ([], [])
  | .html =>
    let context := context.getD "inline"
    if kind ≠ .math then ([], [])
    else if context = "inline" then ("\\(", "\\)")
    else if context = "display" then ("\\[", "\\]")
    else ("\\begin\x7b" ++ context ++ "\x7d\n", "\n\\end\x7b" ++ context ++ "\x7d")

theorem rewriting_of_mem_hexDigits (kind : SpanKind) (format : Format) :
    ∀ c ∈ hexDigits, kind.rewriting format c = [c] := by
  intro c hc
  cases kind <;> cases format <;>
    first
      | rfl
      | exact textCharacter_of_mem_hexDigits c hc
      | exact attributeCharacter_of_mem_hexDigits c hc

/-- A span as it stands in a format, with the tokens in it left alone. -/
def render (kind : SpanKind) (context : Option Text) (format : Format) (content : Draft) : Draft :=
  Draft.plain (kind.surroundings context format).1 ++ content.mapCharacters (kind.rewriting format) ++
    Draft.plain (kind.surroundings context format).2

end SpanKind

theorem Entry.render_eq (e : Entry) (format : Format) :
    e.render format = (e.kind.surroundings e.context format).1 ++
      e.content.flatMap (e.kind.rewriting format) ++ (e.kind.surroundings e.context format).2 := by
  obtain ⟨token, content, kind, context⟩ := e
  cases format with
  | markup => cases kind <;> simp [Entry.render, SpanKind.surroundings, SpanKind.rewriting]
  | html =>
      cases kind with
      | math =>
          unfold Entry.render SpanKind.surroundings
          simp only [ne_eq, not_true_eq_false, if_false]
          generalize context.getD _ = context
          by_cases hinline : context = "inline"
          · rw [if_pos hinline, if_pos hinline]
            rfl
          · rw [if_neg hinline, if_neg hinline]
            by_cases hdisplay : context = "display"
            · rw [if_pos hdisplay, if_pos hdisplay]
              rfl
            · rw [if_neg hdisplay, if_neg hdisplay]
              delta Entry.environment
              simp only [List.append_assoc]
              rfl
      | _ => simp [Entry.render, SpanKind.surroundings, SpanKind.rewriting, Html.escapeText,
          Html.escapeAttribute]

/-- Tokens are no markup, so the rendered span reads as the rendered text. -/
theorem SpanKind.text_render {content : Draft}
    (htokens : ∀ token, .token token ∈ content → ∃ parts, token = digest parts) (kind : SpanKind)
    (context : Option Text) (format : Format) (token : Text) :
    Draft.text (kind.render context format content) =
      (Entry.mk token (Draft.text content) kind context).render format := by
  have hrewriting : Draft.text (content.mapCharacters (kind.rewriting format)) =
      (Draft.text content).flatMap (kind.rewriting format) := by
    apply Draft.text_mapCharacters
    intro token htoken
    obtain ⟨parts, rfl⟩ := htokens token htoken
    exact flatMap_digest (kind.rewriting_of_mem_hexDigits format) parts
  rw [Entry.render_eq]
  simp only [SpanKind.render, Draft.text_append, Draft.text_plain, hrewriting]

theorem SpanKind.text_render_markup (kind : SpanKind) (context : Option Text) (t : Text) :
    Draft.text (kind.render context .markup (Draft.plain t)) = if kind = .rawHtml then "%= " ++ t else t := by
  rw [text_render (by simp) kind context .markup [], Draft.text_plain]
  cases kind <;> rfl

/-- A call that caches a span or gives a label a token. -/
inductive Call where
  | span (kind : SpanKind) (content : Draft)
  | delimited (kind : SpanKind) (context : Text) (content : Draft)
  | code (source : Text) (highlighted : Draft) (key : CodeKey)
  | label (name : Text)

namespace Call

/-- What the token of the call is made of. -/
def cacheable : Call → Cacheable
  | .span kind content => .span kind content.text
  | .delimited kind context content => .delimited kind context content.text
  | .code source _ key => .code source key
  | .label name => .label name

/-- The token that the call returns. -/
def token (salt : Text) (call : Call) : Text := call.cacheable.token salt

/-- The entry of the call, unless it is about a label. -/
def cached? (salt : Text) (call : Call) : Option Entry :=
  match call with
  | .span kind content => some ⟨call.token salt, content.text, kind, none⟩
  | .delimited kind context content => some ⟨call.token salt, content.text, kind, some context⟩
  | .code _ highlighted key => some ⟨call.token salt, highlighted.text, .code, some key.language⟩
  | .label _ => none

/-- The label of the call, if it is about one. -/
def name? : Call → Option Text
  | .label name => some name
  | _ => none

/-- What the call caches; a label holds no tokens. -/
def content : Call → Draft
  | .span _ content | .delimited _ _ content | .code _ content _ => content
  | .label _ => []

/-- The draft that stands for the token of the call in a format. -/
def rendered (format : Format) : Call → Draft
  | .span kind content => kind.render none format content
  | .delimited kind context content => kind.render (some context) format content
  | .code _ highlighted key => SpanKind.code.render (some key.language) format highlighted
  | .label name => Draft.plain (Cache.renderLabel format name)

/-- The token that the call returns and the cache after it. -/
def perform (c : Cache) : Call → Text × Cache
  | .span kind content => c.add kind content.text
  | .delimited kind context content => c.addDelimited kind context content.text
  | .code source highlighted key => c.addCode source highlighted.text key
  | .label name => c.addLabel name

theorem token_ne_nil (salt : Text) (call : Call) : call.token salt ≠ [] :=
  digest_ne_nil _

theorem token_of_cached? {salt : Text} {call : Call} {e : Entry} (h : call.cached? salt = some e) :
    e.token = call.token salt := by
  cases call <;> simp only [cached?, Option.some.injEq, reduceCtorEq] at h <;> subst h <;> rfl

/-- Rendering changes no token, so what is rendered holds the tokens of what was cached. -/
theorem token_mem_rendered {format : Format} {call : Call} {token : Text} :
    .token token ∈ call.rendered format ↔ .token token ∈ call.content := by
  cases call <;> simp [rendered, content, SpanKind.render, Draft.token_mem_mapCharacters]

/-- The rendered draft of a call is the rendered form of its entry. -/
theorem text_rendered {salt : Text} {call : Call} {e : Entry} (h : call.cached? salt = some e)
    (htokens : ∀ token, .token token ∈ call.content → ∃ parts, token = digest parts) (format : Format) :
    (call.rendered format).text = e.render format := by
  cases call with
  | label name => simp [cached?] at h
  | _ =>
      obtain rfl := Option.some.inj h
      exact SpanKind.text_render htokens _ _ format _

end Call

/-- Different things that some calls cache have different tokens. -/
def Call.Distinct (salt : Text) (calls : List Call) : Prop :=
  ∀ a ∈ calls, ∀ b ∈ calls, a.token salt = b.token salt → a.cacheable = b.cacheable

theorem Call.distinct_of_nodup {salt : Text} {calls : List Call} (h : (calls.map (Call.token salt)).Nodup) :
    Call.Distinct salt calls := by
  intro a ha b hb htoken
  rw [List.inj_on_of_nodup_map h ha hb htoken]

/-- The first call that returned a token. -/
def Call.first? (salt : Text) (calls : List Call) (token : Text) : Option Call :=
  calls.find? fun call => call.token salt = token

namespace Cache

/-- The cache after some calls. -/
def perform (c : Cache) (calls : List Call) : Cache := calls.foldl (fun c call => (call.perform c).2) c

/-- The cache that some calls build up. -/
def build (salt : Text) (calls : List Call) : Cache := (empty salt).perform calls

theorem build_append (salt : Text) (calls more : List Call) :
    build salt (calls ++ more) = (build salt calls).perform more := by
  simp [build, perform]

theorem find?_insert (c : Cache) (e : Entry) (token : Text) :
    (c.insert e).find? token = (c.find? token).or (if e.token = token then some e else none) := by
  unfold insert
  by_cases hfound : (c.find? e.token).isSome
  · rw [if_pos hfound]
    by_cases htoken : e.token = token
    · subst htoken
      rw [Option.or_of_isSome hfound]
    · rw [if_neg htoken, Option.or_none]
  · rw [if_neg hfound, find?, List.find?_append]
    by_cases htoken : e.token = token <;> simp [htoken, find?]

theorem salt_insert (c : Cache) (e : Entry) : (c.insert e).salt = c.salt := by
  unfold insert
  split <;> rfl

theorem labels_insert (c : Cache) (e : Entry) : (c.insert e).labels = c.labels := by
  unfold insert
  split <;> rfl

theorem find?_perform_call (c : Cache) (call : Call) (token : Text) :
    (call.perform c).2.find? token =
      (c.find? token).or (if call.token c.salt = token then call.cached? c.salt else none) := by
  cases call with
  | label name =>
      have hentries : ((Call.label name).perform c).2.entries = c.entries := by
        simp only [Call.perform, addLabel]
        split <;> rfl
      simp [find?, hentries, Call.cached?]
  | _ => exact find?_insert c _ token

theorem label?_perform_call (c : Cache) (call : Call) (token : Text) :
    (call.perform c).2.label? token =
      (c.label? token).or (if call.token c.salt = token then call.name? else none) := by
  cases call with
  | label name =>
      simp only [Call.perform, addLabel, Call.name?]
      change _ = (c.label? token).or (if (Cacheable.label name).token c.salt = token then _ else none)
      by_cases hfound : (c.label? ((Cacheable.label name).token c.salt)).isSome
      · rw [if_pos hfound]
        by_cases htoken : (Cacheable.label name).token c.salt = token
        · subst htoken
          rw [Option.or_of_isSome hfound]
        · rw [if_neg htoken, Option.or_none]
      · rw [if_neg hfound, label?, List.find?_append, label?]
        by_cases htoken : (Cacheable.label name).token c.salt = token <;>
          cases c.labels.find? (fun l => l.1 = token) <;> simp [htoken]
  | _ => simp [Call.perform, add, addDelimited, addCode, label?, labels_insert, Call.name?]

theorem salt_perform_call (c : Cache) (call : Call) : (call.perform c).2.salt = c.salt := by
  cases call with
  | label name =>
      simp only [Call.perform, addLabel]
      split <;> rfl
  | _ => exact salt_insert c _

theorem find?_perform (c : Cache) (calls : List Call) (token : Text) :
    (c.perform calls).find? token = (c.find? token).or
      (calls.findSome? fun call => if call.token c.salt = token then call.cached? c.salt else none) := by
  induction calls generalizing c with
  | nil => simp [perform]
  | cons call calls ih =>
      have hrest := ih (call.perform c).2
      rw [salt_perform_call, find?_perform_call, Option.or_assoc] at hrest
      rw [List.findSome?_cons]
      refine hrest.trans (congrArg _ ?_)
      cases (if call.token c.salt = token then call.cached? c.salt else none) <;> rfl

theorem label?_perform (c : Cache) (calls : List Call) (token : Text) :
    (c.perform calls).label? token = (c.label? token).or
      (calls.findSome? fun call => if call.token c.salt = token then call.name? else none) := by
  induction calls generalizing c with
  | nil => simp [perform]
  | cons call calls ih =>
      have hrest := ih (call.perform c).2
      rw [salt_perform_call, label?_perform_call, Option.or_assoc] at hrest
      rw [List.findSome?_cons]
      refine hrest.trans (congrArg _ ?_)
      cases (if call.token c.salt = token then call.name? else none) <;> rfl

/-- What calls with one token give is what the first of them gives, as long as it depends on what they cache
whether they give anything. -/
theorem findSome?_eq_bind_first? {β : Type} {give : Call → Option β}
    (hgive : ∀ {a b}, a.cacheable = b.cacheable → give a = none → give b = none) {salt : Text}
    {calls : List Call} (hdistinct : Call.Distinct salt calls) (token : Text) :
    (calls.findSome? fun call => if call.token salt = token then give call else none) =
      (Call.first? salt calls token).bind give := by
  induction calls with
  | nil => rfl
  | cons call calls ih =>
      have hrest := ih fun a ha b hb =>
        hdistinct a (List.mem_cons_of_mem call ha) b (List.mem_cons_of_mem call hb)
      by_cases htoken : call.token salt = token
      · cases hcall : give call with
        | some b => simp [Call.first?, htoken, hcall]
        | none =>
            have hnone : ∀ later ∈ calls, (if later.token salt = token then give later else none) = none := by
              intro later hlater
              by_cases hsame : later.token salt = token
              · rw [if_pos hsame]
                have hcacheable := hdistinct call List.mem_cons_self later
                  (List.mem_cons_of_mem call hlater) (htoken.trans hsame.symm)
                exact hgive hcacheable hcall
              · rw [if_neg hsame]
            simpa [Call.first?, htoken, hcall] using hnone
      · simpa [Call.first?, htoken] using hrest

theorem find?_build {salt : Text} {calls : List Call} (hdistinct : Call.Distinct salt calls)
    (token : Text) :
    (build salt calls).find? token = (Call.first? salt calls token).bind (·.cached? salt) := by
  rw [build, find?_perform, ← findSome?_eq_bind_first? _ hdistinct]
  · rfl
  · intro a b hcacheable ha
    cases a <;> cases b <;> simp_all [Call.cacheable, Call.cached?]

theorem label?_build {salt : Text} {calls : List Call} (hdistinct : Call.Distinct salt calls)
    (token : Text) :
    (build salt calls).label? token = (Call.first? salt calls token).bind Call.name? := by
  rw [build, label?_perform, ← findSome?_eq_bind_first? _ hdistinct]
  · rfl
  · intro a b hcacheable ha
    cases a <;> cases b <;> simp_all [Call.cacheable, Call.name?]

/-- No token has two entries, and none has two labels. -/
structure Unrepeated (c : Cache) : Prop where
  entries : (c.entries.map Entry.token).Nodup
  labels : (c.labels.map Prod.fst).Nodup

theorem Unrepeated.find?_of_mem {c : Cache} (hc : c.Unrepeated) {e : Entry} (he : e ∈ c.entries) :
    c.find? e.token = some e :=
  find?_key_of_mem hc.entries he

theorem Unrepeated.label?_of_mem {c : Cache} (hc : c.Unrepeated) {l : Text × Text} (hl : l ∈ c.labels) :
    c.label? l.1 = some l.2 := by
  rw [label?, find?_key_of_mem hc.labels hl]
  rfl

theorem Unrepeated.insert {c : Cache} (hc : c.Unrepeated) (e : Entry) : (c.insert e).Unrepeated := by
  unfold Cache.insert
  split
  · exact hc
  · rename_i hfound
    have hfresh : e.token ∉ c.entries.map Entry.token := by
      intro hmem
      obtain ⟨old, hold, htoken⟩ := List.mem_map.mp hmem
      exact hfound (htoken ▸ Option.isSome_of_eq_some (hc.find?_of_mem hold))
    refine ⟨?_, hc.labels⟩
    rw [List.map_append]
    refine List.nodup_append.mpr ⟨hc.entries, by simp, ?_⟩
    intro old hold new hnew heq
    obtain rfl := by simpa using hnew
    exact hfresh (heq ▸ hold)

theorem Unrepeated.addLabel {c : Cache} (hc : c.Unrepeated) (name : Text) :
    (c.addLabel name).2.Unrepeated := by
  simp only [Cache.addLabel]
  split
  · exact hc
  · rename_i hfound
    refine ⟨hc.entries, ?_⟩
    rw [List.map_append]
    refine List.nodup_append.mpr ⟨hc.labels, by simp, ?_⟩
    intro old hold new hnew heq
    obtain ⟨l, hl, rfl⟩ := List.mem_map.mp hold
    obtain rfl := by simpa using hnew
    exact hfound (heq ▸ Option.isSome_of_eq_some (hc.label?_of_mem hl))

theorem Unrepeated.perform {c : Cache} (hc : c.Unrepeated) (calls : List Call) :
    (c.perform calls).Unrepeated := by
  induction calls generalizing c with
  | nil => exact hc
  | cons call calls ih =>
      refine ih ?_
      cases call with
      | label name => exact hc.addLabel name
      | _ => exact hc.insert _

theorem unrepeated_empty (salt : Text) : (empty salt).Unrepeated :=
  ⟨List.nodup_nil, List.nodup_nil⟩

theorem unrepeated_build (salt : Text) (calls : List Call) : (build salt calls).Unrepeated :=
  (unrepeated_empty salt).perform calls

theorem ne_nil_of_mem_labels_perform {c : Cache} (hc : ∀ l ∈ c.labels, l.1 ≠ []) (calls : List Call) :
    ∀ l ∈ (c.perform calls).labels, l.1 ≠ [] := by
  induction calls generalizing c with
  | nil => exact hc
  | cons call calls ih =>
      refine ih ?_
      cases call with
      | label name =>
          simp only [Call.perform, addLabel]
          split
          · exact hc
          · intro l hl
            obtain hl | hl := List.mem_append.mp hl
            · exact hc l hl
            · obtain rfl := List.mem_singleton.mp hl
              exact Call.token_ne_nil c.salt (.label name)
      | _ =>
          simpa only [Call.perform, add, addDelimited, addCode, labels_insert] using hc

/-- No label has the empty text as its token. -/
theorem ne_nil_of_mem_labels_build (salt : Text) (calls : List Call) : ∀ l ∈ (build salt calls).labels, l.1 ≠ [] :=
  ne_nil_of_mem_labels_perform (fun _ hl => absurd hl List.not_mem_nil) calls

/-- The entries of a cache are those of the first calls with their tokens. -/
theorem mem_entries_build {salt : Text} {calls : List Call} (hdistinct : Call.Distinct salt calls)
    {e : Entry} :
    e ∈ (build salt calls).entries ↔
      ∃ call, Call.first? salt calls e.token = some call ∧ call.cached? salt = some e := by
  rw [← Option.bind_eq_some_iff, ← find?_build hdistinct]
  exact ⟨(unrepeated_build salt calls).find?_of_mem, List.mem_of_find?_eq_some⟩

/-- The labels of a cache are those of the first calls with their tokens. -/
theorem mem_labels_build {salt : Text} {calls : List Call} (hdistinct : Call.Distinct salt calls)
    {token name : Text} :
    (token, name) ∈ (build salt calls).labels ↔
      ∃ call, Call.first? salt calls token = some call ∧ call.name? = some name := by
  rw [← Option.bind_eq_some_iff, ← label?_build hdistinct]
  constructor
  · exact (unrepeated_build salt calls).label?_of_mem
  · intro hlabel
    obtain ⟨⟨token', name'⟩, hfind, rfl⟩ := Option.map_eq_some_iff.mp hlabel
    obtain rfl : token' = token := by simpa using List.find?_some hfind
    exact List.mem_of_find?_eq_some hfind

end Cache

end Manuscript
