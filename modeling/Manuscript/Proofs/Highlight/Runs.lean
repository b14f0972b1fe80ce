import Manuscript.Conversion
import Manuscript.Proofs.Highlight.Faithful

/-!
Runs of one conversion after another, all with the store in memory that the runs before have left.

Main statement: each run gives the result that it gives with an empty store (`isTransparent_and_runs_eq`).
-/

namespace Manuscript

open Highlight (Block Store)

/-- The passages of a manuscript, its inclusions among them. -/
def Workspace.passages (w : Workspace) (source : Text) : List Source.Passage :=
  (Source.passages .start ((Inclusion.expand w.sources.provider source).1.splitOn '\n')).1

namespace Conversion

/-- What changes from one run of a conversion to the next. -/
structure Job where
  salt : Text
  parser : StructuralParser
  source : Text

/-- The conversion as it is for a job. -/
def on (c : Conversion) (job : Job) : Conversion := { c with salt := job.salt, parser := job.parser }

/-- The results of some jobs, each in the workspace that the jobs before have left, and the workspace after them. -/
def runs (c : Conversion) (w : Workspace) : List Job → List (Except ConversionError Converted) × Workspace
  | [] => ([], w)
  | job :: rest =>
    let (result, w) := (c.on job).run w job.source
    let (results, w) := c.runs w rest
    (result :: results, w)

/-- The code blocks without options in a manuscript, its inclusions among them. -/
def blocks (c : Conversion) (sources : Inclusion.Sources) (source : Text) : List Block :=
  Source.blocks c.format (Inclusion.expand sources.provider source).1

/-- What is gathered from a manuscript with a store, and the error that ends it. -/
def gather (c : Conversion) (w : Workspace) (source : Text) : Except Source.Error Text × Source.Gathered :=
  Source.tokenize c.highlighter c.format ⟨.empty c.salt, w.store⟩ (Inclusion.expand w.sources.provider source).1

/-- The result of a run that keeps the results of highlighting without a warning. -/
def outcome (c : Conversion) (failures : List Warning) (tokens : Except Source.Error Text) (cache : Cache) :
    Except ConversionError Converted :=
  match tokens with
  | .error e => .error (.source e)
  | .ok tokens =>
    match c.finish cache tokens with
    | .error e => .error (.parser e)
    | .ok converted => .ok { converted with warnings := failures ++ converted.warnings ++ [] }

theorem keepResults_eq {w : Workspace} (hpath : w.store.path = none) : keepResults w = ([], w) := by
  unfold keepResults Store.flush
  rw [hpath]

/-- A run with a store in memory leaves the files as they are, whether it fails or not. -/
theorem run_eq {w : Workspace} (hpath : w.store.path = none) (c : Conversion) (source : Text) :
    c.run w source =
      (c.outcome (Inclusion.expand w.sources.provider source).2 (c.gather w source).1 (c.gather w source).2.cache,
        { w with store := (c.gather w source).2.store }) := by
  have hnone : (c.gather w source).2.store.path = none :=
    (Source.grows_tokenize c.highlighter c.format ⟨.empty c.salt, w.store⟩ _).path_eq.trans hpath
  unfold gather at hnone ⊢
  unfold run outcome
  simp only
  generalize Source.tokenize c.highlighter c.format ⟨.empty c.salt, w.store⟩
    (Inclusion.expand w.sources.provider source).1 = g at hnone ⊢
  obtain ⟨tokens, gathered⟩ := g
  cases tokens with
  | error e => rfl
  | ok tokens =>
      simp only
      cases c.finish gathered.cache tokens with
      | error e => rfl
      | ok converted => simp only [keepResults_eq (w := { w with store := gathered.store }) hnone]

variable {known : Block → Prop} {c : Conversion} {w : Workspace}

/-- A faithful store in memory changes nothing of what a run gives, and it stays so. -/
theorem run_congr (hdistinct : ∀ b b', known b → known b' → b.key = b'.key → b = b') (hpath : w.store.path = none)
    (hs : w.store.IsFaithful c.highlighter known) {source : Text} (hknown : ∀ b ∈ c.blocks w.sources source, known b) :
    (c.run w source).1 = (c.run ⟨w.sources, .inMemory⟩ source).1 ∧
      (c.run w source).2.sources = w.sources ∧ (c.run w source).2.store.path = none ∧
      (c.run w source).2.store.IsFaithful c.highlighter known := by
  have hdistinct := fun b hb b' => hdistinct b b' (hknown b hb)
  have hgrows := Source.grows_tokenize c.highlighter c.format ⟨.empty c.salt, w.store⟩
    (Inclusion.expand w.sources.provider source).1
  obtain ⟨hresult, hcache⟩ :=
    Source.tokenize_congr (.empty c.salt) hs Store.isFaithful_inMemory hknown hdistinct
  rw [run_eq hpath, run_eq (w := ⟨w.sources, .inMemory⟩) rfl]
  refine ⟨?_, rfl, hgrows.path_eq.trans hpath, hs.of_grows hgrows hdistinct⟩
  simp only [gather, hresult, hcache]

/-- Whatever the runs before have left in the store, each run gives what it gives with an empty store. -/
theorem runs_eq_map (hdistinct : ∀ b b', known b → known b' → b.key = b'.key → b = b')
    (hpath : w.store.path = none) (hs : w.store.IsFaithful c.highlighter known) {jobs : List Job}
    (hknown : ∀ job ∈ jobs, ∀ b ∈ c.blocks w.sources job.source, known b) :
    (c.runs w jobs).1 = jobs.map fun job => ((c.on job).run ⟨w.sources, .inMemory⟩ job.source).1 := by
  induction jobs generalizing w with
  | nil => rfl
  | cons job jobs ih =>
      obtain ⟨hfirst, hrest⟩ := List.forall_mem_cons.mp hknown
      obtain ⟨hresult, hsources, hpath, hs⟩ := run_congr (c := c.on job) hdistinct hpath hs hfirst
      have hlater := ih hpath hs (hsources ▸ hrest)
      rw [hsources] at hlater
      rw [runs, List.map_cons]
      simp only [hresult, hlater]

end Conversion

/-- What comes of tokenizing a manuscript with a store of highlighted code blocks. -/
structure Source.IsTransparent (highlighter : Highlighter) (known : Block → Prop) (format : Format) (cache : Cache)
    (store : Store) (source : Text) : Prop where
  /-- The text or the error is the one with an empty store. -/
  result_eq : (tokenize highlighter format ⟨cache, store⟩ source).1 =
    (tokenize highlighter format ⟨cache, .inMemory⟩ source).1
  cache_eq : (tokenize highlighter format ⟨cache, store⟩ source).2.cache =
    (tokenize highlighter format ⟨cache, .inMemory⟩ source).2.cache
  isFaithful : (tokenize highlighter format ⟨cache, store⟩ source).2.store.IsFaithful highlighter known
  /-- The store keeps what it has, and only code blocks without options are added. -/
  grows : Store.Grows highlighter (blocks format source) store
    (tokenize highlighter format ⟨cache, store⟩ source).2.store

/-- As long as no two code blocks share a digest, a faithful store cannot be told from an empty one, neither by a
manuscript nor by any sequence of runs. -/
theorem Highlight.isTransparent_and_runs_eq (highlighter : Highlighter) {known : Block → Prop}
    (hdistinct : ∀ b b', known b → known b' → b.key = b'.key → b = b') :
    (∀ (format : Format) (cache : Cache) (store : Store) (source : Text), store.IsFaithful highlighter known →
      (∀ b ∈ Source.blocks format source, known b) →
      Source.IsTransparent highlighter known format cache store source) ∧
    (∀ (c : Conversion) (w : Workspace) (jobs : List Conversion.Job), c.highlighter = highlighter →
      w.store.path = none → w.store.IsFaithful highlighter known →
      (∀ job ∈ jobs, ∀ b ∈ c.blocks w.sources job.source, known b) →
      (c.runs w jobs).1 = jobs.map fun job => ((c.on job).run ⟨w.sources, .inMemory⟩ job.source).1) := by
  constructor
  · intro format cache store source hs hknown
    have hdistinct := fun b hb b' => hdistinct b b' (hknown b hb)
    have hgrows := Source.grows_tokenize highlighter format ⟨cache, store⟩ source
    obtain ⟨hresult, hcache⟩ := Source.tokenize_congr cache hs Store.isFaithful_inMemory hknown hdistinct
    exact ⟨hresult, hcache, hs.of_grows hgrows hdistinct, hgrows⟩
  · rintro c w jobs rfl hpath hs hknown
    exact Conversion.runs_eq_map hdistinct hpath hs hknown

namespace TwoListings

/-- Two code blocks, of which the second has options. -/
def source : Text :=
  Text.unlines ["%= lang: ruby", "\\begin\x7bcode\x7d", "puts 1", "\\end\x7bcode\x7d",
    "%= lang: ruby, options: \"linenos\": true", "\\begin\x7bcode\x7d", "puts 2", "\\end\x7bcode\x7d"]

/-- The same with a marker that ends nothing. -/
def faulty : Text := Text.unlines [source, "\\end\x7bcode\x7d"]

def first : Block := ⟨"puts 1", "ruby", .markup⟩

def second : Block := ⟨"puts 2", "ruby", .markup⟩

/-- A store that knows the second block from another manuscript. -/
def store : Store := Store.inMemory.insert second.key (second.rendered Highlight.plain)

def conversion : Conversion :=
  ⟨.markup, false, .numbered, false, .default, Highlight.plain, Document.ofXmlText, "s"⟩

def sources : Inclusion.Sources := ⟨.empty, [], []⟩

def jobs : List Conversion.Job :=
  [⟨"s", Document.ofXmlText, source⟩, ⟨"t", Document.ofXmlText, faulty⟩, ⟨"u", Document.ofXmlText, source⟩]

theorem distinct : ∀ b b', b ∈ [first, second] → b' ∈ [first, second] → b.key = b'.key → b = b' := by
  have hall : ∀ b ∈ [first, second], ∀ b' ∈ [first, second], b.key = b'.key → b = b' := by decide +kernel
  exact fun b b' hb hb' => hall b hb b' hb'

theorem isFaithful : store.IsFaithful Highlight.plain (· ∈ [first, second]) := by
  have hgrows : Store.Grows Highlight.plain [second] .inMemory store := Store.grows_insert rfl
  refine Store.isFaithful_inMemory.of_grows hgrows fun b hb b' hb' => ?_
  exact distinct b b' (List.mem_cons_of_mem first hb) hb'

/-- The second run fails, and the third gives what it would give by itself. -/
theorem runs_eq : Source.IsTransparent Highlight.plain (· ∈ [first, second]) .markup (.empty "s") store faulty ∧
    (conversion.runs ⟨sources, store⟩ jobs).1 =
      jobs.map fun job => ((conversion.on job).run ⟨sources, .inMemory⟩ job.source).1 := by
  obtain ⟨htransparent, hruns⟩ := Highlight.isTransparent_and_runs_eq Highlight.plain distinct
  refine ⟨htransparent .markup _ store faulty isFaithful ?_, ?_⟩
  · decide +kernel
  · refine hruns conversion ⟨sources, store⟩ jobs rfl rfl isFaithful ?_
    simp only [jobs, List.forall_mem_cons]
    decide +kernel

end TwoListings

end Manuscript
