import Manuscript.Proofs.Files
import Manuscript.Proofs.Highlight.Runs
import Manuscript.Proofs.Json.RoundTrip
import Manuscript.Proofs.SortedMap
import Manuscript.Proofs.Source.Requests
import Manuscript.Proofs.Text.Utf8

/-!
Conversions that take turns with one file of highlighted code blocks.

Main statement: as long as the conversions render the code blocks that they have in common alike, each gives what it
gives without the file (`page_shared`).  A digest says nothing of the highlighter, so conversions in two themes do
not (`TwoThemes.page_shared_ne`).
-/

namespace Manuscript

namespace Highlight.Store

/-- What a highlighter makes of some code blocks: each block with its rendered form. -/
abbrev Renderings := List (Block × Text)

/-- No entry contradicts the renderings. -/
def Accords (entries : SortedMap Text Text) (rs : Renderings) : Prop :=
  ∀ p ∈ entries.toList, ∀ r ∈ rs, r.1.key = p.1 → p.2 = r.2

variable {rs : Renderings} {s s' : Store}

theorem accords_empty : Accords .empty rs := by
  intro p hp
  cases hp

theorem Accords.union {m₁ m₂ : SortedMap Text Text} (h₁ : Accords m₁ rs) (h₂ : Accords m₂ rs) :
    Accords (m₁.union m₂) rs := by
  intro p hp
  obtain hp | hp := SortedMap.mem_union hp
  · exact h₁ p hp
  · exact h₂ p hp

/-- The results come back from the text that is written for them. -/
theorem entriesOfText?_writtenEntries (entries : SortedMap Text Text) :
    entriesOfText? (writtenEntries entries) = some (.ofList entries.toList) := by
  have hmembers {f : Option Text × Json → Option (Text × Text)} (hf : ∀ p, f (Json.member p) = some p)
      (pairs : List (Text × Text)) : (pairs.map Json.member).mapM f = some pairs := by
    induction pairs with
    | nil => rfl
    | cons p pairs ih =>
        rw [List.map_cons, List.mapM_cons, ih, hf]
        rfl
  have hparsed : Json.parse? (writtenEntries entries) = some (.object (entries.toList.map Json.member)) :=
    Json.parse?_compact entries.toList
  rw [entriesOfText?, hparsed, Option.bind_some, entriesOfJson?, hmembers fun p => rfl]
  rfl

/-- A file with the written results holds no others. -/
theorem mem_of_mem_readEntries {tree tree' : FileTree} {path : Text} {entries : SortedMap Text Text}
    (hwrite : tree.writeDeep path (Utf8.encode (writtenEntries entries)) = .ok tree') {p : Text × Text}
    (hp : p ∈ (readEntries tree' path).toList) : p ∈ entries.toList := by
  unfold readEntries at hp
  split at hp
  · rename_i t hread
    have hdecode := FileTree.decode?_of_writeDeep hwrite hread
    rw [Utf8.decode?_encode] at hdecode
    cases hdecode
    rw [entriesOfText?_writtenEntries] at hp
    exact SortedMap.mem_ofList hp
  · cases hp

/-- A flush leaves a file behind that contradicts nothing that neither the store nor the file has contradicted. -/
theorem accords_flush {tree tree' : FileTree} {path : Text} (hpath : s.path = some path)
    (hfile : Accords (readEntries tree path) rs) (hs : Accords s.entries rs)
    (hflush : s.flush tree = .ok (s', tree')) : Accords (readEntries tree' path) rs := by
  unfold flush at hflush
  simp only [hpath] at hflush
  split at hflush
  · cases hflush
    exact hfile
  · obtain ⟨written, hwrite, hrest⟩ := exists_of_bind_eq_ok hflush
    cases hrest
    intro p hp
    exact hfile.union hs p (mem_of_mem_readEntries hwrite hp)

end Highlight.Store

namespace Source

open Highlight (Block Store)
open Highlight.Store (Accords Renderings)

variable {highlighter : Highlighter} {format : Format} {rs : Renderings}

/-- What is kept for a code block is what the highlighter makes of it, and only a block that is looked up is kept. -/
theorem exists_of_keep_mem_codeRequests {s : Store} {code : Text} {hint : Hint} {key rendered : Text}
    (h : .keep key rendered ∈ codeRequests highlighter format s code hint) :
    ∃ b ∈ codeBlock? format code hint, key = b.key ∧ rendered = b.rendered highlighter := by
  unfold codeRequests at h
  split at h
  · rename_i hdefault
    dsimp only at h
    split at h
    · cases List.mem_singleton.mp h
    · simp only [List.mem_cons, reduceCtorEq, Request.keep.injEq, List.not_mem_nil, or_false, false_or,
        Highlight.Options.eq_default hdefault] at h
      exact ⟨⟨code, hint.language, format⟩, by rw [codeBlock?, if_pos hdefault]; rfl, h⟩
  · cases List.mem_singleton.mp h

/-- What is kept is what the highlighter makes of a block that is looked up. -/
theorem exists_of_keep_mem_requests {s : Store} {ps : List Passage} {key rendered : Text}
    (h : .keep key rendered ∈ requests highlighter format s ps) :
    ∃ b ∈ ps.filterMap (Passage.block? format), key = b.key ∧ rendered = b.rendered highlighter := by
  induction ps generalizing s with
  | nil => cases h
  | cons p ps ih =>
      obtain hfirst | hlater := List.mem_append.mp h
      · cases p with
        | code first body last hint isInListing =>
            obtain hcode | hcache := List.mem_append.mp hfirst
            · obtain ⟨b, hb, heq⟩ := exists_of_keep_mem_codeRequests hcode
              exact ⟨b, List.mem_filterMap.mpr ⟨_, List.mem_cons_self, hb⟩, heq⟩
            · cases List.mem_singleton.mp hcache
        | _ =>
            obtain ⟨call, -, heq⟩ := List.mem_map.mp hfirst
            cases heq
      · obtain ⟨b, hb, heq⟩ := ih hlater
        obtain ⟨q, hq, hqb⟩ := List.mem_filterMap.mp hb
        exact ⟨b, List.mem_filterMap.mpr ⟨q, List.mem_cons_of_mem p hq, hqb⟩, heq⟩

theorem mem_entries_foldl_store {s : Store} {requests : List Request} {p : Text × Text}
    (h : p ∈ (requests.foldl Request.store s).entries.toList) :
    p ∈ s.entries.toList ∨ .keep p.1 p.2 ∈ requests := by
  induction requests generalizing s with
  | nil => exact .inl h
  | cons r rest ih =>
      obtain hmem | hmem := ih h
      · cases r with
        | keep key rendered =>
            obtain rfl | hmem := SortedMap.mem_insert hmem
            · exact .inr List.mem_cons_self
            · exact .inl hmem
        | cache call | lookUp key | highlight code language format options => exact .inl hmem
      · exact .inr (List.mem_cons_of_mem r hmem)

/-- A store that contradicts no rendering still contradicts none when a manuscript has been tokenized, provided the
highlighter's own renderings contradict none. -/
theorem accords_tokenize {g : Gathered} {source : Text} (hs : Accords g.store.entries rs)
    (hown : ∀ b ∈ blocks format source, ∀ r ∈ rs, r.1.key = b.key → b.rendered highlighter = r.2) :
    Accords (tokenize highlighter format g source).2.store.entries rs := by
  intro p hp r hr hkey
  rw [tokenize_eq] at hp
  simp only [gathered_passageTokens, store_foldl_answer] at hp
  obtain hmem | hmem := mem_entries_foldl_store hp
  · exact hs p hmem r hr hkey
  · obtain ⟨b, hb, hb_key, hrendered⟩ := exists_of_keep_mem_requests hmem
    rw [hrendered]
    exact hown b hb r hr (hkey.trans hb_key)

end Source

/-- What readers see of a converted manuscript: its text and its outline. -/
def Converted.page (r : Converted) : Text × Option Text := (r.body, r.outline)

namespace Conversion

open Highlight (Block Store)
open Highlight.Store (Accords Renderings)

/-- What the code blocks without options in a manuscript are rendered as. -/
def renderings (c : Conversion) (sources : Inclusion.Sources) (source : Text) : Renderings :=
  (c.blocks sources source).map fun b => (b, b.rendered c.highlighter)

/-- A conversion that is about to run. -/
structure Turn where
  conversion : Conversion
  /-- The files as the conversion finds them. -/
  sources : Inclusion.Sources
  source : Text

/-- The run with the results of highlighting in a file. -/
def Turn.shared (t : Turn) (path : Text) : Except ConversionError Converted × Workspace :=
  t.conversion.run ⟨t.sources, .openAt t.sources.tree path⟩ t.source

/-- What the run gives without the file. -/
def Turn.alone (t : Turn) : Except ConversionError Converted :=
  (t.conversion.run ⟨t.sources, .inMemory⟩ t.source).1

/-- Conversions in turn, each of which finds the files as the one before has left them. -/
def turns (path : Text) : Inclusion.Sources → List (Conversion × Text) → List Turn
  | _, [] => []
  | sources, (c, source) :: rest =>
    let t : Turn := ⟨c, sources, source⟩
    t :: turns path (t.shared path).2.sources rest

variable {c : Conversion} {w : Workspace} {rs : Renderings} {path : Text}

theorem sources_run (c : Conversion) (w : Workspace) (source : Text) :
    (c.run w source).2.sources = w.sources ∨
      ∃ store tree, (c.gather w source).2.store.flush w.sources.tree = .ok (store, tree) ∧
        (c.run w source).2.sources = { w.sources with tree } := by
  unfold run gather
  simp only
  generalize Source.tokenize c.highlighter c.format ⟨.empty c.salt, w.store⟩
    (Inclusion.expand w.sources.provider source).1 = g
  obtain ⟨tokens, gathered⟩ := g
  cases tokens with
  | error e => exact .inl rfl
  | ok tokens =>
      simp only
      cases c.finish gathered.cache tokens with
      | error e => exact .inl rfl
      | ok converted =>
          simp only [keepResults]
          cases hflush : gathered.store.flush w.sources.tree with
          | error e => exact .inl rfl
          | ok kept => exact .inr ⟨kept.1, kept.2, rfl, rfl⟩

/-- A run's page depends on what is gathered from the manuscript, not on whether the results are kept. -/
theorem page_run (c : Conversion) (w : Workspace) (source : Text) :
    (c.run w source).1.map Converted.page =
      (c.outcome [] (c.gather w source).1 (c.gather w source).2.cache).map Converted.page := by
  unfold run gather outcome
  simp only
  generalize Source.tokenize c.highlighter c.format ⟨.empty c.salt, w.store⟩
    (Inclusion.expand w.sources.provider source).1 = g
  obtain ⟨tokens, gathered⟩ := g
  cases tokens with
  | error e => rfl
  | ok tokens =>
      simp only
      cases c.finish gathered.cache tokens with
      | error e => rfl
      | ok converted => rfl

/-- Renderings of which any may stand for any other of the same block. -/
structure Agree (rs : Renderings) : Prop where
  /-- No two blocks share a digest. -/
  distinct : ∀ r ∈ rs, ∀ r' ∈ rs, r.1.key = r'.1.key → r.1 = r'.1
  /-- A block is rendered alike wherever it occurs. -/
  alike : ∀ r ∈ rs, ∀ r' ∈ rs, r.1 = r'.1 → r.2 = r'.2

theorem mem_renderings {sources : Inclusion.Sources} {source : Text} {b : Block} (hb : b ∈ c.blocks sources source) :
    (b, b.rendered c.highlighter) ∈ c.renderings sources source :=
  List.mem_map_of_mem (f := fun b => (b, b.rendered c.highlighter)) hb

/-- With a faithful store the same is gathered as with an empty one. -/
theorem gather_congr {source : Text} (hs : w.store.IsFaithful c.highlighter (· ∈ c.blocks w.sources source))
    (hdistinct : ∀ b ∈ c.blocks w.sources source, ∀ b' ∈ c.blocks w.sources source, b.key = b'.key → b = b') :
    (c.gather w source).1 = (c.gather ⟨w.sources, .inMemory⟩ source).1 ∧
      (c.gather w source).2.cache = (c.gather ⟨w.sources, .inMemory⟩ source).2.cache :=
  Source.tokenize_congr (.empty c.salt) hs Store.isFaithful_inMemory (fun _ hb => hb) hdistinct

theorem Turn.page_shared_eq {t : Turn} (hagree : Agree rs) (hown : t.conversion.renderings t.sources t.source ⊆ rs)
    (hfile : Accords (Store.readEntries t.sources.tree path) rs) :
    (t.shared path).1.map Converted.page = t.alone.map Converted.page := by
  let w : Workspace := ⟨t.sources, .openAt t.sources.tree path⟩
  have hfaithful : w.store.IsFaithful t.conversion.highlighter (· ∈ t.conversion.blocks t.sources t.source) := by
    intro b hb kept hget
    have hkept : (b.key, kept) ∈ (Store.readEntries t.sources.tree path).toList := SortedMap.mem_of_get? hget
    exact hfile (b.key, kept) hkept _ (hown (mem_renderings hb)) rfl
  have hdistinct : ∀ b ∈ t.conversion.blocks t.sources t.source,
      ∀ b' ∈ t.conversion.blocks t.sources t.source, b.key = b'.key → b = b' := by
    intro b hb b' hb' hkey
    have hsame := hagree.distinct _ (hown (mem_renderings hb)) _ (hown (mem_renderings hb')) hkey
    exact hsame
  obtain ⟨hresult, hcache⟩ := gather_congr (w := w) hfaithful hdistinct
  rw [shared, alone, page_run, page_run]
  simp only [hresult, hcache, w]

theorem Turn.accords_shared {t : Turn} (hagree : Agree rs) (hown : t.conversion.renderings t.sources t.source ⊆ rs)
    (hfile : Accords (Store.readEntries t.sources.tree path) rs) :
    Accords (Store.readEntries (t.shared path).2.sources.tree path) rs := by
  obtain hsame | ⟨store, tree, hflush, hsources⟩ :=
    t.conversion.sources_run ⟨t.sources, .openAt t.sources.tree path⟩ t.source
  · rw [shared, hsame]
    exact hfile
  · have hgathered : Accords
        (t.conversion.gather ⟨t.sources, .openAt t.sources.tree path⟩ t.source).2.store.entries rs := by
      refine Source.accords_tokenize hfile ?_
      intro b hb r hr hkey
      have hb_mem := hown (mem_renderings hb)
      exact hagree.alike _ hb_mem _ hr (hagree.distinct _ hb_mem _ hr hkey.symm)
    have hpath : (t.conversion.gather ⟨t.sources, .openAt t.sources.tree path⟩ t.source).2.store.path = some path :=
      (Source.grows_tokenize _ _ _ _).path_eq
    rw [shared, hsources]
    exact Store.accords_flush hpath hfile hgathered hflush

/-- Conversions that share a file of results, and that render alike what they have in common, give what they give
without the file. -/
theorem page_shared (path : Text) (sources : Inclusion.Sources) (cs : List (Conversion × Text))
    (hagree : Agree ((turns path sources cs).flatMap fun t => t.conversion.renderings t.sources t.source))
    (hfile : Accords (Store.readEntries sources.tree path)
      ((turns path sources cs).flatMap fun t => t.conversion.renderings t.sources t.source)) :
    ∀ t ∈ turns path sources cs, (t.shared path).1.map Converted.page = t.alone.map Converted.page := by
  have hown : ∀ t ∈ turns path sources cs, t.conversion.renderings t.sources t.source ⊆
      (turns path sources cs).flatMap fun t => t.conversion.renderings t.sources t.source :=
    fun t ht r hr => List.mem_flatMap.mpr ⟨t, ht, hr⟩
  -- All renderings stay the same along the turns, while the file grows.
  generalize (turns path sources cs).flatMap (fun t => t.conversion.renderings t.sources t.source) = rs at *
  induction cs generalizing sources with
  | nil => intro t ht; cases ht
  | cons next cs ih =>
      obtain ⟨hfirst, hlater⟩ := List.forall_mem_cons.mp hown
      refine List.forall_mem_cons.mpr ⟨Turn.page_shared_eq hagree hfirst hfile, ?_⟩
      exact ih _ (Turn.accords_shared hagree hfirst hfile) hlater

end Conversion

namespace TwoThemes

open Conversion

/-- A manuscript with nothing but a code block without a language. -/
def listing (code : Text) : Text :=
  Text.unlines ["<document>", "\\begin\x7bcode\x7d", code, "\\end\x7bcode\x7d", "</document>"]

def block (code : Text) : Highlight.Block := ⟨code, "text", .html⟩

/-- The conversion to HTML in a theme. -/
def conversion (theme : Theme) : Conversion :=
  ⟨.html, false, .numbered, false, .default, Highlight.tinted theme, Document.ofXmlText, "s"⟩

def sources : Inclusion.Sources := ⟨.empty, [], []⟩

def path : Text := "cache.json"

/-- A light conversion, a dark one of another manuscript, and the light one again. -/
def apart : List (Conversion × Text) :=
  [(conversion .light, listing "x"), (conversion .dark, listing "y"), (conversion .light, listing "x")]

/-- A manuscript in light, then the same in dark. -/
def together : List (Conversion × Text) := [(conversion .light, listing "x"), (conversion .dark, listing "x")]

theorem renderings_listing (theme : Theme) (sources : Inclusion.Sources) {code : Text} (hcode : code = "x" ∨ code = "y") :
    (conversion theme).renderings sources (listing code) =
      [(block code, (block code).rendered (Highlight.tinted theme))] := by
  have hexpand : (Inclusion.expand sources.provider (listing code)).1 = listing code := by
    rcases hcode with rfl | rfl <;> rfl
  have hblocks : Source.blocks .html (listing code) = [block code] := by
    rcases hcode with rfl | rfl <;> decide +kernel
  simp only [renderings, blocks, conversion, hexpand, hblocks, List.map_cons, List.map_nil]

theorem renderings_apart : (turns path sources apart).flatMap (fun t => t.conversion.renderings t.sources t.source) =
    [(block "x", (block "x").rendered (Highlight.tinted .light)), (block "y", (block "y").rendered (Highlight.tinted .dark)),
      (block "x", (block "x").rendered (Highlight.tinted .light))] := by
  simp only [apart, turns, List.flatMap_cons, List.flatMap_nil, renderings_listing _ _ (.inl rfl),
    renderings_listing _ _ (.inr rfl), List.cons_append, List.nil_append]

/-- The file holds both themes and each manuscript keeps its own. -/
theorem page_shared_apart :
    Agree ((turns path sources apart).flatMap fun t => t.conversion.renderings t.sources t.source) ∧
      ∀ t ∈ turns path sources apart, (t.shared path).1.map Converted.page = t.alone.map Converted.page := by
  have hagree : Agree ((turns path sources apart).flatMap fun t => t.conversion.renderings t.sources t.source) := by
    rw [renderings_apart]
    constructor <;> decide +kernel
  exact ⟨hagree, page_shared path sources apart hagree Highlight.Store.accords_empty⟩

/-- Although all digests are distinct, the dark conversion shows the colours of the light one. -/
theorem page_shared_ne :
    (∀ r ∈ (turns path sources together).flatMap fun t => t.conversion.renderings t.sources t.source,
      ∀ r' ∈ (turns path sources together).flatMap fun t => t.conversion.renderings t.sources t.source,
        r.1.key = r'.1.key → r.1 = r'.1) ∧
      ¬ ∀ t ∈ turns path sources together, (t.shared path).1.map Converted.page = t.alone.map Converted.page := by
  constructor
  · decide +kernel
  · intro h
    have hdark := h _ (List.mem_cons_of_mem _ List.mem_cons_self)
    have hpages := congrArg Except.toOption hdark
    revert hpages
    decide +kernel

end TwoThemes

end Manuscript
