import Manuscript.Proofs.Highlight.Runs
import Manuscript.Proofs.References
import Manuscript.Proofs.Source.Names
import Manuscript.Proofs.Source.Requests

/-!
What becomes of the name of a label between the manuscript and the table of labels.  Attributes and the targets of
references keep the tokens of what is beyond ASCII, while the labels of equations and the targets of links are read back
from their tokens.

Main statement: a reference leads to the node with the label if both go by the name in one form, and otherwise exactly
when the name is ASCII (`isFollowed`).
-/

namespace Manuscript

/-- The reference or link leads to the node: by its id, and a reference by its number, too. -/
def Kind.LeadsTo (n : Node) : Kind → Prop
  | .ref _ _ target _ => ∃ id number, n.attrs.id = some id ∧ n.number = some number ∧ target = some ⟨id, number⟩
  | .link href => ∃ id, n.attrs.id = some id ∧ href = '#' :: id
  | _ => False

namespace References

variable {s : Scope} {kind : Kind} {label : Text}

/-- The label that a reference or link is looked up by. -/
def lookedUp? (s : Scope) : Kind → Option Text
  | .ref label _ _ _ => some label
  | .link href => Text.after? "#" (s.cache.readable href)
  | _ => none

theorem leadsTo_of_target? (hlabel : lookedUp? s kind = some label) {n : Node} {number word : Text}
    (hid : n.attrs.id = some label) (hnumber : n.number = some number)
    (hfound : s.labels.target? label = some ⟨number, label, word⟩) :
    (resolveKind s kind).1.LeadsTo n ∧ (resolveKind s kind).2 = none := by
  cases kind with
  | ref label' style target phrase =>
      obtain rfl := Option.some.inj hlabel
      simp only [resolveKind, hfound]
      exact ⟨⟨label', number, hid, hnumber, rfl⟩, trivial⟩
  | link href =>
      rw [lookedUp?] at hlabel
      simp only [resolveKind, hlabel, hfound]
      exact ⟨⟨label, hid, rfl⟩, trivial⟩
  | _ => cases hlabel

theorem isSome_warning_of_target? (hlabel : lookedUp? s kind = some label) (hnone : s.labels.target? label = none) :
    (resolveKind s kind).2.isSome = true := by
  cases kind with
  | ref label' style target phrase =>
      obtain rfl := Option.some.inj hlabel
      simp only [resolveKind, hnone]
      rfl
  | link href =>
      rw [lookedUp?] at hlabel
      simp only [resolveKind, hlabel, hnone]
      rfl
  | _ => cases hlabel

end References

namespace Conversion

/-- The calls to the cache for a manuscript. -/
def calls (c : Conversion) (w : Workspace) (source : Text) : List Call :=
  Source.cached c.highlighter c.format w.store (w.passages source)

/-- What the references in the document that a manuscript becomes are resolved against. -/
def scope (c : Conversion) (w : Workspace) (source : Text) (d : Document) : References.Scope :=
  d.scope c.words (c.gather w source).2.cache c.isArticle

/-- A document that is parsed is converted, and the warnings about its references are reported. -/
theorem exists_warnings_run {c : Conversion} {w : Workspace} {source tokens : Text} {d : Document}
    (hhtml : c.format = .html) (htokens : (c.gather w source).1 = .ok tokens) (hparse : c.parser tokens = .ok d) :
    ∃ converted before after, (c.run w source).1 = .ok converted ∧
      converted.warnings = before ++
        ((Forest.preorder d.children).filterMap fun m => (References.resolveKind (c.scope w source d) m.kind).2) ++
          after := by
  have hundefined := d.snd_finished c.words (c.gather w source).2.cache c.isArticle
  simp only [References.undefined?_eq, scope, ← hundefined]
  unfold run gather at *
  simp only at htokens ⊢
  generalize Source.tokenize c.highlighter c.format ⟨.empty c.salt, w.store⟩
    (Inclusion.expand w.sources.provider source).1 = g at htokens ⊢
  obtain ⟨result, gathered⟩ := g
  obtain rfl : result = .ok tokens := htokens
  simp only [finish, hhtml, hparse, Except.map]
  refine ⟨_, (Inclusion.expand w.sources.provider source).2 ++ (d.number gathered.cache c.isArticle).2.2,
    (keepResults { w with store := gathered.store }).1, rfl, ?_⟩
  have hwritten : (c.write gathered.cache d).warnings =
      (d.number gathered.cache c.isArticle).2.2 ++ (d.finished c.words gathered.cache c.isArticle).2 := rfl
  rw [hwritten, List.append_assoc _ _ (d.finished c.words gathered.cache c.isArticle).2]

theorem cache_gather (c : Conversion) (w : Workspace) (source : Text) :
    (c.gather w source).2.cache = .build c.salt (c.calls w source) :=
  Source.cache_tokenize c.salt w.store _

end Conversion

namespace LabelName

open Source

/-- The forms in which the names of labels are compared. -/
inductive Form where
  /-- With tokens for what is beyond ASCII. -/
  | tokenized
  /-- As a reader sees it. -/
  | readable

/-- A name in a form. -/
def Form.text (salt name : Text) : Form → Text
  | .tokenized => Source.tokenized salt name
  | .readable => name

/-- The two forms of a name are the same just when it is ASCII. -/
theorem Form.text_eq_iff {salt name : Text} (h : IsBare name) {form form' : Form} :
    form.text salt name = form'.text salt name ↔ form = form' ∨ ∀ ch ∈ name, isAscii ch = true := by
  have hself : Source.tokenized salt name = name ↔ ∀ ch ∈ name, isAscii ch = true := tokenized_eq_self_iff h
  cases form <;> cases form'
  · exact iff_of_true rfl (.inl rfl)
  · simpa [text] using hself
  · rw [eq_comm]
    simpa [text] using hself
  · exact iff_of_true rfl (.inl rfl)

/-- How the node at a position comes by the label of a name, and in which form. -/
inductive Defines (ps : List Passage) (cache : Cache) (name : Text) (p : Position) : Form → Prop
  | given (hlabel : p.node.attrs.label = some (Source.tokenized cache.salt name)) :
      Defines ps cache name p .tokenized
  | lifted {environment first last : Text} {body : List Text} (hmath : .math environment first body last ∈ ps)
      (hname : name ∈ body.filterMap loneLabel?) (hkind : p.node.kind = .float .equation)
      (houtermost : p.equations = 0) (hunlabelled : p.node.attrs.label = none)
      (hcarried : ∃ t ∈ Node.textsIn p.node.children, Text.contains ((Call.label name).token cache.salt) t = true)
      (honly : ∀ t ∈ Node.textsIn p.node.children, ∀ l ∈ cache.labels, Text.contains l.1 t = true → l.2 = name) :
      Defines ps cache name p .readable

/-- What refers to the label of a name, and in which form it is looked up. -/
inductive Refers (ps : List Passage) (cache : Cache) (name : Text) : Kind → Form → Prop
  | target (style : RefStyle) (target : Option Target) (phrase : Option Text) :
      Refers ps cache name (.ref (Source.tokenized cache.salt name) style target phrase) .tokenized
  | command {line : Text} {command : LinkCommand} (hline : .prose line ∈ ps)
      (hlink : .link command ('#' :: name) ∈ items line) :
      Refers ps cache name (.link ((Call.span .url (Draft.plain ('#' :: name))).token cache.salt)) .readable
  | href {line : Text} (hline : .prose line ∈ ps) (hname : items ('#' :: name) <:+: items line) :
      Refers ps cache name (.link (Source.tokenized cache.salt ('#' :: name))) .readable

/-- Tokens can be told from what is written of a name in links. -/
def IsClear (cache : Cache) (name : Text) : Prop :=
  ∀ d ∈ [[.token ((Call.span .url (Draft.plain ('#' :: name))).token cache.salt)],
    (items ('#' :: name)).flatMap (Item.draft cache.salt)], cache.reading.Marks cache.tokens d

section Build

variable {salt : Text} {calls : List Call} {ps : List Passage} {name : Text}

theorem salt_build (salt : Text) (calls : List Call) : (Cache.build salt calls).salt = salt :=
  Gathered.salt_perform (.empty salt) calls

theorem expands_span (hdistinct : Call.Distinct salt calls) {kind : SpanKind} (hkind : kind = .unicode ∨ kind = .url)
    {t : Text} (hcall : .span kind (Draft.plain t) ∈ calls) :
    (Cache.build salt calls).reading.Expands [.token ((Call.span kind (Draft.plain t)).token salt)] t := by
  have hfound := Cache.find?_of_isPlain hdistinct hcall ⟨t, rfl⟩
  have hreadable : (Entry.mk ((Call.span kind (Draft.plain t)).token salt) (Draft.plain t).text kind none).readable = t := by
    rw [Draft.text_plain]
    rcases hkind with rfl | rfl <;> rfl
  have hmeaning := Cache.draft?_of_find? hfound
  rw [hreadable] at hmeaning
  simpa using Meaning.Expands.token hmeaning (.plain t) .nil

theorem expands_items (hdistinct : Call.Distinct salt calls) {t : Text} (ht : IsBare t)
    (hcalls : ∀ i ∈ items t, ∀ call, i.call? = some call → call ∈ calls) :
    (Cache.build salt calls).reading.Expands ((items t).flatMap (Item.draft salt)) t := by
  have hitems : ∀ is : List Item, (∀ i ∈ is, i ∈ items t) →
      (Cache.build salt calls).reading.Expands (is.flatMap (Item.draft salt)) (is.flatMap Item.source) := by
    intro is his
    induction is with
    | nil => exact .nil
    | cons i is ih =>
        obtain ⟨hi, hrest⟩ := List.forall_mem_cons.mp his
        refine Meaning.Expands.append ?_ (ih hrest)
        cases isBare_of_mem_items ht hi with
        | character hascii => exact .plain _
        | beyondAscii hfirst others => exact expands_span hdistinct (.inl rfl) (hcalls _ hi _ rfl)
  have h := hitems (items t) fun i hi => hi
  rwa [flatMap_source_items] at h

/-- Numbering enters the label in the form in which it is defined. -/
theorem Defines.label_eq (hdistinct : Call.Distinct salt calls)
    (hcalls : ∀ p ∈ ps, p.isCode = false → ∀ call ∈ p.calls, call ∈ calls) {p : Position} {form : Form}
    (h : Defines ps (.build salt calls) name p form) :
    (p.attrs (.build salt calls)).label = some (form.text salt name) := by
  cases h with
  | given hlabel =>
      rw [salt_build] at hlabel
      unfold Position.attrs
      split
      · rw [hlabel]
        rfl
      · exact hlabel
  | @lifted environment first last body hmath hname hkind houtermost hunlabelled hcarried honly =>
      have hcall : .label name ∈ calls := by
        refine hcalls _ hmath rfl _ (List.mem_append_left _ ?_)
        exact List.mem_map_of_mem hname
      have hmem := Cache.mem_labels_of_mem hdistinct hcall
      have hne : ∀ l ∈ (Cache.build salt calls).labels, l.1 ≠ [] := by
        rintro ⟨token, label⟩ hl
        obtain ⟨call, hfirst, -⟩ := (Cache.mem_labels_build hdistinct).mp hl
        obtain ⟨-, rfl⟩ := Call.first?_eq_some hfirst
        exact call.token_ne_nil salt
      obtain ⟨t, ht, hcontains⟩ := hcarried
      rw [salt_build] at hcontains
      have hlifted := Numbering.liftedLabel?_eq_some hne ⟨t, ht, _, hmem, hcontains⟩ honly
      unfold Position.attrs
      simp only [hkind, hunlabelled, houtermost, hlifted]
      rfl

/-- A reference is looked up in its form. -/
theorem Refers.lookedUp?_eq (hdistinct : Call.Distinct salt calls)
    (hcalls : ∀ p ∈ ps, p.isCode = false → ∀ call ∈ p.calls, call ∈ calls) (hname : IsBare name)
    (hclear : IsClear (.build salt calls) name) {s : References.Scope} (hcache : s.cache = .build salt calls)
    {kind : Kind} {form : Form} (h : Refers ps (.build salt calls) name kind form) :
    References.lookedUp? s kind = some (form.text salt name) := by
  obtain ⟨hcommand, hhref, -⟩ := List.forall_mem_cons.mp hclear |>.imp_right List.forall_mem_cons.mp
  have hafter : Text.after? "#" ('#' :: name) = some name := Text.after?_append ['#'] name
  cases h with
  | target style target phrase =>
      rw [salt_build]
      rfl
  | @command line command hline hlink =>
      have hcall : .span .url (Draft.plain ('#' :: name)) ∈ calls :=
        hcalls _ hline rfl _ (List.mem_filterMap.mpr ⟨_, hlink, rfl⟩)
      rw [salt_build] at hcommand ⊢
      have hreadable := Cache.readable_build hdistinct hcommand (expands_span hdistinct (.inr rfl) hcall)
      rw [Draft.text_cons, Draft.text_nil, List.append_nil] at hreadable
      rw [References.lookedUp?, hcache, Part.text] at *
      rw [hreadable]
      exact hafter
  | @href line hline hitems =>
      have hbare : IsBare ('#' :: name) := hname.cons (by decide)
      have hexpands : (Cache.build salt calls).reading.Expands ((items ('#' :: name)).flatMap (Item.draft salt))
          ('#' :: name) := by
        refine expands_items hdistinct hbare fun i hi call hcall => hcalls _ hline rfl _ ?_
        exact List.mem_filterMap.mpr ⟨i, hitems.subset hi, hcall⟩
      rw [salt_build] at hhref ⊢
      have hreadable := Cache.readable_build hdistinct hhref hexpands
      rw [References.lookedUp?, hcache, tokenized_eq, hreadable]
      exact hafter

end Build

/-- What becomes of the references to a label that a node of the document has, where the document is what a manuscript
is parsed as. -/
structure IsFollowed (c : Conversion) (w : Workspace) (source : Text) (d : Document) (name : Text) (n : Node)
    (form : Form) : Prop where
  /-- The run reports the references that are undefined. -/
  reported : ∃ converted before after, (c.run w source).1 = .ok converted ∧
    converted.warnings = before ++
      ((Forest.preorder d.children).filterMap fun m => (References.resolveKind (c.scope w source d) m.kind).2) ++ after
  /-- A reference leads to the node, without a warning, if it is looked up in the form that the label is defined in; in
  the other form, just when the name is ASCII. -/
  leadsTo_iff : ∀ m ∈ Forest.preorder d.children, ∀ form',
    Refers (w.passages source) (c.gather w source).2.cache name m.kind form' →
      ((References.resolveKind (c.scope w source d) m.kind).1.LeadsTo n ∧
          (References.resolveKind (c.scope w source d) m.kind).2 = none ↔
        form' = form ∨ ∀ ch ∈ name, isAscii ch = true)

/-- Where one counted node alone has the label of a name, references to the name lead to it if they go by the form that
the label is defined in, or if the name is ASCII, and otherwise they are reported as undefined. -/
theorem isFollowed {c : Conversion} {w : Workspace} {source tokens name : Text} {d : Document} {i : Nat} {p : Position}
    {n : Node} {series : Series} {form : Form} (hhtml : c.format = .html)
    (htokens : (c.gather w source).1 = .ok tokens) (hparse : c.parser tokens = .ok d)
    (hname : ∀ ch ∈ name, isNameCharacter ch = true) (hdistinct : Call.Distinct c.salt (c.calls w source))
    (hclear : IsClear (c.gather w source).2.cache name) (hp : d.positions[i]? = some p)
    (hn : (Forest.preorder (d.number (c.gather w source).2.cache c.isArticle).1.children)[i]? = some n)
    (hseries : p.series? c.isArticle = some series)
    (hdefines : Defines (w.passages source) (c.gather w source).2.cache name p form)
    (honly : ∀ (j : Nat) (m : Node) (form' : Form),
      (Forest.preorder (d.number (c.gather w source).2.cache c.isArticle).1.children)[j]? = some m →
        m.defined? = some (form'.text c.salt name) → j = i) :
    IsFollowed c w source d name n form := by
  have hbare := isBare_of_isNameCharacter hname
  have hcalls : ∀ p ∈ w.passages source, p.isCode = false → ∀ call ∈ p.calls, call ∈ c.calls w source :=
    fun p hp hcode call hcall => mem_cached hp hcode hcall
  have hlabel : (p.attrs (c.gather w source).2.cache).label = some (form.text c.salt name) := by
    rw [Conversion.cache_gather] at hdefines ⊢
    exact hdefines.label_eq hdistinct hcalls
  obtain ⟨hdefined, hid, -⟩ := Document.defined?_of_series hp hn hseries hlabel
  obtain ⟨number, hnumber, hfound⟩ :=
    Document.target?_of_only hp hn hseries hlabel fun j m hm hdefined => honly j m form hm hdefined
  constructor
  case reported => exact Conversion.exists_warnings_run hhtml htokens hparse
  case leadsTo_iff =>
    intro m _ form' hrefers
    have hlookedUp : References.lookedUp? (c.scope w source d) m.kind = some (form'.text c.salt name) := by
      have hcache : (c.scope w source d).cache = .build c.salt (c.calls w source) := c.cache_gather w source
      rw [Conversion.cache_gather] at hclear hrefers
      exact hrefers.lookedUp?_eq hdistinct hcalls hbare hclear hcache
    have hsame : form'.text c.salt name = form.text c.salt name ↔ form' = form ∨ ∀ ch ∈ name, isAscii ch = true :=
      Form.text_eq_iff hbare
    rw [← hsame]
    constructor
    · rintro ⟨-, hquiet⟩
      by_contra hne
      -- Nobody else defines the name in either form, so in this one it is not known.
      have hnone : (c.scope w source d).labels.target? (form'.text c.salt name) = none := by
        refine Document.target?_eq_none fun other hother hsame => hne ?_
        obtain ⟨j, hj⟩ := List.mem_iff_getElem?.mp hother
        obtain rfl := honly j other form' hj hsame
        obtain rfl := Option.some.inj (hn.symm.trans hj)
        exact Option.some.inj (hsame.symm.trans hdefined)
      have hwarning := References.isSome_warning_of_target? hlookedUp hnone
      rw [hquiet] at hwarning
      cases hwarning
    · intro heq
      rw [heq] at hlookedUp
      exact References.leadsTo_of_target? hlookedUp hid hnumber hfound

end LabelName

namespace AccentedLabel

open Source LabelName

def name : Text := "café"

def conversion : Conversion :=
  ⟨.html, false, .numbered, false, .default, Highlight.plain, Document.ofXmlText, "s"⟩

def workspace : Workspace := ⟨⟨.empty, [], []⟩, .inMemory⟩

/-- The last line of both manuscripts. -/
def link : Text := "<link href='#" ++ name ++ "'/></document>"

/-- An equation with the label inside it. -/
def inside : Text :=
  Text.unlines ["<document><equation>", "\\begin\x7bequation\x7d", "x", "\\label\x7b" ++ name ++ "\x7d",
    "\\end\x7bequation\x7d", "</equation>", link]

/-- A chapter with the label as an attribute. -/
def outside : Text := Text.unlines ["<document><chapter label='" ++ name ++ "'/>", link]

def cache (source : Text) : Cache := (conversion.gather workspace source).2.cache

def tokens (source : Text) : Text := (conversion.gather workspace source).1.toOption.getD []

def parsed (source : Text) : Document := (Document.parse? (tokens source)).getD ⟨[]⟩

/-- The nodes of the numbered document, in order. -/
def nodes (source : Text) : List Node :=
  Forest.preorder ((parsed source).number (cache source) conversion.isArticle).1.children

/-- The position of what has the label, which comes first in both documents. -/
def position (source : Text) : Position := (parsed source).positions[0]?.getD ⟨.new .document [], [], false⟩

def node (source : Text) : Node := (nodes source)[0]?.getD (.new .document [])

theorem isNameCharacter_of_mem_name : ∀ ch ∈ name, isNameCharacter ch = true := by
  have hall : name.all isNameCharacter = true := by decide +kernel
  exact List.all_eq_true.mp hall

theorem getElem?_zero_eq {α : Type} {l : List α} (h : l[0]?.isSome = true) (a : α) : l[0]? = some (l[0]?.getD a) := by
  obtain ⟨b, hb⟩ := Option.isSome_iff_exists.mp h
  rw [hb, Option.getD_some]

theorem gather_eq {source : Text} (h : (conversion.gather workspace source).1.toOption.isSome = true) :
    (conversion.gather workspace source).1 = .ok (tokens source) := by
  unfold tokens
  revert h
  cases (conversion.gather workspace source).1 with
  | error e => exact nofun
  | ok t => exact fun _ => rfl

theorem parser_eq {source : Text} (h : (Document.parse? (tokens source)).isSome = true) :
    conversion.parser (tokens source) = .ok (parsed source) := by
  obtain ⟨d, hd⟩ := Option.isSome_iff_exists.mp h
  simp only [conversion, Document.ofXmlText, parsed, hd, Option.getD_some]

/-- All that can come of the two drafts of the link's target. -/
def drafts : List Draft :=
  [[.token ((Call.span .url (Draft.plain ('#' :: name))).token (cache inside).salt)],
    (items ('#' :: name)).flatMap (Item.draft (cache inside).salt), Draft.plain ('#' :: name)]

theorem isClear_inside : IsClear (cache inside) name := by
  have hfacts : (∀ token ∈ (cache inside).tokens, token ≠ []) ∧
      (∀ e ∈ drafts, ∀ token ∈ (cache inside).tokens, (cache inside).reading.unfold e token ∈ drafts) ∧
      ∀ e ∈ drafts, ∀ token ∈ (cache inside).tokens, ∀ place < (Draft.text e).length,
        Text.startsWith token ((Draft.text e).drop place) → place ∈ Draft.places token 0 e := by
    decide +kernel
  obtain ⟨hne, hunfold, hplaces⟩ := hfacts
  intro d hd
  exact Meaning.marks_of_forall_mem drafts (fun _ htoken => Cache.draft?_of_notMem_tokens htoken) hne hunfold hplaces
    (List.mem_append_left [Draft.plain ('#' :: name)] hd)

theorem defines_inside : Defines (workspace.passages inside) (cache inside) name (position inside) .readable := by
  let body : List Text := ["x", "\\label\x7b" ++ name ++ "\x7d"]
  have hpassage : .math "equation" "\\begin\x7bequation\x7d" body "\\end\x7bequation\x7d" ∈
      workspace.passages inside ∧ name ∈ body.filterMap loneLabel? := by
    decide +kernel
  have hposition : (position inside).node.kind = .float .equation ∧ (position inside).equations = 0 ∧
      (position inside).node.attrs.label = none ∧
      (∃ t ∈ Node.textsIn (position inside).node.children,
        Text.contains ((Call.label name).token (cache inside).salt) t = true) ∧
      ∀ t ∈ Node.textsIn (position inside).node.children, ∀ l ∈ (cache inside).labels,
        Text.contains l.1 t = true → l.2 = name := by
    decide +kernel
  obtain ⟨hkind, houtermost, hunlabelled, hcarried, honly⟩ := hposition
  exact .lifted hpassage.1 hpassage.2 hkind houtermost hunlabelled hcarried honly

/-- The link goes by what a reader sees, as the label of the equation does, and leads to the equation. -/
theorem isFollowed_inside :
    IsFollowed conversion workspace inside (parsed inside) name (node inside) .readable := by
  have hfacts : (conversion.gather workspace inside).1.toOption.isSome = true ∧
      (Document.parse? (tokens inside)).isSome = true ∧
      ((conversion.calls workspace inside).map (Call.token conversion.salt)).Nodup ∧
      (parsed inside).positions[0]?.isSome = true ∧ (nodes inside)[0]?.isSome = true ∧
      (position inside).series? conversion.isArticle = some (.float .equation) ∧
      ∀ m ∈ (nodes inside).tail, m.defined? = none := by
    decide +kernel
  obtain ⟨hgather, hparse, hnodup, hposition, hnode, hseries, hothers⟩ := hfacts
  refine isFollowed rfl (gather_eq hgather) (parser_eq hparse) isNameCharacter_of_mem_name
    (Call.distinct_of_nodup hnodup) isClear_inside (getElem?_zero_eq hposition _) (getElem?_zero_eq hnode _) hseries defines_inside ?_
  intro j m form' hm hdefined
  cases j with
  | zero => rfl
  | succ j =>
      have hmem : m ∈ (nodes inside).tail := List.mem_of_getElem? (List.getElem?_tail.trans hm)
      rw [hothers m hmem] at hdefined
      cases hdefined

/-- The label of the chapter keeps its token, so that the link to it is reported as undefined. -/
theorem undefinedLink_outside :
    (∀ ch ∈ name, isNameCharacter ch = true) ∧
      (conversion.run workspace outside).1.toOption.map Converted.warnings = some [.undefinedLink name] ∧
      ∃ p ∈ (parsed outside).positions, ∃ m ∈ Forest.preorder (parsed outside).children,
        p.series? conversion.isArticle = some (.heading .chapter) ∧
        Defines (workspace.passages outside) (cache outside) name p .tokenized ∧
        Refers (workspace.passages outside) (cache outside) name m.kind .readable ∧
        (References.resolveKind (conversion.scope workspace outside (parsed outside)) m.kind).2 =
          some (.undefinedLink name) := by
  let href : Kind := .link (Source.tokenized (cache outside).salt ('#' :: name))
  have hfacts : (conversion.run workspace outside).1.toOption.map Converted.warnings = some [.undefinedLink name] ∧
      (parsed outside).positions[0]?.isSome = true ∧
      (position outside).series? conversion.isArticle = some (.heading .chapter) ∧
      (position outside).node.attrs.label = some (Source.tokenized (cache outside).salt name) ∧
      (.prose link ∈ workspace.passages outside ∧ items ('#' :: name) <:+: items link) ∧
      href ∈ (Forest.preorder (parsed outside).children).map Node.kind ∧
      (References.resolveKind (conversion.scope workspace outside (parsed outside)) href).2 =
        some (.undefinedLink name) := by
    decide +kernel
  obtain ⟨hwarnings, hposition, hseries, hlabel, ⟨hline, hitems⟩, hkind, hundefined⟩ := hfacts
  obtain ⟨m, hm, hmkind⟩ := List.mem_map.mp hkind
  refine ⟨isNameCharacter_of_mem_name, hwarnings, _, List.mem_of_getElem? (getElem?_zero_eq hposition _), m, hm, hseries, .given hlabel, ?_, ?_⟩
  · rw [hmkind]
    exact .href hline hitems
  · rw [hmkind]
    exact hundefined

end AccentedLabel

end Manuscript
