import Mathlib.Data.List.Find
import Manuscript.Document.OfXml
import Manuscript.Proofs.Salt.Clear
import Manuscript.Proofs.Salt.Xml

/-!
Documents that are written alike.

Main statement: trees that are alike stand for documents that are alike, as long as tokens act as markers in the texts
of the trees (`ofXml_like`).
-/

namespace Manuscript

/-- How the texts of two documents are related. -/
structure Likeness where
  /-- Texts that are shown. -/
  shown : Text → Text → Prop
  /-- All texts inside a node together. -/
  joined : Text → Text → Prop
  /-- Ids, classes, labels and addresses. -/
  named : Text → Text → Prop

/-- Kinds with no text of the manuscript in them. -/
def Kind.isBare : Kind → Bool
  | .text _ | .link _ | .ref .. | .graphic _ => false
  | _ => true

variable {like : Likeness}

/-- Targets with related ids and the same number. -/
def Target.Like (like : Likeness) (target target' : Target) : Prop :=
  like.named target.id target'.id ∧ target.number = target'.number

/-- Kinds with related texts; the phrases that have joined references are related as texts that are shown. -/
inductive Kind.Like (like : Likeness) : Kind → Kind → Prop
  | bare {kind : Kind} (h : kind.isBare = true) : Like like kind kind
  | text {t t' : Text} (h : like.shown t t') : Like like (.text t) (.text t')
  | link {href href' : Text} (h : like.named href href') : Like like (.link href) (.link href')
  | ref {label label' : Text} (hlabel : like.named label label') (style : RefStyle) {target target' : Option Target}
      (htarget : Option.Rel (Target.Like like) target target') {phrase phrase' : Option Text}
      (hphrase : Option.Rel like.named phrase phrase') :
      Like like (.ref label style target phrase) (.ref label' style target' phrase')
  | graphic {src src' : Text} (h : like.named src src') : Like like (.graphic src) (.graphic src')

/-- Attributes with related texts. -/
structure Attrs.Like (like : Likeness) (a a' : Attrs) : Prop where
  id : Option.Rel like.named a.id a'.id
  label : Option.Rel like.named a.label a'.label
  isStarred : a.isStarred = a'.isStarred
  seq : Option.Rel like.named a.seq a'.seq
  classes : List.Forall₂ like.named a.classes a'.classes

/-- Nodes with the same shape and numbers, and with related texts. -/
inductive Node.Like (like : Likeness) : Node → Node → Prop
  | node {kind kind' : Kind} (hkind : kind.Like like kind') {a a' : Attrs} (hattrs : a.Like like a')
      (number : Option Text) {children children' : List Node}
      (hjoined : like.joined (Node.textsIn children).flatten (Node.textsIn children').flatten)
      (hchildren : List.Forall₂ (Like like) children children') :
      Like like ⟨kind, a, number, children⟩ ⟨kind', a', number, children'⟩

theorem Attrs.like_none : Attrs.Like like .none .none := ⟨.none, .none, rfl, .none, .nil⟩

/-- Only ids, classes, labels and addresses stand in attributes. -/
theorem Attrs.Like.mono {like' : Likeness} {a a' : Attrs} (h : a.Like like a')
    (hnamed : ∀ t t', like.named t t' → like'.named t t') : a.Like like' a' where
  id := rel_mono h.id hnamed
  label := rel_mono h.label hnamed
  isStarred := h.isStarred
  seq := rel_mono h.seq hnamed
  classes := h.classes.imp hnamed

namespace Kind.Like

variable {kind kind' : Kind}

/-- A kind without texts is the same in both. -/
theorem eq_iff (h : kind.Like like kind') (other : Kind) (hother : other.isBare = true) :
    kind = other ↔ kind' = other := by
  cases h with
  | bare => exact Iff.rfl
  | _ =>
      refine iff_of_false ?_ ?_ <;>
        · rintro rfl
          cases hother

theorem mono {like' : Likeness} (h : kind.Like like kind') (hnamed : ∀ t t', like.named t t' → like'.named t t')
    (hshown : ∀ t t', kind = .text t → kind' = .text t' → like'.shown t t') : kind.Like like' kind' := by
  cases h with
  | bare hbare => exact .bare hbare
  | text ht => exact .text (hshown _ _ rfl rfl)
  | link hhref => exact .link (hnamed _ _ hhref)
  | graphic hsrc => exact .graphic (hnamed _ _ hsrc)
  | ref hlabel style htarget hphrase =>
      have htarget' : Option.Rel (Target.Like like') _ _ := rel_mono htarget fun _ _ h => ⟨hnamed _ _ h.1, h.2⟩
      exact .ref (hnamed _ _ hlabel) style htarget' (rel_mono hphrase hnamed)

theorem isRef_eq (h : kind.Like like kind') : Document.isRef kind = Document.isRef kind' := by
  cases h <;> rfl

end Kind.Like

namespace Xml

mutual

/-- The texts of a tree: names of elements, values of attributes, and the texts inside of elements, also as a whole and
as they are shown. -/
def writings : Xml → List Text
  | .text t => [t]
  | .element name attributes children =>
    name :: allTexts children ::
      (Node.textsIn (Document.nodesOfXml (name ∈ Document.blockContainers) children)).flatten ::
        attributes.map Prod.snd ++ writingsIn children

/-- The texts of some trees. -/
def writingsIn : List Xml → List Text
  | [] => []
  | x :: rest => writings x ++ writingsIn rest

end

end Xml

namespace Salts

variable {s : Salts} {t t' u u' : Text}

theorem mem_iff_of_length_lt (h : s.Alike t t') {words : List Text} (hwords : ∀ word ∈ words, word.length < 40) :
    t ∈ words ↔ t' ∈ words := by
  induction words with
  | nil => exact iff_of_false List.not_mem_nil List.not_mem_nil
  | cons word words ih =>
      obtain ⟨hword, hwords⟩ := List.forall_mem_cons.mp hwords
      rw [List.mem_cons, List.mem_cons, h.eq_iff hword, ih hwords]

theorem mem_blockContainers_eq (h : s.Alike t t') :
    decide (t ∈ Document.blockContainers) = decide (t' ∈ Document.blockContainers) := by
  rw [decide_eq_decide]
  exact mem_iff_of_length_lt h (by decide)

/-- The relation of the attributes of two elements. -/
abbrev ValuesAlike (s : Salts) : List (Text × Text) → List (Text × Text) → Prop :=
  List.Forall₂ fun a b => s.Alike a.1 b.1 ∧ s.Alike a.2 b.2

theorem attribute?_rel {r : Text → Text → Prop} {attributes attributes' : List (Text × Text)}
    (h : List.Forall₂ (fun a b => s.Alike a.1 b.1 ∧ r a.2 b.2) attributes attributes') {name : Text}
    (hname : name.length < 40) :
    Option.Rel r (Document.attribute? attributes name) (Document.attribute? attributes' name) := by
  unfold Document.attribute?
  induction h with
  | nil => exact .none
  | @cons a b _ _ hfirst _ ih =>
      obtain ⟨key, value⟩ := a
      obtain ⟨key', value'⟩ := b
      rw [List.lookup_cons, List.lookup_cons]
      have hkey : (name == key) = (name == key') := by
        rw [Bool.eq_iff_iff, beq_iff_eq, beq_iff_eq, eq_comm, hfirst.1.eq_iff hname, eq_comm]
      rw [hkey]
      cases name == key' with
      | true => exact .some hfirst.2
      | false => exact ih

section Kinds

variable {r : Text → Text → Prop} {attributes attributes' : List (Text × Text)} {name name' : Text}
  (h : List.Forall₂ (fun a b => s.Alike a.1 b.1 ∧ r a.2 b.2) attributes attributes') (hname : s.Alike name name')
  (hnil : r [] [])

include h hname hnil

/-- The kinds of elements with related values and texts; the names are those of tables, and shorter than a token. -/
theorem kindOf_like (hnamed : like.named = r) (htrim : r (Text.trim t) (Text.trim t')) :
    (Document.kindOf name attributes t).Like like (Document.kindOf name' attributes' t') := by
  subst hnamed
  have hword {word : Text} (hword : word.length < 40) : name = word ↔ name' = word := hname.eq_iff hword
  have href (style : RefStyle) :
      (Document.refKind style attributes t).Like like (Document.refKind style attributes' t') :=
    .ref (rel_getD (attribute?_rel h (by decide)) htrim) style .none .none
  have htable : Document.kindTable.find? (fun row => name ∈ row.2) =
      Document.kindTable.find? fun row => name' ∈ row.2 := by
    have hshort : ∀ row ∈ Document.kindTable, ∀ word ∈ row.2, word.length < 40 := by decide
    refine List.find?_congr fun row hrow => ?_
    rw [decide_eq_decide]
    exact mem_iff_of_length_lt hname (hshort row hrow)
  have hbare : ∀ row ∈ Document.kindTable, row.1.isBare = true := by decide
  unfold Document.kindOf
  simp only [hword (by decide : ("ref".toList).length < 40), hword (by decide : ("eqref".toList).length < 40),
    hword (by decide : ("a".toList).length < 40), hword (by decide : ("link".toList).length < 40),
    hword (by decide : ("img".toList).length < 40), hword (by decide : ("graphic".toList).length < 40), htable]
  split
  · exact href .plain
  · split
    · exact href .equation
    · split
      · exact .link (rel_getD (attribute?_rel h (by decide)) hnil)
      · split
        · exact .graphic (rel_getD (rel_or (attribute?_rel h (by decide)) (attribute?_rel h (by decide))) hnil)
        · cases hfind : Document.kindTable.find? fun row => name' ∈ row.2 with
          | none => exact .bare rfl
          | some row => exact .bare (hbare row (List.mem_of_find?_eq_some hfind))

end Kinds

theorem isRef_kindOf_eq {name name' : Text} (hname : s.Alike name name') {attributes attributes' : List (Text × Text)}
    (h : s.ValuesAlike attributes attributes') (ht : s.Alike t t') :
    Document.isRef (Document.kindOf name attributes t) = Document.isRef (Document.kindOf name' attributes' t') := by
  have hkind : (Document.kindOf name attributes t).Like ⟨s.Alike, s.Alike, s.Alike⟩
      (Document.kindOf name' attributes' t') := kindOf_like h hname hname.nil rfl ht.trim
  exact hkind.isRef_eq

/-- No element stands for a text. -/
theorem texts_element (name : Text) (attributes : List (Text × Text)) (children : List Xml) :
    Node.texts (Document.nodeOfXml (.element name attributes children)) =
      if Document.isRef (Document.kindOf name attributes (Xml.allTexts children)) then []
      else Node.textsIn (Document.nodesOfXml (name ∈ Document.blockContainers) children) := by
  have hkind : ∀ t, Document.kindOf name attributes (Xml.allTexts children) ≠ .text t := by
    have hrows : ∀ row ∈ Document.kindTable, row.1.isBare = true := by decide
    intro t
    unfold Document.kindOf
    repeat' split
    · exact Kind.noConfusion
    · exact Kind.noConfusion
    · exact Kind.noConfusion
    · exact Kind.noConfusion
    · cases hfind : Document.kindTable.find? fun row => name ∈ row.2 with
      | none => exact Kind.noConfusion
      | some row =>
          intro heq
          have hbare := hrows row (List.mem_of_find?_eq_some hfind)
          rw [show row.1 = .text t from heq] at hbare
          cases hbare
  rw [Document.nodeOfXml, Node.texts]
  · rw [List.nil_append]
    split <;> rfl
  · exact hkind

mutual

/-- The texts of trees that are alike are shown alike. -/
theorem texts_alike {x x' : Xml} (h : Xml.Like s.Alike x x') :
    List.Forall₂ s.Alike (Node.texts (Document.nodeOfXml x)) (Node.texts (Document.nodeOfXml x')) := by
  match x, x', h with
  | .text t, .text t', .text ht => exact .cons ht .nil
  | .element name attributes children, .element name' attributes' children',
      .element hname hattributes htext hchildren =>
      rw [texts_element, texts_element, isRef_kindOf_eq hname hattributes htext, mem_blockContainers_eq hname]
      split
      · exact .nil
      · exact textsIn_alike _ children hchildren

theorem textsIn_alike (isBlock : Bool) (l : List Xml) {l' : List Xml} (h : List.Forall₂ (Xml.Like s.Alike) l l') :
    List.Forall₂ s.Alike (Node.textsIn (Document.nodesOfXml isBlock l))
      (Node.textsIn (Document.nodesOfXml isBlock l')) := by
  match l, l', h with
  | [], [], .nil => exact .nil
  | child :: rest, child' :: rest', .cons hchild hrest =>
      have hnode := texts_alike hchild
      have hrest := textsIn_alike isBlock rest hrest
      cases hchild with
      | text ht =>
          rw [Document.nodesOfXml, Document.nodesOfXml]
          simp only [ht.isBlankOnly_eq]
          split
          · exact hrest
          · exact List.rel_append hnode hrest
      | element => exact List.rel_append hnode hrest

end

mutual

theorem writings_alike [s.IsOpen] {x x' : Xml} (h : Xml.Like s.Alike x x') :
    List.Forall₂ s.Alike x.writings x'.writings := by
  match x, x', h with
  | .text t, .text t', .text ht => exact .cons ht .nil
  | .element name attributes children, .element name' attributes' children',
      .element hname hattributes htext hchildren =>
      rw [Xml.writings, Xml.writings, mem_blockContainers_eq hname]
      have hvalues : List.Forall₂ s.Alike (attributes.map Prod.snd) (attributes'.map Prod.snd) :=
        List.rel_map (fun _ _ hab => hab.2) hattributes
      refine .cons hname (.cons htext (.cons ?_ (List.rel_append hvalues (writingsIn_alike children hchildren))))
      exact Alike.flatten (textsIn_alike _ children hchildren)

theorem writingsIn_alike [s.IsOpen] (l : List Xml) {l' : List Xml} (h : List.Forall₂ (Xml.Like s.Alike) l l') :
    List.Forall₂ s.Alike (Xml.writingsIn l) (Xml.writingsIn l') := by
  match l, l', h with
  | [], [], .nil => exact .nil
  | child :: rest, child' :: rest', .cons hchild hrest =>
      exact List.rel_append (writings_alike hchild) (writingsIn_alike rest hrest)

end

section Parsed

variable {words : Words} {first second : Text} {calls : List Call}

variable (words first second calls) in
/-- However both texts are written with tokens, the tokens act as markers in them. -/
def Told (t t' : Text) : Prop := (of first second calls).Always (Script.IsClear words first second calls) t t'

variable (words first second calls) in
/-- How the documents are related that are parsed by two salts. -/
def parsed : Likeness where
  shown t t' := (of first second calls).Alike t t' ∧ Told words first second calls t t'
  joined t t' := (of first second calls).Alike t t' ∧ Told words first second calls t t'
  named := (clear first second calls).Alike

theorem Told.alike (ht : Told words first second calls t t') (h : (of first second calls).Alike t t') :
    (clear first second calls).Alike t t' := by
  obtain ⟨m, hm, hfirst, hsecond⟩ := h
  exact ⟨m, (ht m hm hfirst hsecond).permits, hfirst, hsecond⟩

/-- Texts that are too short for tokens have no tokens in them to be told apart. -/
theorem told_of_length_lt (h : t.length < 40) (hslug : (Numbering.slug t).length < 40) :
    Told words first second calls t t := by
  rintro m hm hfirst -
  obtain rfl : m = Script.plain t := hfirst ▸ Script.eq_plain_of_length_lt (hfirst.symm ▸ h)
  refine ⟨permits_plain (Call.absentFrom_of_length_lt h), ?_, fun equations head phrase _ l call r hsplit => ?_⟩
  · rw [Script.readable_plain]
    exact Call.absentFrom_of_length_lt hslug
  · have hmem : Sign.token call ∈ (Script.plain t).stripped equations := by
      rw [hsplit]
      exact List.mem_append_right l List.mem_cons_self
    exact absurd (Script.stripped_subset equations _ hmem) (Script.token_notMem_plain call t)

theorem told_nil : Told words first second calls [] [] := told_of_length_lt (by decide) (by decide)

theorem values_like {attributes attributes' : List (Text × Text)}
    (h : (of first second calls).ValuesAlike attributes attributes')
    (htold : ∀ p ∈ (attributes.map Prod.snd).zip (attributes'.map Prod.snd), Told words first second calls p.1 p.2) :
    List.Forall₂ (fun a b => (of first second calls).Alike a.1 b.1 ∧ (clear first second calls).Alike a.2 b.2)
      attributes attributes' := by
  induction h with
  | nil => exact .nil
  | cons hone _ ih =>
      rw [List.map_cons, List.map_cons, List.zip_cons_cons] at htold
      obtain ⟨htoldOne, htoldRest⟩ := List.forall_mem_cons.mp htold
      exact .cons ⟨hone.1, htoldOne.alike hone.2⟩ (ih htoldRest)

theorem told_element {name name' : Text} (hname : (of first second calls).Alike name name')
    {attributes attributes' : List (Text × Text)} (h : (of first second calls).ValuesAlike attributes attributes')
    {children children' : List Xml}
    (htold : ∀ p ∈ (Xml.element name attributes children).writings.zip
        (Xml.element name' attributes' children').writings,
      Told words first second calls p.1 p.2) :
    Told words first second calls name name' ∧
      Told words first second calls (Xml.allTexts children) (Xml.allTexts children') ∧
      Told words first second calls
        (Node.textsIn (Document.nodesOfXml (name' ∈ Document.blockContainers) children)).flatten
        (Node.textsIn (Document.nodesOfXml (name' ∈ Document.blockContainers) children')).flatten ∧
      (∀ p ∈ (attributes.map Prod.snd).zip (attributes'.map Prod.snd), Told words first second calls p.1 p.2) ∧
      ∀ p ∈ (Xml.writingsIn children).zip (Xml.writingsIn children'), Told words first second calls p.1 p.2 := by
  have hlength : (attributes.map Prod.snd).length = (attributes'.map Prod.snd).length := by
    rw [List.length_map, List.length_map, h.length_eq]
  rw [Xml.writings, Xml.writings, mem_blockContainers_eq hname] at htold
  simpa only [List.cons_append, List.zip_cons_cons, List.zip_append hlength, List.forall_mem_cons,
    List.forall_mem_append] using htold

theorem alike_nil : (clear first second calls).Alike [] [] := by
  have htold : Told .default first second calls [] [] := told_nil
  exact htold.alike (.refl [])

theorem addClass_like (hmarkers : Markers first second calls)
    (hnamed : like.named = (clear first second calls).Alike) {a a' : Attrs} (ha : a.Like like a')
    (h : (clear first second calls).Alike t t') : (a.addClass t).Like like (a'.addClass t') := by
  have hmem : t ∈ a.classes ↔ t' ∈ a'.classes := by
    have hclasses := ha.classes
    rw [hnamed] at hclasses
    exact mem_iff_mem hmarkers hclasses h
  unfold Attrs.addClass
  simp only [hmem]
  split
  · exact ha
  · exact { ha with classes := List.rel_append ha.classes (.cons (hnamed ▸ h) .nil) }

theorem attrsOf_like (hmarkers : Markers first second calls)
    {attributes attributes' : List (Text × Text)}
    (h : List.Forall₂ (fun a b => (of first second calls).Alike a.1 b.1 ∧ (clear first second calls).Alike a.2 b.2)
      attributes attributes')
    {name name' : Text} (hname : (clear first second calls).Alike name name') {kind kind' : Kind}
    (hkind : kind.Like (parsed words first second calls) kind') :
    (Document.attrsOf name kind attributes).Like (parsed words first second calls)
      (Document.attrsOf name' kind' attributes') := by
  have hclasses {classes classes' : List Text}
      (hclasses : List.Forall₂ (clear first second calls).Alike classes classes') :
      ∀ {a a' : Attrs}, a.Like (parsed words first second calls) a' →
        (classes.foldl Attrs.addClass a).Like (parsed words first second calls) (classes'.foldl Attrs.addClass a') := by
    induction hclasses with
    | nil => exact id
    | cons hone _ ih => exact fun ha => ih (addClass_like hmarkers rfl ha hone)
  have hown : List.Forall₂ (clear first second calls).Alike (if kind = .span ∧ name ≠ "span" then [name] else [])
      (if kind' = .span ∧ name' ≠ "span" then [name'] else []) := by
    simp only [hkind.eq_iff .span rfl, ne_eq, hname.eq_iff (by decide : ("span".toList).length < 40)]
    split
    · exact .cons hname .nil
    · exact .nil
  have hgiven : List.Forall₂ (clear first second calls).Alike
      (Text.words ((Document.attribute? attributes "class").getD []))
      (Text.words ((Document.attribute? attributes' "class").getD [])) :=
    (rel_getD (attribute?_rel h (by decide)) alike_nil).words
  refine hclasses (List.rel_append hown hgiven) ⟨attribute?_rel h (by decide), attribute?_rel h (by decide), ?_,
    rel_or (attribute?_rel h (by decide)) (attribute?_rel h (by decide)), .nil⟩
  have hstarred := attribute?_rel h (by decide : ("starred".toList).length < 40)
  dsimp only
  generalize Document.attribute? attributes "starred" = x, Document.attribute? attributes' "starred" = x' at hstarred ⊢
  cases hstarred with
  | none => rfl
  | some hvalue =>
      simp only [Option.any_some]
      rw [decide_eq_decide]
      exact mem_iff_of_length_lt hvalue (by decide)

mutual

theorem nodeOfXml_like (hmarkers : Markers first second calls) {x x' : Xml}
    (h : Xml.Like (of first second calls).Alike x x')
    (htold : ∀ p ∈ x.writings.zip x'.writings, Told words first second calls p.1 p.2) :
    (Document.nodeOfXml x).Like (parsed words first second calls) (Document.nodeOfXml x') := by
  match x, x', h with
  | .text t, .text t', .text ht =>
      have hshown := htold (t, t') List.mem_cons_self
      have hempty : (of first second calls).Alike [] [] := .refl []
      have htext : Kind.Like (parsed words first second calls) (.text t) (.text t') := .text ⟨ht, hshown⟩
      exact .node htext Attrs.like_none none ⟨hempty, told_nil⟩ .nil
  | .element name attributes children, .element name' attributes' children',
      .element hname hattributes htext hchildren =>
      have hblock := mem_blockContainers_eq hname
      obtain ⟨htoldName, htoldText, htoldJoined, htoldValues, htoldChildren⟩ := told_element hname hattributes htold
      have hvalues := values_like hattributes htoldValues
      have hkind : (Document.kindOf name attributes (Xml.allTexts children)).Like (parsed words first second calls)
          (Document.kindOf name' attributes' (Xml.allTexts children')) :=
        kindOf_like hvalues hname alike_nil rfl (htoldText.alike htext).trim
      have hattrs := attrsOf_like hmarkers hvalues (htoldName.alike hname) hkind
      rw [Document.nodeOfXml, Document.nodeOfXml, isRef_kindOf_eq hname hattributes htext, hblock]
      split
      · exact .node hkind hattrs none ⟨.refl [], told_nil⟩ .nil
      · refine .node hkind hattrs none ⟨?_, htoldJoined⟩ (nodesOfXml_like hmarkers _ children hchildren htoldChildren)
        exact Alike.flatten (textsIn_alike _ children hchildren)

theorem nodesOfXml_like (hmarkers : Markers first second calls) (isBlock : Bool)
    (l : List Xml) {l' : List Xml}
    (h : List.Forall₂ (Xml.Like (of first second calls).Alike) l l')
    (htold : ∀ p ∈ (Xml.writingsIn l).zip (Xml.writingsIn l'), Told words first second calls p.1 p.2) :
    List.Forall₂ (Node.Like (parsed words first second calls)) (Document.nodesOfXml isBlock l)
      (Document.nodesOfXml isBlock l') := by
  match l, l', h with
  | [], [], .nil => exact .nil
  | child :: rest, child' :: rest', .cons hchild hrest =>
      rw [Xml.writingsIn, Xml.writingsIn, List.zip_append (writings_alike hchild).length_eq] at htold
      obtain ⟨htoldChild, htoldRest⟩ := List.forall_mem_append.mp htold
      have hnode := nodeOfXml_like hmarkers hchild htoldChild
      have hrest := nodesOfXml_like hmarkers isBlock rest hrest htoldRest
      cases hchild with
      | text ht =>
          rw [Document.nodesOfXml, Document.nodesOfXml]
          simp only [ht.isBlankOnly_eq]
          split
          · exact hrest
          · exact .cons hnode hrest
      | element => exact .cons hnode hrest

end

/-- Trees that are alike stand for documents that are alike, as long as tokens act as markers in their texts. -/
theorem ofXml_like (hmarkers : Markers first second calls) {x x' : Xml}
    (h : Xml.Like (of first second calls).Alike x x')
    (htold : ∀ p ∈ x.writings.zip x'.writings, Told words first second calls p.1 p.2) :
    List.Forall₂ (Node.Like (parsed words first second calls)) (Document.ofXml x).children
      (Document.ofXml x').children := by
  have hnode := nodeOfXml_like hmarkers h htold
  cases h with
  | text ht => exact .cons hnode .nil
  | element hname hattributes htext hchildren =>
      simp only [Document.ofXml, hname.eq_iff (by decide : ("document".toList).length < 40)]
      split
      · rename_i hdocument
        obtain ⟨-, -, -, -, htoldChildren⟩ := told_element hname hattributes htold
        exact nodesOfXml_like hmarkers true _ hchildren htoldChildren
      · exact .cons hnode .nil

end Parsed

end Salts

end Manuscript
