import Manuscript.Proofs.Document.Shape
import Manuscript.Proofs.Xml.Whole

/-!
Documents and the XML texts that they are parsed from.  Elements become nodes, and what is in them becomes what is in the
nodes, in the same order; only references swallow it.

Main statement: each element and each text that is written in an XML text has its node in the document, but for the blanks
in block containers and what is inside of references (`becomesDocument_of_parse`).
-/

namespace Manuscript

namespace Document

open Xml (Item IsRootOf)
open Xml.Item (bare bares)

/-- The elements that swallow what is in them, each with the style of the reference that it becomes. -/
def referenceTable : List (Text × RefStyle) := [("ref", .plain), ("eqref", .equation)]

/-- The names of elements that have a meaning. -/
def knownNames : List Text :=
  referenceTable.map Prod.fst ++ (["a", "link", "img", "graphic", "span"] : List Text) ++ kindTable.flatMap Prod.snd

/-- The elements and texts in an element.  Comments and processing instructions are left out, and in block containers the
texts of blanks alone are, too. -/
def shown (name : Text) (children : List Item) : List Item :=
  children.filter fun
    | .text t => !(decide (name ∈ blockContainers) && Text.isBlankOnly t)
    | .aside => false
    | .element .. => true

/-- The kinds that elements other than references stand for. -/
inductive StandsAs : Text → List (Text × Text) → Kind → Prop
  | listed {name : Text} {attributes : List (Text × Text)} {kind : Kind} {names : List Text}
      (hlisted : (kind, names) ∈ kindTable) (hname : name ∈ names) : StandsAs name attributes kind
  | link {name : Text} {attributes : List (Text × Text)} (hname : name ∈ (["a", "link"] : List Text)) :
      StandsAs name attributes (.link ((attribute? attributes "href").getD []))
  | graphic {name : Text} {attributes : List (Text × Text)} (hname : name ∈ (["img", "graphic"] : List Text)) :
      StandsAs name attributes (.graphic (((attribute? attributes "src" <|> attribute? attributes "file")).getD []))
  | span {attributes : List (Text × Text)} : StandsAs "span" attributes .span
  | unknown {name : Text} {attributes : List (Text × Text)} (hname : name ∉ knownNames) : StandsAs name attributes .span

/-- The node that an element or a text becomes. -/
inductive Becomes : Item → Node → Prop
  | text (t : Text) : Becomes (.text t) (.new (.text t) [])
  | reference {name : Text} {style : RefStyle} {attributes : List (Text × Text)} {children : List Item} {n : Node}
      (hname : (name, style) ∈ referenceTable)
      (hkind : n.kind = .ref ((attribute? attributes "target").getD (Text.trim (Item.allTexts children))) style none none)
      (hchildren : n.children = []) : Becomes (.element name attributes children) n
  | element {name : Text} {attributes : List (Text × Text)} {children : List Item} {n : Node}
      (hname : name ∉ referenceTable.map Prod.fst) (hkind : StandsAs name attributes n.kind)
      (hclass : name ∉ knownNames → name ∈ n.attrs.classes)
      (hchildren : List.Forall₂ Becomes (shown name children) n.children) : Becomes (.element name attributes children) n

/-- The document that the root element becomes: one named `document` is the document itself, another is all that is in
it. -/
inductive BecomesDocument : Item → Document → Prop
  | document {attributes : List (Text × Text)} {children : List Item} {d : Document}
      (hchildren : List.Forall₂ Becomes (shown "document" children) d.children) :
      BecomesDocument (.element "document" attributes children) d
  | other {name : Text} {attributes : List (Text × Text)} {children : List Item} {n : Node} (hname : name ≠ "document")
      (hroot : Becomes (.element name attributes children) n) : BecomesDocument (.element name attributes children) ⟨[n]⟩

section

variable {name : Text} {attributes : List (Text × Text)} {kind : Kind}

theorem kindOf_reference {style : RefStyle} (h : (name, style) ∈ referenceTable) (attributes : List (Text × Text))
    (text : Text) : kindOf name attributes text = refKind style attributes text := by
  rcases List.mem_cons.mp h with h | h
  · obtain ⟨rfl, rfl⟩ := Prod.mk.inj h
    rfl
  · obtain ⟨rfl, rfl⟩ := Prod.mk.inj (List.mem_singleton.mp h)
    rfl

/-- An element that is no reference stands for the kind of its name. -/
theorem standsAs_kindOf (hname : name ∉ referenceTable.map Prod.fst) (attributes : List (Text × Text)) (text : Text) :
    StandsAs name attributes (kindOf name attributes text) := by
  have href : name ≠ "ref" := by
    rintro rfl
    exact hname (by decide)
  have heqref : name ≠ "eqref" := by
    rintro rfl
    exact hname (by decide)
  rw [kindOf, if_neg href, if_neg heqref]
  split_ifs with hlink hgraphic
  · exact .link (by rcases hlink with rfl | rfl <;> decide)
  · exact .graphic (by rcases hgraphic with rfl | rfl <;> decide)
  · cases hfind : kindTable.find? fun row => name ∈ row.2 with
    | some row =>
        exact .listed (List.mem_of_find?_eq_some hfind) (by simpa using List.find?_some hfind)
    | none =>
        by_cases hspan : name = "span"
        · subst hspan
          exact .span
        · refine .unknown fun hknown => ?_
          rcases List.mem_append.mp hknown with hknown | hlisted
          · rcases List.mem_append.mp hknown with hreference | hother
            · exact hname hreference
            · obtain rfl | rfl | rfl | rfl | rfl : name = "a" ∨ name = "link" ∨ name = "img" ∨ name = "graphic" ∨
                  name = "span" := by simpa only [List.mem_cons, List.not_mem_nil, or_false] using hother
              · exact hlink (.inl rfl)
              · exact hlink (.inr rfl)
              · exact hgraphic (.inl rfl)
              · exact hgraphic (.inr rfl)
              · exact hspan rfl
          · obtain ⟨row, hrow, hmem⟩ := List.mem_flatMap.mp hlisted
            exact List.find?_eq_none.mp hfind row hrow (decide_eq_true hmem)

theorem isRef_eq_false (h : StandsAs name attributes kind) : isRef kind = false := by
  have htable : ∀ row ∈ kindTable, isRef row.1 = false := by decide
  cases h with
  | listed hlisted => exact htable _ hlisted
  | _ => rfl

theorem mem_classes_foldl {c : Text} {a : Attrs} (h : c ∈ a.classes) (classes : List Text) :
    c ∈ (classes.foldl Attrs.addClass a).classes := by
  induction classes generalizing a with
  | nil => exact h
  | cons other classes ih =>
      refine ih ?_
      unfold Attrs.addClass
      split
      · exact h
      · exact List.mem_append_left _ h

/-- An element of no meaning carries its name as a class. -/
theorem mem_classes_attrsOf (hname : name ∉ knownNames) (h : StandsAs name attributes kind) :
    name ∈ (attrsOf name kind attributes).classes := by
  have hspan : kind = .span ∧ name ≠ "span" := by
    cases h with
    | listed hlisted hmem =>
        exact absurd (List.mem_append_right _ (List.mem_flatMap.mpr ⟨_, hlisted, hmem⟩)) hname
    | link hmem =>
        refine absurd (List.mem_append_left _ (List.mem_append_right _ ?_)) hname
        exact (List.Sublist.subset (by decide)) hmem
    | graphic hmem =>
        refine absurd (List.mem_append_left _ (List.mem_append_right _ ?_)) hname
        exact (List.Sublist.subset (by decide)) hmem
    | span => exact absurd (by decide) hname
    | unknown =>
        refine ⟨rfl, ?_⟩
        rintro rfl
        exact hname (by decide)
  simp only [attrsOf, if_pos hspan, List.foldl_append, List.foldl_cons, List.foldl_nil]
  exact mem_classes_foldl (Attrs.mem_classes_addClass _ name) _

/-- An element becomes a node, and what is in it becomes what is in the node. -/
theorem becomes_element {children : List Item}
    (h : List.Forall₂ Becomes (shown name children) (nodesOfXml (decide (name ∈ blockContainers)) (bares children))) :
    Becomes (.element name attributes children) (nodeOfXml (.element name attributes (bares children))) := by
  rw [nodeOfXml, Item.allTexts_bares]
  by_cases hname : name ∈ referenceTable.map Prod.fst
  · obtain ⟨⟨name', style⟩, hrow, rfl⟩ := List.mem_map.mp hname
    have hkind := kindOf_reference hrow attributes (Item.allTexts children)
    exact .reference hrow hkind (by rw [hkind]; rfl)
  · have hkind := standsAs_kindOf hname attributes (Item.allTexts children)
    refine .element hname hkind (fun hunknown => mem_classes_attrsOf hunknown hkind) ?_
    simpa only [isRef_eq_false hkind, Bool.false_eq_true, if_false] using h

/-- What is in an element becomes what is in its node. -/
theorem forall₂_becomes (name : Text) (items : List Item) :
    List.Forall₂ Becomes (shown name items) (nodesOfXml (decide (name ∈ blockContainers)) (bares items)) := by
  induction items using Item.induction generalizing name with
  | nil => exact .nil
  | text t rest ih =>
      rw [shown, List.filter_cons, bares, bare, List.singleton_append, nodesOfXml]
      by_cases hdropped : (decide (name ∈ blockContainers) && Text.isBlankOnly t) = true
      · simp only [hdropped, Bool.not_true, Bool.false_eq_true, if_false, if_true]
        exact ih name
      · simp only [Bool.not_eq_true _ ▸ hdropped, Bool.not_false, Bool.false_eq_true, if_false, if_true]
        exact .cons (.text t) (ih name)
  | aside rest ih => exact ih name
  | element name' attributes children rest ihChildren ihRest =>
      exact .cons (becomes_element (ihChildren name')) (ihRest name)

end

theorem becomesDocument_ofXml (name : Text) (attributes : List (Text × Text)) (children : List Item) :
    BecomesDocument (.element name attributes children) (ofXml (.element name attributes (bares children))) := by
  rw [ofXml]
  split
  · rename_i hname
    subst hname
    exact .document (forall₂_becomes "document" children)
  · rename_i hname
    exact .other hname (becomes_element (forall₂_becomes name children))

/-- Nothing that is written in an XML text is lost or comes in another place, but for the blanks in block containers and
what is inside of references. -/
theorem becomesDocument_of_parse {t : Text} {x : Xml} (h : Xml.parse? t = some x) :
    ∃ d, parse? t = some d ∧ (∃ root, IsRootOf t root) ∧ ∀ root, IsRootOf t root → BecomesDocument root d := by
  obtain ⟨root, hroot, -⟩ := Xml.parse?_eq_some_iff.mp h
  refine ⟨ofXml x, by rw [parse?, h, Option.map_some], ⟨root, hroot⟩, fun root hroot => ?_⟩
  obtain ⟨name, attributes, children, rfl⟩ := hroot.exists_element
  have hread : Xml.parse? t = some (.element name attributes (bares children)) :=
    Xml.parse?_eq_some_iff.mpr ⟨_, hroot, rfl⟩
  obtain rfl := Option.some.inj (h.symm.trans hread)
  exact becomesDocument_ofXml name attributes children

end Document

namespace CommentedParagraph

/-- A paragraph in which a comment parts the text, with a reference that names its target in parts and an element of no
meaning. -/
def source : Text :=
  "<document>\n  <p>See <!-- or not -->the <ref>eq:<em> a </em></ref> and <sc>b</sc></p>\n</document>"

def parsed : Document := (Document.parse? source).get (by decide +kernel)

/-- The comment parts the text and is gone, and the blanks around the paragraph are gone, too. -/
theorem becomesDocument_parsed : (Xml.parse? source).isSome = true ∧ Document.parse? source = some parsed ∧
    (∃ root, Xml.IsRootOf source root) ∧ (∀ root, Xml.IsRootOf source root → Document.BecomesDocument root parsed) ∧
    (Forest.preorder parsed.children).map Node.kind = [.paragraph, .text "See ", .text "the ",
      .ref "eq: a" .plain none none, .text " and ", .span, .text "b"] := by
  have hsome : (Xml.parse? source).isSome = true := by decide +kernel
  obtain ⟨x, hx⟩ := Option.isSome_iff_exists.mp hsome
  obtain ⟨d, hd, hroot, hbecomes⟩ := Document.becomesDocument_of_parse hx
  have hparsed : Document.parse? source = some parsed := (Option.some_get _).symm
  obtain rfl := Option.some.inj (hd.symm.trans hparsed)
  exact ⟨hsome, hparsed, hroot, hbecomes, by decide +kernel⟩

end CommentedParagraph

end Manuscript
