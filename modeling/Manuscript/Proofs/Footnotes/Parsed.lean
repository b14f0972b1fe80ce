import Manuscript.Proofs.Document.Shape
import Manuscript.Proofs.Footnotes.Place

/-!
The footnotes of a document that has been parsed and numbered.  Where no chapter is nested in a footnote, they are
numbered by chapter and moved to lists without loss.
-/

namespace Manuscript.Footnotes

open Forest

/-- No chapter is nested in a footnote. -/
def NoNestedChapters (l : List Node) : Prop :=
  ∀ f ∈ preorder l, isFootnote f = true → ∀ n ∈ preorder f.children, n.kind ≠ .heading .chapter

instance (l : List Node) : Decidable (NoNestedChapters l) :=
  inferInstanceAs <| Decidable <|
    ∀ f ∈ preorder l, isFootnote f = true → ∀ n ∈ preorder f.children, n.kind ≠ .heading .chapter

theorem isList_shape (kind : Kind) : isList kind.shape = isList kind := by
  cases kind <;> rfl

theorem isFootnote_shape (n : Node) : isFootnote n.shape = isFootnote n := by
  obtain ⟨kind, a, number, children⟩ := n
  cases kind <;> rfl

/-- A document with no list of footnotes and no chapter in a footnote is fit for its footnotes to be collected once it
is numbered. -/
theorem clean_numbered {d : Document} (hlists : ∀ n ∈ preorder d.children, isList n.kind = false)
    (hchapters : NoNestedChapters d.children) (cache : Cache) (isArticle : Bool) :
    Clean (d.number cache isArticle).1.children := by
  have hshape := d.shape_number cache isArticle
  constructor
  · intro n' hn'
    obtain ⟨n, hn, heq⟩ := exists_shape_eq_of_mem hshape hn'
    rw [← isList_shape, ← Node.kind_shape, ← heq, Node.kind_shape, isList_shape]
    exact hlists n hn
  · intro f' hf' hfootnote n' hn'
    obtain ⟨f, hf, heq⟩ := exists_shape_eq_of_mem hshape hf'
    rw [← isFootnote_shape, ← heq, isFootnote_shape] at hfootnote
    obtain ⟨n, hn, heqn⟩ := exists_shape_eq_of_mem (Node.children_eq_of_shape_eq heq) hn'
    refine Node.chapterNumber?_eq_none fun hkind => hchapters f hf hfootnote n hn ?_
    exact Node.kind_eq_of_shape_eq heqn (by simp) hkind

/-- A parsed document has no list of footnotes. -/
theorem isList_eq_false_of_parse {t : Text} {d : Document} (hparse : Document.parse? t = some d) :
    ∀ n ∈ preorder d.children, isList n.kind = false := by
  intro n hn
  by_contra hlist
  cases hkind : n.kind with
  | footnoteList chapter => exact Document.kind_ne_of_parse hparse chapter n hn hkind
  | _ =>
      rw [hkind] at hlist
      exact hlist rfl

/-- A parsed document with no chapter in a footnote is fit for its footnotes to be collected once it is numbered. -/
theorem clean_number {t : Text} {d : Document} (hparse : Document.parse? t = some d)
    (hchapters : NoNestedChapters d.children) (cache : Cache) (isArticle : Bool) :
    Clean (d.number cache isArticle).1.children :=
  clean_numbered (isList_eq_false_of_parse hparse) hchapters cache isArticle

/-- In a parsed document that has been numbered, with no chapter in a footnote, the footnotes are numbered by chapter
in the order of the document, and the contents of each are moved to the list of its chapter; apart from inter-sentence
spaces nothing else changes. -/
theorem exists_distributed_of_parse {t : Text} {d : Document} (hparse : Document.parse? t = some d)
    (hchapters : NoNestedChapters d.children) (cache : Cache) (isArticle : Bool) (style : FootnoteStyle) :
    ∃ marks marked,
      Distributed style (d.number cache isArticle).1.children
        ((d.number cache isArticle).1.placeFootnotes style).1.children
        ((d.number cache isArticle).1.placeFootnotes style).2 marks marked :=
  exists_distributed (clean_number hparse hchapters cache isArticle) style

namespace NestedNote

/-- A footnote in a footnote, and one in a chapter. -/
def source : Text :=
  "<p><footnote>a<footnote>b</footnote></footnote><chapter><footnote>c</footnote></chapter></p>"

def parsed : Document := (Document.parse? source).get (by decide +kernel)

theorem parse_source : Document.parse? source = some parsed := (Option.some_get _).symm

def numbered : Document := (parsed.number (.empty "s") false).1

theorem checked :
    NoNestedChapters parsed.children ∧ chapterKeys 0 (preorder numbered.children) = [0, 0, 1] := by
  decide +kernel

/-- The footnote in a footnote is counted after it, and the one in the chapter on its own. -/
theorem distributed : ∃ marks marked, marks.map Mark.chapter = [0, 0, 1] ∧
    Distributed .symbols numbered.children (numbered.placeFootnotes .symbols).1.children
      (numbered.placeFootnotes .symbols).2 marks marked := by
  obtain ⟨hchapters, hkeys⟩ := checked
  obtain ⟨marks, marked, h⟩ := exists_distributed_of_parse parse_source hchapters (.empty "s") false .symbols
  exact ⟨marks, marked, h.keys.trans hkeys, h⟩

end NestedNote

namespace LostNote

/-- Two footnotes, of which the second stands in an inter-sentence space that follows the first. -/
def source : Text :=
  "<p><footnote>a</footnote><intersentencespace><footnote>b</footnote></intersentencespace></p>"

def parsed : Document := (Document.parse? source).get (by decide +kernel)

def numbered : Document := (parsed.number (.empty "s") false).1

/-- The inter-sentence space goes with the second of two footnotes, of which the item is left. -/
theorem one_node_left : Document.parse? source = some parsed ∧
    NoNestedChapters parsed.children ∧
    (numbered.placeFootnotes .numbered).2 = 2 ∧
    ((preorder (numbered.placeFootnotes .numbered).1.children).filter isFootnote).map Node.kind =
      [.footnote (some ⟨0, 1, "1"⟩)] := by
  refine ⟨(Option.some_get _).symm, ?_⟩
  decide +kernel

end LostNote

end Manuscript.Footnotes
