import Manuscript.Proofs.References
import Manuscript.Proofs.Words

/-!
Linking phrases.  The end of a text that stands right before a resolved reference may become part of the reference;
nothing else happens to the lists of nodes, and what there is to read is the same as before.

Main statement: `joinsPhrases`.
-/

namespace Manuscript

/-- The linking phrase that a reference has. -/
def Node.phrase? (n : Node) : Option Text :=
  match n.kind with
  | .ref _ _ _ phrase => phrase
  | _ => none

namespace References

mutual

/-- A node with all in it resolved, but no phrase joined to a reference. -/
def linkedNode (s : Scope) : Node → Node
  | ⟨kind, a, number, children⟩ =>
    let (kind, warning) := resolveKind s kind
    ⟨kind, if warning.isSome then a.addClass undefinedClass else a, number, linked s children⟩

/-- Some nodes with all in them resolved, but no phrase joined to a reference. -/
def linked (s : Scope) : List Node → List Node
  | [] => []
  | n :: rest => linkedNode s n :: linked s rest

end

/-- A text of which something may be left. -/
def leftOver (head : Text) (a : Attrs) (number : Option Text) (inside : List Node) : List Node :=
  if head = [] then [] else [⟨.text head, a, number, inside⟩]

/-- Some nodes and the same nodes when linking phrases have been taken off texts, among them and inside them, each of
them by the resolved reference right after the text. -/
inductive Merged (s : Scope) : List Node → List Node → Prop
  | nil : Merged s [] []
  | keep (kind : Kind) (a : Attrs) (number : Option Text) {inside inside' l l' : List Node}
      (hinside : Merged s inside inside') (hrest : Merged s l l') :
      Merged s (⟨kind, a, number, inside⟩ :: l) (⟨kind, a, number, inside'⟩ :: l')
  | take {head word before : Text} (hword : word ≠ [])
      (hphrase : s.words.splitPhrase? (s.cache.readable (head ++ word)) = some (before, s.cache.readable word))
      (a a' : Attrs) (number number' : Option Text) (label : Text) (style : RefStyle) (target : Target)
      {inside inside' content content' l l' : List Node} (hinside : Merged s inside inside')
      (hcontent : Merged s content content') (hrest : Merged s l l') :
      Merged s
        (⟨.text (head ++ word), a, number, inside⟩ :: ⟨.ref label style (some target) none, a', number', content⟩ :: l)
        (leftOver head a number inside' ++
          ⟨.ref label style (some target) (some (joinPhrase word)), a', number', content'⟩ :: l')

/-- What there is to read in some nodes: the characters of texts and phrases, and the nodes that are no texts. -/
inductive Reading where
  | character (c : Char)
  | node (kind : Kind) (a : Attrs) (number : Option Text) (inside : List Reading)

/-- Is it a resolved reference? -/
def Reading.isResolved : Reading → Bool
  | .node (.ref _ _ (some _) _) .. => true
  | _ => false

/-- A character and what there is to read after it.  A tilde before a resolved reference is read as a no-break space. -/
def readCharacter (c : Char) (rest : List Reading) : List Reading :=
  .character (if c = '~' ∧ rest.head?.any Reading.isResolved then '\u00A0' else c) :: rest

/-- A text and what there is to read after it. -/
def readText (t : Text) (rest : List Reading) : List Reading := t.foldr readCharacter rest

mutual

/-- A node and what there is to read after it.  A reference comes after its phrase; of a text only its characters are
read, since nothing is ever put inside it. -/
def readNode : Node → List Reading → List Reading
  | ⟨kind, a, number, children⟩, rest =>
    match kind with
    | .text t => readText t rest
    | .ref label style target phrase =>
      readText (phrase.getD []) (.node (.ref label style target none) a number (read children) :: rest)
    | kind => .node kind a number (read children) :: rest

/-- What there is to read in some nodes. -/
def read : List Node → List Reading
  | [] => []
  | n :: rest => readNode n (read rest)

end

theorem readText_append (t u : Text) (rest : List Reading) : readText (t ++ u) rest = readText t (readText u rest) :=
  List.foldr_append

/-- A phrase reads the same before a resolved reference and in it. -/
theorem readText_joinPhrase (word : Text) {rest : List Reading} (h : rest.head?.any Reading.isResolved = true) :
    readText (joinPhrase word) rest = readText word rest := by
  unfold joinPhrase
  split
  · rename_i start hstart
    rw [Text.eq_append_of_before? hstart, readText_append, readText_append]
    have htilde : readText ['\u00A0'] rest = readText "~" rest := by
      change [Reading.character _] ++ rest = [Reading.character _] ++ rest
      rw [if_neg fun hne => absurd hne.1 (by decide), if_pos ⟨rfl, h⟩]
    rw [htilde]
  · rfl

/-- Nothing of the text is lost where phrases are joined to references. -/
theorem Merged.read_eq {s : Scope} {l l' : List Node} (h : Merged s l l') : read l' = read l := by
  induction h with
  | nil => rfl
  | keep kind a number _ _ ihInside ihRest =>
      cases kind <;> simp only [read, readNode, ihInside, ihRest]
  | @take head word before hword _ a a' number number' label style target inside inside' content content' l l' _ _ _
      ihInside ihContent ihRest =>
      have hleft : ∀ rest : List Node, read (leftOver head a number inside' ++ rest) = readText head (read rest) := by
        intro rest
        unfold leftOver
        split
        · rename_i hhead
          rw [hhead]
          rfl
        · rfl
      rw [hleft, read, read, read, readNode, readNode, readNode]
      simp only [Option.getD_some, Option.getD_none, ihContent, ihRest, readText_append]
      rw [readText_joinPhrase word rfl]
      rfl

/-- The node is the one it was, but for phrases joined to references inside it. -/
def Settles (s : Scope) (n n' : Node) : Prop :=
  n'.kind = n.kind ∧ n'.attrs = n.attrs ∧ n'.number = n.number ∧ Merged s n.children n'.children

theorem eq_append_of_splitReading? {cache : Cache} {phrase backwards tail head word : Text}
    (h : splitReading? cache phrase backwards tail = some (head, word)) :
    backwards.reverse ++ tail = head ++ word ∧ word ≠ [] ∧ cache.readable word = phrase := by
  induction backwards generalizing tail with
  | nil => cases h
  | cons c backwards ih =>
      rw [splitReading?] at h
      split at h
      · rename_i hreads
        obtain ⟨rfl, rfl⟩ := Prod.mk.inj (Option.some.inj h)
        exact ⟨by simp, List.cons_ne_nil c tail, hreads⟩
      · obtain ⟨heq, hword⟩ := ih h
        exact ⟨by rw [← heq]; simp, hword⟩

/-- A phrase that joins a reference is the end of a text, and it reads as a linking phrase. -/
theorem merged_join? {s : Scope} {n n' next next' : Node} {left : List Node} {reference : Node} {l l' : List Node}
    (h : join? s n' next' = some (left, reference)) (hphrase : next'.phrase? = none) (hn : Settles s n n')
    (hnext : Settles s next next') (hrest : Merged s l l') :
    Merged s (n :: next :: l) (left ++ reference :: l') := by
  obtain ⟨_, _, _, inside⟩ := n
  obtain ⟨_, _, _, content⟩ := next
  obtain ⟨kind, a, number, inside'⟩ := n'
  obtain ⟨kind', a', number', content'⟩ := next'
  obtain ⟨rfl, rfl, rfl, hinside⟩ := hn
  obtain ⟨rfl, rfl, rfl, hcontent⟩ := hnext
  unfold join? at h
  split at h
  · rename_i t label style target phrase htext href
    obtain rfl : kind = .text t := htext
    obtain rfl : kind' = .ref label style (some target) _ := href
    obtain rfl : _ = none := hphrase
    obtain ⟨⟨head, word⟩, hsplit, heq⟩ := Option.map_eq_some_iff.mp h
    obtain ⟨rfl, rfl⟩ := Prod.mk.inj heq
    obtain ⟨⟨before, phrase⟩, hfound, hreading⟩ := Option.bind_eq_some_iff.mp hsplit
    obtain ⟨htext, hword, rfl⟩ := eq_append_of_splitReading? hreading
    rw [List.reverse_reverse, List.append_nil] at htext
    subst htext
    exact .take hword hfound a a' number number' label style target hinside hcontent hrest
  · cases h

theorem Merged.keep_of_settles {s : Scope} {n n' : Node} {l l' : List Node} (hn : Settles s n n')
    (hrest : Merged s l l') : Merged s (n :: l) (n' :: l') := by
  obtain ⟨kind, a, number, inside⟩ := n
  obtain ⟨_, _, _, inside'⟩ := n'
  obtain ⟨rfl, rfl, rfl, hinside⟩ := hn
  exact .keep _ _ _ hinside hrest

/-- Joining takes phrases off texts, one for each reference at the most. -/
theorem merged_joinAll {s : Scope} {l m : List Node} (h : List.Forall₂ (Settles s) l m)
    (hphrase : ∀ n ∈ m, n.phrase? = none) : Merged s l (joinAll s m) := by
  fun_induction joinAll s m generalizing l with
  | case1 =>
      cases h
      exact .nil
  | case2 only =>
      obtain _ | ⟨hn, hrest⟩ := h
      cases hrest
      exact .keep_of_settles hn .nil
  | case3 before next rest left reference hjoin ih =>
      obtain _ | ⟨hbefore, _ | ⟨hnext, hrest⟩⟩ := h
      obtain ⟨-, hnone, hlater⟩ := List.forall_mem_cons.mp hphrase |>.imp_right List.forall_mem_cons.mp
      exact merged_join? hjoin hnone hbefore hnext (ih hrest hlater)
  | case4 before next rest hjoin ih =>
      obtain _ | ⟨hbefore, hrest⟩ := h
      exact .keep_of_settles hbefore (ih hrest (List.forall_mem_cons.mp hphrase).2)

theorem phrase?_node (s : Scope) (n : Node) : (node s n).1.phrase? = n.phrase? := by
  rw [node_eq]
  obtain ⟨kind, a, number, children⟩ := n
  cases kind with
  | ref label style target phrase =>
      simp only [Node.phrase?, resolveKind]
      cases s.labels.target? label <;> rfl
  | link href =>
      simp only [Node.phrase?, resolveKind]
      cases Text.after? "#" (s.cache.readable href) with
      | none => rfl
      | some label =>
          simp only
          cases s.labels.target? label <;> rfl
  | _ => rfl

theorem linkedNode_eq (s : Scope) (n : Node) :
    linkedNode s n = { (node s n).1 with children := linked s n.children } := by
  obtain ⟨kind, a, number, children⟩ := n
  rfl

/-- Resolving leaves references without phrases; the nodes inside may be joined. -/
theorem forall₂_settles {s : Scope} {l : List Node} (hphrase : ∀ n ∈ Forest.preorder l, n.phrase? = none) :
    List.Forall₂ (Settles s) (linked s l) (nodes s l).1 ∧ ∀ n ∈ (nodes s l).1, n.phrase? = none := by
  induction l using Forest.induction with
  | nil => exact ⟨.nil, fun _ hn => by cases hn⟩
  | cons n rest ihChildren ihRest =>
      rw [Forest.preorder_cons] at hphrase
      obtain ⟨hnone, hlater⟩ := List.forall_mem_cons.mp hphrase
      obtain ⟨hinside, hafter⟩ := List.forall_mem_append.mp hlater
      obtain ⟨hsettles, hnones⟩ := ihRest hafter
      obtain ⟨hsettlesInside, hnonesInside⟩ := ihChildren hinside
      refine ⟨.cons ?_ hsettles, List.forall_mem_cons.mpr ⟨(phrase?_node s n).trans hnone, hnones⟩⟩
      rw [linkedNode_eq, node_eq]
      exact ⟨rfl, rfl, rfl, merged_joinAll hsettlesInside hnonesInside⟩

theorem phrase?_linked {s : Scope} {l : List Node} (hphrase : ∀ n ∈ Forest.preorder l, n.phrase? = none) :
    ∀ n ∈ Forest.preorder (linked s l), n.phrase? = none := by
  induction l using Forest.induction with
  | nil => exact fun _ hn => by cases hn
  | cons n rest ihChildren ihRest =>
      rw [Forest.preorder_cons] at hphrase
      obtain ⟨hnone, hlater⟩ := List.forall_mem_cons.mp hphrase
      obtain ⟨hinside, hafter⟩ := List.forall_mem_append.mp hlater
      rw [linked, Forest.preorder_cons, List.forall_mem_cons, List.forall_mem_append, linkedNode_eq]
      exact ⟨(phrase?_node s n).trans hnone, ihChildren hinside, ihRest hafter⟩

/-- Only resolved references take phrases. -/
theorem Merged.phrase?_eq_none {s : Scope} {l l' : List Node} (h : Merged s l l')
    (hphrase : ∀ n ∈ Forest.preorder l, n.phrase? = none) :
    ∀ n ∈ Forest.preorder l', n.isUnresolved = true → n.phrase? = none := by
  induction h with
  | nil => exact fun _ hn => by cases hn
  | keep kind a number _ _ ihInside ihRest =>
      rw [Forest.preorder_cons, List.forall_mem_cons, List.forall_mem_append] at hphrase ⊢
      exact ⟨fun _ => hphrase.1, ihInside hphrase.2.1, ihRest hphrase.2.2⟩
  | @take head word before _ _ a a' number number' label style target inside inside' content content' l l' _ _ _
      ihInside ihContent ihRest =>
      simp only [Forest.preorder_cons, List.forall_mem_cons, List.forall_mem_append] at hphrase
      obtain ⟨-, hinside, -, hcontent, hrest⟩ := hphrase
      rw [Forest.preorder_append, List.forall_mem_append, Forest.preorder_cons, List.forall_mem_cons,
        List.forall_mem_append]
      refine ⟨?_, fun hunresolved => absurd hunresolved Bool.false_ne_true, ihContent hcontent, ihRest hrest⟩
      unfold leftOver
      split
      · exact fun _ hn => by cases hn
      · rw [Forest.preorder_cons, List.forall_mem_cons, List.forall_mem_append]
        exact ⟨fun _ => rfl, ihInside hinside, fun _ hn => by cases hn⟩

end References

namespace Document

open References

/-- What becomes of the lists of nodes in a document and of what there is to read in them, apart from the resolution of
references and links. -/
structure JoinsPhrases (d : Document) (labels : LabelTable) (words : Words) (cache : Cache) : Prop where
  /-- Phrases go from texts to the resolved references right after them, each reference takes one at most, and texts
  of which nothing is left go; all other nodes stay in their places. -/
  merged : Merged ⟨labels, words, cache⟩ (linked ⟨labels, words, cache⟩ d.children)
    (d.resolve labels words cache).1.children
  /-- The texts and nodes are the same to read. -/
  read_eq : read (d.resolve labels words cache).1.children = read (linked ⟨labels, words, cache⟩ d.children)
  /-- References that are not resolved take no phrase. -/
  phrase?_eq_none : ∀ n ∈ Forest.preorder (d.resolve labels words cache).1.children, n.isUnresolved = true →
    n.phrase? = none

/-- Linking phrases are joined to references without losing text. -/
theorem joinsPhrases {d : Document} (hphrase : ∀ n ∈ Forest.preorder d.children, n.phrase? = none)
    (labels : LabelTable) (words : Words) (cache : Cache) : d.JoinsPhrases labels words cache := by
  obtain ⟨hsettles, hnones⟩ := forall₂_settles (s := ⟨labels, words, cache⟩) hphrase
  have hmerged := merged_joinAll hsettles hnones
  exact ⟨hmerged, hmerged.read_eq, hmerged.phrase?_eq_none (phrase?_linked hphrase)⟩

end Document

namespace FigureReference

def labels : LabelTable := [("a", ⟨"1.1", "a", "figure"⟩)]

/-- A reference after a phrase, one that is all that follows a phrase, and one that leads nowhere. -/
def document : Document :=
  ⟨[⟨.text "See figure~", .none, none, []⟩, ⟨.ref "a" .plain none none, .none, none, []⟩,
    ⟨.text "Figure ", .none, none, []⟩, ⟨.ref "a" .plain none none, .none, none, []⟩,
    ⟨.text "Figure ", .none, none, []⟩, ⟨.ref "b" .plain none none, .none, none, []⟩]⟩

/-- The first text ends in a phrase, and so the first reference takes it. -/
theorem joinsPhrases_document :
    (∀ n ∈ Forest.preorder document.children, n.phrase? = none) ∧
      References.splitPhrase? ⟨labels, .only "figure", .empty "s"⟩ "See figure~" = some ("See ".toList, "figure~".toList) ∧
      document.JoinsPhrases labels (.only "figure") (.empty "s") := by
  have hphrase : ∀ n ∈ Forest.preorder document.children, n.phrase? = none := by decide +kernel
  refine ⟨hphrase, ?_, Document.joinsPhrases hphrase _ _ _⟩
  rw [References.splitPhrase?, Words.splitPhrase?, Words.linkingWords_only (by decide)]
  decide +kernel

end FigureReference

end Manuscript
