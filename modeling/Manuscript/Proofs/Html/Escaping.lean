import Manuscript.Proofs.Html.Pieces
import Manuscript.Proofs.Html.Reading
import Manuscript.Proofs.Numbers

/-!
Escapes in the HTML of a document.  Where nothing that is markup is left as it stands, a reader finds the tags that were
written and, between them, the strings of the document.

Main statement: after all passes only the addresses of a document are not escaped (`isEscaped`).
-/

namespace Manuscript

namespace Html

/-- The characters of markup in the piece that are not escaped. -/
def Piece.unescaped : Piece → List Char
  | .opens true tag => tag.attributes.flatMap fun a => a.2.filter isSpecial
  | .char true c => [c].filter fun c => c ≠ '"' && isSpecial c
  | _ => []

theorem Piece.isSafe_iff (p : Piece) : p.isSafe = true ↔ p.unescaped = [] := by
  cases p with
  | opens isRaw tag =>
      cases isRaw with
      | false => exact iff_of_true rfl rfl
      | true => simp [isSafe, unescaped, List.flatMap_eq_nil_iff, List.filter_eq_nil_iff]
  | closes name => exact iff_of_true rfl rfl
  | char isRaw c =>
      cases isRaw with
      | false => exact iff_of_true rfl rfl
      | true =>
          by_cases hquote : c = '"'
          · simp [isSafe, unescaped, hquote]
          · simp [isSafe, unescaped, hquote]

theorem isSpecial_of_mem_unescaped {p : Piece} {c : Char} (h : c ∈ p.unescaped) : isSpecial c = true := by
  cases p with
  | closes name => cases h
  | opens isRaw tag =>
      cases isRaw with
      | false => cases h
      | true =>
          obtain ⟨a, -, hc⟩ := List.mem_flatMap.mp h
          exact (List.mem_filter.mp hc).2
  | char isRaw d =>
      cases isRaw with
      | false => cases h
      | true => exact (Bool.and_eq_true_iff.mp (List.mem_filter.mp h).2).2

/-- Indentation makes no markup. -/
theorem mem_of_mem_relay {indent : Nat} {t : Text} {c : Char} (hspecial : isSpecial c = true)
    (h : c ∈ relay indent t) : c ∈ t := by
  induction t with
  | nil => exact h
  | cons d t ih =>
      rw [relay] at h
      split at h
      · obtain rfl | h := List.mem_cons.mp h
        · cases hspecial
        · obtain hspace | h := List.mem_append.mp h
          · rw [(List.mem_replicate.mp hspace).2] at hspecial
            cases hspecial
          · exact List.mem_cons_of_mem d (ih h)
      · split at h
        · exact List.mem_cons_of_mem d (ih h)
        · obtain rfl | h := List.mem_cons.mp h
          · exact List.mem_cons_self
          · exact List.mem_cons_of_mem d (ih h)

theorem admits_unescaped (S : Char → Prop) : Admits fun p => ∀ c ∈ p.unescaped, S c := by
  refine ⟨fun _ _ _ hc => absurd hc List.not_mem_nil, fun _ _ _ hc => absurd hc List.not_mem_nil,
    fun _ _ hc => absurd hc List.not_mem_nil, fun indent isRaw tag h c hc => ?_⟩
  cases isRaw with
  | false => cases hc
  | true =>
      obtain ⟨a, ha, hc⟩ := List.mem_flatMap.mp hc
      obtain ⟨b, hb, rfl⟩ := List.mem_map.mp ha
      obtain ⟨hmem, hspecial⟩ := List.mem_filter.mp hc
      exact h c (List.mem_flatMap.mpr ⟨b, hb, List.mem_filter.mpr ⟨mem_of_mem_relay hspecial hmem, hspecial⟩⟩)

theorem unescaped_raw (t : Text) : ∀ p ∈ raw t, ∀ c ∈ p.unescaped, c ∈ t := by
  intro p hp c hc
  obtain ⟨d, hd, rfl⟩ := List.mem_map.mp hp
  obtain rfl := List.mem_singleton.mp (List.mem_filter.mp hc).1
  exact hd

theorem unescaped_urlPieces (place : Place) (t : Text) : ∀ p ∈ urlPieces place t, ∀ c ∈ p.unescaped, c ∈ t := by
  cases place with
  | heading =>
      exact (admits_unescaped (· ∈ t)).plain.wrap (.wrapper .heading (.plain (by decide) (by decide))) (unescaped_raw t)
  | body =>
      refine List.forall_mem_cons.mpr ⟨fun c hc => ?_, List.forall_mem_append.mpr
        ⟨unescaped_raw t, List.forall_mem_singleton.mpr fun c hc => absurd hc List.not_mem_nil⟩⟩
      obtain ⟨a, ha, hc⟩ := List.mem_flatMap.mp hc
      obtain ⟨hmem, hspecial⟩ := List.mem_filter.mp hc
      obtain rfl | ha := List.mem_cons.mp ha
      · exact hmem
      · obtain rfl := List.mem_singleton.mp ha
        have hplain : ("url" : Text).any isSpecial = false := by decide
        exact absurd hspecial (List.any_eq_false.mp hplain c hmem)

theorem plainTexts_eq (l : List Node) : Node.plainTexts l = (Node.textsIn l).flatten := by
  induction l using Forest.induction with
  | nil => rfl
  | cons n rest ihChildren ihRest =>
      obtain ⟨kind, a, number, children⟩ := n
      have ihChildren : Node.plainTexts children = (Node.textsIn children).flatten := ihChildren
      cases kind <;> simp [Node.plainTexts, Node.plainText, Node.textsIn, Node.texts, ihChildren, ihRest]

/-- Where no text of some nodes is markup, none of it is inside any of them. -/
theorem isSpecial_plainTexts {l : List Node} (htext : ∀ t ∈ Node.textsIn l, t.any isSpecial = false) :
    ∀ n ∈ Forest.preorder l, ∀ c ∈ Node.plainTexts n.children, isSpecial c = false := by
  intro n hn c hc
  rw [plainTexts_eq] at hc
  obtain ⟨t, ht, hc⟩ := List.mem_flatten.mp hc
  have htexts := htext t (Forest.textsIn_children_subset hn ht)
  rw [List.any_eq_false] at htexts
  exact Bool.eq_false_of_not_eq_true (htexts c hc)

theorem any_isSpecial_address {l : List Node} (htext : ∀ t ∈ Node.textsIn l, t.any isSpecial = false) {n : Node}
    (hn : n ∈ Forest.preorder l) : (address n).any isSpecial = false := by
  rw [List.any_eq_false]
  intro c hc
  rw [isSpecial_plainTexts htext n hn c ((Text.trim_sublist _).subset hc)]
  exact Bool.false_ne_true

theorem any_isSpecial_codeText {l : List Node} (htext : ∀ t ∈ Node.textsIn l, t.any isSpecial = false) {n : Node}
    (hn : n ∈ Forest.preorder l) : (codeText n).any isSpecial = false := by
  rw [List.any_eq_false]
  intro c hc
  rw [isSpecial_plainTexts htext n hn c ((Text.trimChar_sublist '\n' _).subset hc)]
  exact Bool.false_ne_true

end Html

open Forest Html

namespace Document

/-- All strings of a document are escaped in its HTML, and a reader finds the tags and, between them, the strings. -/
structure EscapesAll (d : Document) (words : Words) (outline : Option Bool) (code : Code) : Prop where
  html_eq : d.html (d.setting words outline) = written ((d.pieces (d.sheet words outline code)).map Piece.escaped)
  tokens_eq : tokens (d.html (d.setting words outline)) = grouped (d.pieces (d.sheet words outline code))

/-- What becomes of the strings of a document in its HTML. -/
structure IsEscaped (d : Document) (words : Words) (outline : Option Bool) (code : Code) : Prop where
  html_eq : d.html (d.setting words outline) = written (d.pieces (d.sheet words outline code))
  escapesAll_iff : d.EscapesAll words outline code ↔
    ∀ p ∈ d.pieces (d.sheet words outline code), p.unescaped = []
  /-- What has no escape is part of an address, -/
  mem_address : ∀ p ∈ d.pieces (d.sheet words outline code), ∀ c ∈ p.unescaped,
    ∃ n ∈ preorder d.children, n.kind = .url ∧ c ∈ address n
  /-- so that with plain addresses all is escaped. -/
  escapesAll : (∀ n ∈ preorder d.children, n.kind = .url → (address n).any isSpecial = false) →
    d.EscapesAll words outline code

variable {d : Document} {code : Code}

/-- Numbers are plain, and the text of code blocks is HTML already. -/
theorem isEscaped_of_plain (words : Words) (outline : Option Bool)
    (hnumber : HaveNumbers (fun t => t.any isSpecial = false) d.children)
    (hcode : ∀ n ∈ preorder d.children, n.kind = .codeBlock →
      ∀ p ∈ code.pieces (codeText n), p.isFormed = true ∧ p.unescaped = []) :
    d.IsEscaped words outline code := by
  have hwritten := d.html_eq_written (fits_sheet d words outline code)
  have hsafe : (d.pieces (d.sheet words outline code)).all Piece.isSafe = true ↔
      ∀ p ∈ d.pieces (d.sheet words outline code), p.unescaped = [] := by
    simp only [List.all_eq_true, Piece.isSafe_iff]
  have hformed : (d.pieces (d.sheet words outline code)).all Piece.isFormed = true :=
    List.all_eq_true.mpr (admits_isFormed.pieces words outline
      (fun n _ _ place => isFormed_urlPieces place _) (fun n hn hkind p hp => (hcode n hn hkind p hp).1)
      fun _ _ number _ => isFormed_raw number)
  have hiff : d.EscapesAll words outline code ↔ ∀ p ∈ d.pieces (d.sheet words outline code), p.unescaped = [] := by
    rw [← hsafe]
    refine ⟨fun h => (written_escaped_iff _).mp (h.html_eq.symm.trans hwritten), fun h => ⟨?_, ?_⟩⟩
    · rw [hwritten, (written_escaped_iff _).mpr h]
    · rw [hwritten, tokens_written hformed h]
  have haddress : ∀ p ∈ d.pieces (d.sheet words outline code), ∀ c ∈ p.unescaped,
      ∃ n ∈ preorder d.children, n.kind = .url ∧ c ∈ address n := by
    let S := fun c => ∃ n ∈ preorder d.children, n.kind = .url ∧ c ∈ address n
    refine (admits_unescaped S).pieces words outline ?_ ?_ ?_
    · exact fun n hn hkind place p hp c hc => ⟨n, hn, hkind, unescaped_urlPieces place _ p hp c hc⟩
    · intro n hn hkind p hp c hc
      rw [(hcode n hn hkind p hp).2] at hc
      exact absurd hc List.not_mem_nil
    · intro n hn number hn' p hp c hc
      have hplain := List.any_eq_false.mp (hnumber n hn number hn') c (unescaped_raw number p hp c hc)
      exact absurd (isSpecial_of_mem_unescaped hc) hplain
  refine ⟨hwritten, hiff, haddress, fun hplain => hiff.mpr fun p hp => ?_⟩
  refine List.eq_nil_iff_forall_not_mem.mpr fun c hc => ?_
  obtain ⟨n, hn, hkind, hmem⟩ := haddress p hp c hc
  exact List.any_eq_false.mp (hplain n hn hkind) c hmem (isSpecial_of_mem_unescaped hc)

theorem any_isSpecial_dotted (ns : List Nat) : (Text.dotted ns).any isSpecial = false := by
  refine List.any_eq_false.mpr fun c hc => ?_
  obtain hdigit | rfl := Text.mem_dotted hc
  · rw [isSpecial_eq_false_of_isDigit hdigit]
    exact Bool.false_ne_true
  · decide

/-- After all passes only the addresses of a document are not escaped. -/
theorem isEscaped (hnumber : HaveNumbers (fun t => t.any isSpecial = false) d.children) (words : Words) (cache : Cache)
    (isArticle : Bool) (style : FootnoteStyle) (outline : Option Bool)
    (hcode : ∀ n ∈ preorder (d.passed words cache isArticle style).children, n.kind = .codeBlock →
      ∀ p ∈ code.pieces (codeText n), p.isFormed = true ∧ p.unescaped = []) :
    (d.passed words cache isArticle style).IsEscaped words outline code :=
  isEscaped_of_plain words outline (haveNumbers_passed any_isSpecial_dotted hnumber words cache isArticle style) hcode

end Document

namespace ColouredCode

/-- A section with markup in its label and title, and coloured code. -/
def source : Text :=
  "<section label='a&amp;b'><title>x &lt; y</title><codeblock>&lt;span class=\"k\">let&lt;/span></codeblock></section>"

def parsed : Document := (Document.parse? source).get (by decide +kernel)

theorem parse_source : Document.parse? source = some parsed := (Option.some_get _).symm

/-- The one piece of coloured code there is. -/
def code : Code where
  pieces t := if t = "<span class=\"k\">let</span>" then wrap "span" [("class", "k")] (shown "let") else Html.raw t
  written_pieces t := by
    split
    · rename_i heq
      rw [heq]
      decide
    · exact written_raw t

def passed : Document := parsed.passed .default (.empty "s") false .numbered

/-- All is escaped, and a reader finds the tags of the section and of the code. -/
theorem escapesAll_passed : passed.IsEscaped .default (some false) code ∧
    passed.EscapesAll .default (some false) code ∧
      tokens (passed.html (passed.setting .default (some false))) =
        [.opens ⟨"div", [("id", "a&b"), ("class", "section")], false⟩, .text "\n  ", .opens ⟨"h2", [], false⟩,
          .opens ⟨"a", [("href", "#a&b"), ("class", "heading")], false⟩, .opens ⟨"span", [("class", "number")], false⟩,
          .text "0.1", .closes "span", .text " x < y", .closes "a", .closes "h2", .text "\n  ",
          .opens ⟨"div", [("class", "code")], false⟩, .text "\n    ", .opens ⟨"span", [("class", "k")], false⟩,
          .text "let", .closes "span", .text "\n  ", .closes "div", .text "\n", .closes "div"] := by
  have hnumber := Document.haveNumbers_of_parse (Q := fun t => t.any isSpecial = false) parse_source
  have hcode : (preorder passed.children).all (fun n => n.kind ≠ .codeBlock ||
      (code.pieces (codeText n)).all fun p => p.isFormed && p.unescaped.isEmpty) = true := by
    decide +kernel
  have hurl : (preorder passed.children).all (fun n => n.kind ≠ .url) = true := by decide +kernel
  have hescaped : passed.IsEscaped .default (some false) code := by
    refine Document.isEscaped hnumber .default (.empty "s") false .numbered (some false) fun n hn hkind p hp => ?_
    have hnode := List.all_eq_true.mp hcode n hn
    simp only [hkind, ne_eq, not_true_eq_false, decide_false, Bool.false_or, List.all_eq_true, Bool.and_eq_true,
      List.isEmpty_iff] at hnode
    exact hnode p hp
  refine ⟨hescaped, hescaped.escapesAll fun n hn hkind => ?_, by decide +kernel⟩
  exact absurd hkind (of_decide_eq_true (List.all_eq_true.mp hurl n hn))

end ColouredCode

namespace OpenAddress

/-- An address with markup in it. -/
def source : Text := "<p><url>http://a?x=1&amp;y=&lt;b></url></p>"

def parsed : Document := (Document.parse? source).get (by decide +kernel)

def passed : Document := parsed.passed .default (.empty "s") false .numbered

/-- The address stands in the HTML as it is, and a reader finds a tag in it. -/
theorem not_escapesAll : passed.html (passed.setting .default none) =
      "<p><a href=\"http://a?x=1&y=<b>\" class=\"url\">http://a?x=1&y=<b></a></p>" ∧
    .opens ⟨"b", [], false⟩ ∈ tokens (passed.html (passed.setting .default none)) ∧
      ¬passed.EscapesAll .default none .raw := by
  have htag : Token.opens ⟨"b", [], false⟩ ∈ tokens (passed.html (passed.setting .default none)) := by decide +kernel
  refine ⟨by decide +kernel, htag, fun h => ?_⟩
  have hnone : Token.opens ⟨"b", [], false⟩ ∉ grouped (passed.pieces (passed.sheet .default none .raw)) := by
    decide +kernel
  exact hnone (h.tokens_eq ▸ htag)

end OpenAddress

end Manuscript
