import Manuscript.Html.Body
import Manuscript.Proofs.Html.Inline
import Manuscript.Proofs.Text.Lines

/-!
Blocks laid out on lines.  What is written as a sequence of steps goes further in with each opening tag and back out
with each closing tag.

Main statements: the lines of some pieces, each of them indented, are pieces again (`relay_written`), and steps
that come back to where they began are laid out one after the other (`Writes.append`, `Writes.element`).
-/

namespace Manuscript.Html

/-- The blanks before a line. -/
def spaces (indent : Nat) : Text := List.replicate (2 * indent) ' '

/-! Lines that are indented once more -/

/-- A text whose lines after the first one are indented. -/
def relay (indent : Nat) : Text → Text
  | [] => []
  | c :: rest =>
    if c = '\n' then '\n' :: (spaces indent ++ relay indent rest)
    else if c = '\r' ∧ rest.head? = some '\n' then relay indent rest
    else c :: relay indent rest

/-- The tag or character with the lines in its attributes after the first one indented. -/
def relayPieces (indent : Nat) : List Piece → List Piece
  | [] => []
  | .opens isRaw tag :: rest =>
    .opens isRaw { tag with attributes := tag.attributes.map fun a => (a.1, relay indent a.2) } ::
      relayPieces indent rest
  | .closes name :: rest => .closes name :: relayPieces indent rest
  | .char isRaw c :: rest =>
    if c = '\n' then .char isRaw '\n' :: (shown (spaces indent) ++ relayPieces indent rest)
    else if c = '\r' ∧ (written rest).head? = some '\n' then relayPieces indent rest
    else .char isRaw c :: relayPieces indent rest

variable {indent : Nat}

theorem relay_append {s t : Text} (h : s.getLast? = some '\r' → t.head? ≠ some '\n') :
    relay indent (s ++ t) = relay indent s ++ relay indent t := by
  induction s with
  | nil => rfl
  | cons c s ih =>
      have hs : s.getLast? = some '\r' → t.head? ≠ some '\n' := by
        intro hlast
        apply h
        rw [List.getLast?_cons, hlast, Option.getD_some]
      have hhead : (c = '\r' ∧ (s ++ t).head? = some '\n') ↔ (c = '\r' ∧ s.head? = some '\n') := by
        cases s with
        | nil =>
            constructor
            · rintro ⟨rfl, ht⟩
              exact absurd ht (h rfl)
            · rintro ⟨-, hnone⟩
              cases hnone
        | cons d s => rfl
      rw [List.cons_append, relay, relay, ih hs]
      split
      · simp
      · by_cases hreturn : c = '\r' ∧ s.head? = some '\n'
        · rw [if_pos (hhead.mpr hreturn), if_pos hreturn]
        · rw [if_neg (hhead.not.mpr hreturn), if_neg hreturn, List.cons_append]

theorem relay_append_of_last {s t : Text} {c : Char} (hlast : s.getLast? = some c) (hc : c ≠ '\r') :
    relay indent (s ++ t) = relay indent s ++ relay indent t :=
  relay_append fun heq => absurd (Option.some.inj (hlast.symm.trans heq)) hc

/-- A single line is left as it is. -/
theorem relay_eq_self {t : Text} (h : '\n' ∉ t) : relay indent t = t := by
  induction t with
  | nil => rfl
  | cons c t ih =>
      have hc : c ≠ '\n' := fun heq => h (heq ▸ List.mem_cons_self)
      have hreturn : ¬(c = '\r' ∧ t.head? = some '\n') := fun hboth =>
        h (List.mem_cons_of_mem c (List.mem_of_head? hboth.2))
      rw [relay, if_neg hc, if_neg hreturn, ih fun hmem => h (List.mem_cons_of_mem c hmem)]

theorem dropReturn_concat (t : Text) : Text.dropReturn (t ++ ['\r']) = t := by
  simp [Text.dropReturn, Text.before?, Text.after?]

theorem dropReturn_eq_self {t : Text} (h : t.getLast? ≠ some '\r') : Text.dropReturn t = t := by
  obtain rfl | ⟨init, c, rfl⟩ := List.eq_nil_or_concat t
  · rfl
  · have hc : '\r' ≠ c := fun heq => h (by rw [List.concat_eq_append, List.getLast?_concat, heq])
    simp [Text.dropReturn, Text.before?, Text.after?, hc]

/-- The first line ends before its carriage return. -/
theorem relay_line {head : Text} (h : '\n' ∉ head) (rest : Text) :
    relay indent (head ++ '\n' :: rest) =
      Text.dropReturn head ++ '\n' :: (spaces indent ++ relay indent rest) := by
  by_cases hreturn : head.getLast? = some '\r'
  · obtain ⟨init, rfl⟩ := List.getLast?_eq_some_iff.mp hreturn
    have hinit : '\n' ∉ init := fun hmem => h (List.mem_append_left _ hmem)
    rw [dropReturn_concat, List.append_assoc, relay_append (by simp), relay_eq_self hinit]
    simp [relay]
  · rw [dropReturn_eq_self hreturn, relay_append fun hlast => absurd hlast hreturn, relay_eq_self h]
    simp [relay]

theorem lines_of_notMem {t : Text} (hne : t ≠ []) (h : '\n' ∉ t) : Text.lines t = [t] := by
  unfold Text.lines
  rw [List.splitOn_eq_singleton h]
  simp [hne]

theorem lines_append {head rest : Text} (h : '\n' ∉ head) :
    Text.lines (head ++ '\n' :: rest) = Text.dropReturn head :: Text.lines rest := by
  unfold Text.lines
  rw [List.splitOn_append_cons_self, List.splitOn_eq_singleton h]
  cases hrest : rest.splitOn '\n' with
  | nil => exact absurd hrest (List.splitOn_ne_nil '\n' rest)
  | cons first more => simp

/-- The lines of a text, each of them indented. -/
theorem flatMap_line {t : Text} (hne : t ≠ []) (hlast : t.getLast? ≠ some '\n') :
    (Text.lines t).flatMap (line indent) = spaces indent ++ relay indent t ++ "\n" := by
  induction hlength : t.length using Nat.strongRecOn generalizing t with
  | ind length ih =>
      by_cases hmem : '\n' ∈ t
      · obtain ⟨head, rest, rfl, hhead⟩ := List.eq_append_cons_of_mem hmem
        have hrest : rest ≠ [] := by
          rintro rfl
          exact hlast (List.getLast?_concat ..)
        have hlastRest : rest.getLast? ≠ some '\n' := by
          intro heq
          apply hlast
          rw [List.getLast?_append, List.getLast?_cons, heq]
          rfl
        have hlines := ih rest.length (by simp at hlength; omega) hrest hlastRest rfl
        rw [lines_append hhead, List.flatMap_cons, hlines, relay_line hhead, line, spaces]
        simp
      · rw [lines_of_notMem hne hmem, relay_eq_self hmem, List.flatMap_singleton, line, spaces]

theorem lineFeed_notMem_of_isName {t : Text} (h : isName t = true) : '\n' ∉ t := by
  cases t with
  | nil => exact List.not_mem_nil
  | cons c t =>
      simp only [isName, Bool.and_eq_true, List.all_eq_true] at h
      intro hmem
      obtain rfl | hmem := List.mem_cons.mp hmem
      · exact absurd h.1 (by decide)
      · exact absurd (h.2 _ hmem) (by decide)

theorem escapes_spaces (indent : Nat) :
    escapeAttribute (spaces indent) = spaces indent ∧ escapeText (spaces indent) = spaces indent := by
  have hplain : (spaces indent).any isSpecial = false := by
    rw [List.any_eq_false]
    intro c hc
    rw [(List.mem_replicate.mp hc).2]
    decide
  exact ⟨(length_escapeAttribute _).2.2 hplain, escapeText_of_plain hplain⟩

/-- An escape is on one line. -/
theorem attributeCharacter_of_isSpecial {c : Char} (h : isSpecial c = true) :
    '\n' ∉ attributeCharacter c ∧ (attributeCharacter c).head? ≠ some '\n' ∧
      (attributeCharacter c).getLast? ≠ some '\r' := by
  simp only [isSpecial, Bool.or_eq_true, beq_iff_eq] at h
  obtain ((rfl | rfl) | rfl) | rfl := h <;> decide

theorem head?_escapeAttribute (t : Text) :
    (escapeAttribute t).head? = some '\n' ↔ t.head? = some '\n' := by
  cases t with
  | nil => exact Iff.rfl
  | cons c t =>
      rw [escapeAttribute, List.flatMap_cons, List.head?_cons]
      cases hc : isSpecial c with
      | false => rw [(attributeCharacter_eq_iff c).mpr hc, List.singleton_append, List.head?_cons]
      | true =>
          have hne : c ≠ '\n' := fun heq => absurd (heq ▸ hc) (by decide)
          obtain ⟨-, hhead, -⟩ := attributeCharacter_of_isSpecial hc
          cases hwritten : attributeCharacter c with
          | nil => exact absurd hwritten (by
              simp only [isSpecial, Bool.or_eq_true, beq_iff_eq] at hc
              obtain ((rfl | rfl) | rfl) | rfl := hc <;> decide)
          | cons d u =>
              rw [hwritten] at hhead
              exact iff_of_false hhead fun heq => hne (Option.some.inj heq)

theorem relay_escapeAttribute (t : Text) :
    relay indent (escapeAttribute t) = escapeAttribute (relay indent t) := by
  induction t with
  | nil => rfl
  | cons c t ih =>
      have hcons : escapeAttribute (c :: t) = attributeCharacter c ++ escapeAttribute t := rfl
      rw [hcons, relay]
      cases hc : isSpecial c with
      | true =>
          obtain ⟨hmem, -, hlast⟩ := attributeCharacter_of_isSpecial hc
          have hfeed : c ≠ '\n' := fun heq => absurd (heq ▸ hc) (by decide)
          have hreturn : c ≠ '\r' := fun heq => absurd (heq ▸ hc) (by decide)
          rw [relay_append fun h => absurd h hlast, relay_eq_self hmem, ih, if_neg hfeed,
            if_neg fun hboth => hreturn hboth.1]
          rfl
      | false =>
          have hwritten := (attributeCharacter_eq_iff c).mpr hc
          rw [hwritten, List.singleton_append, relay, ih]
          by_cases hfeed : c = '\n'
          · subst hfeed
            have hcons : escapeAttribute ('\n' :: (spaces indent ++ relay indent t)) =
                '\n' :: escapeAttribute (spaces indent ++ relay indent t) :=
              rfl
            rw [if_pos rfl, if_pos rfl, hcons, escapeAttribute_append, (escapes_spaces indent).1]
          · simp only [if_neg hfeed, head?_escapeAttribute]
            split
            · rfl
            · rw [escapeAttribute, escapeAttribute, List.flatMap_cons, hwritten]
              rfl

theorem relay_writeAttribute {isRaw : Bool} {attributes : List (Text × Text)}
    (h : attributes.all (fun a => isName a.1) = true) (t : Text) :
    relay indent (attributes.flatMap (writeAttribute isRaw) ++ t) =
      (attributes.map fun a => (a.1, relay indent a.2)).flatMap (writeAttribute isRaw) ++ relay indent t := by
  induction attributes with
  | nil => rfl
  | cons a attributes ih =>
      rw [List.all_cons, Bool.and_eq_true] at h
      rw [List.flatMap_cons, List.map_cons, List.flatMap_cons, List.append_assoc]
      generalize attributes.flatMap (writeAttribute isRaw) ++ t = rest at ih ⊢
      have hstart : '\n' ∉ (" " ++ a.1 ++ "=\"" : Text) := by
        have hname := lineFeed_notMem_of_isName h.1
        simp [hname]
      have hvalue : relay indent (if isRaw then a.2 else escapeAttribute a.2) =
          if isRaw then relay indent a.2 else escapeAttribute (relay indent a.2) := by
        cases isRaw
        · exact relay_escapeAttribute a.2
        · rfl
      have hquote : relay indent ("\"" ++ rest) = "\"" ++ relay indent rest :=
        relay_append (s := ['"']) fun h => absurd h (by decide)
      have hlast : (" " ++ a.1 ++ "=\"" : Text).getLast? = some '"' := by
        rw [List.getLast?_append]
        rfl
      have hwrite : ∀ u : Text × Text, writeAttribute isRaw u =
          " " ++ u.1 ++ "=\"" ++ (if isRaw then u.2 else escapeAttribute u.2) ++ "\"" := fun _ => rfl
      rw [hwrite a, hwrite (a.1, relay indent a.2), List.append_assoc, List.append_assoc,
        relay_append_of_last hlast (by decide), relay_eq_self hstart, relay_append fun _ => by simp, hvalue, hquote,
        ih h.2]
      simp only [List.append_assoc]

/-- The lines of some pieces, each of them indented, are pieces again. -/
theorem relay_written {ps : List Piece} (h : ps.all Piece.isFormed = true) :
    relay indent (written ps) = written (relayPieces indent ps) := by
  induction ps with
  | nil => rfl
  | cons p ps ih =>
      rw [List.all_cons, Bool.and_eq_true] at h
      have hrest := ih h.2
      rw [written_cons]
      cases p with
      | closes name =>
          have hname : '\n' ∉ (Piece.closes name).write := by
            have hmem := lineFeed_notMem_of_isName h.1
            simp [Piece.write, hmem]
          have hlast : (Piece.closes name).write.getLast? = some '>' := by
            rw [Piece.write, List.getLast?_append]
            rfl
          rw [relay_append_of_last hlast (by decide), relay_eq_self hname, hrest, relayPieces, written_cons]
      | opens isRaw tag =>
          simp only [Piece.isFormed, Bool.and_eq_true] at h
          have hname : '\n' ∉ ("<" ++ tag.name : Text) := by
            have hmem := lineFeed_notMem_of_isName h.1.1.1
            simp [hmem]
          have hhead : (tagEnd tag.isClosed ++ written ps).head? ≠ some '\n' := by
            cases tag.isClosed <;> simp [tagEnd]
          have hattributes : (tag.attributes.flatMap (writeAttribute isRaw) ++
              (tagEnd tag.isClosed ++ written ps)).head? ≠ some '\n' := by
            cases tag.attributes with
            | nil => exact hhead
            | cons a attributes => simp [writeAttribute]
          have hend : relay indent (tagEnd tag.isClosed ++ written ps) =
              tagEnd tag.isClosed ++ written (relayPieces indent ps) := by
            rw [relay_append (by cases tag.isClosed <;> simp [tagEnd]), hrest]
            cases tag.isClosed <;> rfl
          rw [Piece.write, List.append_assoc, List.append_assoc, relay_append fun _ => hattributes,
            relay_eq_self hname, relay_writeAttribute h.1.1.2, hend, relayPieces, written_cons, Piece.write]
          simp only [List.append_assoc]
      | char isRaw c =>
          obtain hwrite | ⟨hspecial, hwrite⟩ := Piece.write_char isRaw c
          · have hwrite' : ∀ ps, written (.char isRaw c :: ps) = c :: written ps := fun ps => by
              rw [written_cons, hwrite, List.singleton_append]
            rw [hwrite, List.singleton_append, relay, relayPieces]
            by_cases hfeed : c = '\n'
            · subst hfeed
              rw [if_pos rfl, if_pos rfl, hwrite', written_append, written_shown, (escapes_spaces indent).2, hrest]
            · simp only [if_neg hfeed]
              split
              · exact hrest
              · rw [hwrite', hrest]
          · obtain ⟨hmem, -, hlast⟩ := attributeCharacter_of_isSpecial hspecial
            have hfeed : c ≠ '\n' := fun heq => absurd (heq ▸ hspecial) (by decide)
            have hreturn : c ≠ '\r' := fun heq => absurd (heq ▸ hspecial) (by decide)
            rw [relay_append fun heq => absurd heq (hwrite ▸ hlast), relay_eq_self (hwrite ▸ hmem), hrest, relayPieces,
              if_neg hfeed, if_neg fun hboth => hreturn hboth.1, written_cons]

/-! Steps -/

/-- What a block is written as: tags on lines of their own and lines within a block. -/
inductive Step where
  | opens (tag : Tag)
  | closes (name : Text)
  | line (ps : List Piece)
  /-- Several lines, of which each is indented. -/
  | lines (ps : List Piece)

/-- The steps of a block. -/
def elementSteps (name : Text) (attributes : List (Text × Text)) (content : List Step) : List Step :=
  .opens ⟨name, attributes, false⟩ :: (content ++ [.closes name])

/-- How far in the writer is after some steps, if it never has to go out further than it can. -/
def indentAfter : (indent : Nat) → List Step → Option Nat
  | indent, [] => some indent
  | indent, .opens _ :: rest => indentAfter (indent + 1) rest
  | indent + 1, .closes _ :: rest => indentAfter indent rest
  | 0, .closes _ :: _ => none
  | indent, .line _ :: rest | indent, .lines _ :: rest => indentAfter indent rest

/-- A line at some indentation. -/
def linePieces (indent : Nat) (ps : List Piece) : List Piece := shown (spaces indent) ++ ps ++ [.char false '\n']

/-- The pieces of some steps, from some indentation on. -/
def laidOut : (indent : Nat) → List Step → List Piece
  | _, [] => []
  | indent, .opens tag :: rest => linePieces indent [.opens false tag] ++ laidOut (indent + 1) rest
  | indent, .closes name :: rest => linePieces (indent - 1) [.closes name] ++ laidOut (indent - 1) rest
  | indent, .line ps :: rest => linePieces indent ps ++ laidOut indent rest
  | indent, .lines ps :: rest => linePieces indent (relayPieces indent ps) ++ laidOut indent rest

theorem indentAfter_append (indent : Nat) (steps more : List Step) :
    indentAfter indent (steps ++ more) = (indentAfter indent steps).bind fun n => indentAfter n more := by
  fun_induction indentAfter indent steps with
  | case1 => rfl
  | case2 indent tag rest ih => exact ih
  | case3 indent name rest ih => exact ih
  | case4 => rfl
  | case5 indent ps rest ih => cases indent <;> exact ih
  | case6 indent ps rest ih => cases indent <;> exact ih

theorem laidOut_append {indent inner : Nat} {steps : List Step} (h : indentAfter indent steps = some inner)
    (more : List Step) : laidOut indent (steps ++ more) = laidOut indent steps ++ laidOut inner more := by
  fun_induction indentAfter indent steps with
  | case1 indent =>
      obtain rfl := Option.some.inj h
      rfl
  | case4 => cases h
  | case2 indent tag rest ih | case3 indent name rest ih | case5 indent ps rest ih | case6 indent ps rest ih =>
      rw [List.cons_append, laidOut, laidOut, List.append_assoc]
      exact congrArg _ (ih h)

/-- What steps write ends with a line feed. -/
theorem exists_laidOut_eq_concat (indent : Nat) {steps : List Step} (hne : steps ≠ []) :
    ∃ init, laidOut indent steps = init ++ [.char false '\n'] := by
  induction steps generalizing indent with
  | nil => exact absurd rfl hne
  | cons step rest ih =>
      obtain ⟨ps, inner, hcons⟩ : ∃ ps inner, laidOut indent (step :: rest) =
          ps ++ [.char false '\n'] ++ laidOut inner rest := by
        cases step <;> exact ⟨_, _, rfl⟩
      rw [hcons]
      cases rest with
      | nil => exact ⟨ps, List.append_nil _⟩
      | cons next rest =>
          obtain ⟨init, hinit⟩ := ih inner (List.cons_ne_nil next rest)
          exact ⟨ps ++ [.char false '\n'] ++ init, by rw [hinit, List.append_assoc _ init]⟩

theorem written_linePieces (indent : Nat) (ps : List Piece) :
    written (linePieces indent ps) = line indent (written ps) := by
  rw [linePieces, written_append, written_append, written_shown, (escapes_spaces indent).2]
  rfl

/-- The steps come back to where they began. -/
def IsLevel (steps : List Step) : Prop := ∀ indent, indentAfter indent steps = some indent

namespace IsLevel

theorem nil : IsLevel [] := fun _ => rfl

theorem line (ps : List Piece) : IsLevel [.line ps] := fun indent => by cases indent <;> rfl

theorem lines (ps : List Piece) : IsLevel [.lines ps] := fun indent => by cases indent <;> rfl

variable {steps more : List Step}

theorem append (h : IsLevel steps) (h' : IsLevel more) : IsLevel (steps ++ more) := by
  intro indent
  rw [indentAfter_append, h indent, Option.bind_some, h' indent]

theorem element (h : IsLevel steps) (name : Text) (attributes : List (Text × Text)) :
    IsLevel (elementSteps name attributes steps) := by
  intro indent
  rw [elementSteps, indentAfter, indentAfter_append, h (indent + 1), Option.bind_some]
  rfl

theorem laidOut_append (h : IsLevel steps) (indent : Nat) (more : List Step) :
    laidOut indent (steps ++ more) = laidOut indent steps ++ laidOut indent more :=
  Html.laidOut_append (h indent) more

/-- The content of a block is one step further in. -/
theorem laidOut_element (h : IsLevel steps) (indent : Nat) (name : Text) (attributes : List (Text × Text)) :
    laidOut indent (elementSteps name attributes steps) =
      linePieces indent [.opens false ⟨name, attributes, false⟩] ++
        (laidOut (indent + 1) steps ++ linePieces indent [.closes name]) := by
  rw [elementSteps, laidOut, h.laidOut_append (indent + 1), laidOut, laidOut, List.append_nil, Nat.add_sub_cancel]

end IsLevel

/-- The steps come back to where they began, and this is what they write. -/
structure Writes (steps : List Step) (t : Nat → Text) : Prop where
  isLevel : IsLevel steps
  written_eq : ∀ indent, written (laidOut indent steps) = t indent

namespace Writes

theorem nil : Writes [] fun _ => [] := ⟨.nil, fun _ => rfl⟩

theorem line {ps : List Piece} {t : Text} (h : written ps = t) :
    Writes [.line ps] fun indent => Html.line indent t := by
  refine ⟨.line ps, fun indent => ?_⟩
  rw [laidOut, laidOut, List.append_nil, written_linePieces, h]

theorem lines {ps : List Piece} (hformed : ps.all Piece.isFormed = true) (hne : written ps ≠ [])
    (hlast : (written ps).getLast? ≠ some '\n') :
    Writes [.lines ps] fun indent => (Text.lines (written ps)).flatMap (Html.line indent) := by
  refine ⟨.lines ps, fun indent => ?_⟩
  rw [laidOut, laidOut, List.append_nil, written_linePieces, ← relay_written hformed, flatMap_line hne hlast]
  rfl

variable {steps more : List Step} {t u : Nat → Text}

theorem append (h : Writes steps t) (h' : Writes more u) :
    Writes (steps ++ more) fun indent => t indent ++ u indent := by
  refine ⟨h.isLevel.append h'.isLevel, fun indent => ?_⟩
  rw [h.isLevel.laidOut_append, written_append, h.written_eq, h'.written_eq]

theorem flatMap {α : Type} {steps : α → List Step} {t : α → Nat → Text} (h : ∀ a, Writes (steps a) (t a)) (l : List α) :
    Writes (l.flatMap steps) fun indent => l.flatMap fun a => t a indent := by
  induction l with
  | nil => exact nil
  | cons a l ih =>
      simp only [List.flatMap_cons]
      exact (h a).append ih

theorem element {name shown : Text} {attributes : List (Text × Text)}
    (hattributes : attributes.flatMap (writeAttribute false) = shown) (h : Writes steps t) :
    Writes (elementSteps name attributes steps) fun indent => Html.element indent name shown (t (indent + 1)) := by
  refine ⟨h.isLevel.element name attributes, fun indent => ?_⟩
  rw [h.isLevel.laidOut_element, written_append, written_append, h.written_eq, written_linePieces, written_linePieces,
    ← hattributes]
  simp [Html.element, Piece.write, tagEnd]

end Writes

end Manuscript.Html
