import Manuscript.Html.Inline
import Manuscript.Html.Token
import Manuscript.Proofs.Text.Trim

/-!
HTML before it is written: tags and characters, most of them to be escaped.

Main statements: blanks are trimmed off pieces as they are off the text (`trim_written`), and pieces are written as if
all of them were escaped exactly if no piece that is not escaped holds a character of markup (`written_escaped_iff`).
-/

namespace Manuscript.Html

/-- Is the character markup in a text or, as a quotation mark is, in an attribute? -/
def isSpecial (c : Char) : Bool := c == '&' || c == '<' || c == '>' || c == '"'

/-- The names of elements and attributes: small letters, then digits and hyphens, too. -/
def isName : Text → Bool
  | [] => false
  | c :: rest => c.isLower && rest.all fun c => c.isLower || c.isDigit || c == '-'

/-- A tag or a character.  What is raw is written without escapes. -/
inductive Piece where
  | opens (isRaw : Bool) (tag : Tag)
  | closes (name : Text)
  | char (isRaw : Bool) (c : Char)
  deriving DecidableEq

/-- An attribute in a tag. -/
def writeAttribute (isRaw : Bool) (a : Text × Text) : Text :=
  " " ++ a.1 ++ "=\"" ++ (if isRaw then a.2 else escapeAttribute a.2) ++ "\""

/-- The end of an opening tag. -/
def tagEnd (isClosed : Bool) : Text := if isClosed then " />" else ">"

namespace Piece

/-- The piece in HTML. -/
def write : Piece → Text
  | .opens isRaw tag =>
    "<" ++ tag.name ++ tag.attributes.flatMap (writeAttribute isRaw) ++ tagEnd tag.isClosed
  | .closes name => "</" ++ name ++ ">"
  | .char isRaw c => if isRaw then [c] else textCharacter c

/-- The piece with all of it escaped. -/
def escaped : Piece → Piece
  | .opens _ tag => .opens false tag
  | .closes name => .closes name
  | .char _ c => .char false c

/-- Nothing that is raw in the piece needs to be escaped. -/
def isSafe : Piece → Bool
  | .opens isRaw tag => !isRaw || tag.attributes.all fun a => !a.2.any isSpecial
  | .closes _ => true
  | .char isRaw c => !isRaw || c == '"' || !isSpecial c

/-- The names in the piece are names, and no two of its attributes have one name. -/
def isFormed : Piece → Bool
  | .opens _ tag =>
    isName tag.name && tag.attributes.all (fun a => isName a.1) && decide (tag.attributes.map Prod.fst).Nodup
  | .closes name => isName name
  | .char _ _ => true

def isBlank : Piece → Bool
  | .char _ c => Manuscript.isBlank c
  | _ => false

end Piece

/-- The pieces in HTML, one after the other. -/
def written (ps : List Piece) : Text := ps.flatMap Piece.write

@[simp] theorem written_nil : written [] = [] := rfl

@[simp] theorem written_cons (p : Piece) (ps : List Piece) : written (p :: ps) = p.write ++ written ps := rfl

@[simp] theorem written_append (ps qs : List Piece) : written (ps ++ qs) = written ps ++ written qs :=
  List.flatMap_append

theorem written_flatMap {α : Type} (f : α → List Piece) (l : List α) :
    written (l.flatMap f) = l.flatMap fun a => written (f a) :=
  List.flatMap_assoc

/-- Running text. -/
def shown (t : Text) : List Piece := t.map (.char false)

/-- Text that is not escaped. -/
def raw (t : Text) : List Piece := t.map (.char true)

@[simp] theorem written_shown (t : Text) : written (shown t) = escapeText t :=
  List.flatMap_map ..

@[simp] theorem written_raw (t : Text) : written (raw t) = t := by
  rw [written, raw, List.flatMap_map]
  exact List.flatMap_singleton' t

/-- An element around some pieces. -/
def wrap (name : Text) (attributes : List (Text × Text)) (content : List Piece) : List Piece :=
  .opens false ⟨name, attributes, false⟩ :: (content ++ [.closes name])

/-- The id and classes of a node, after a class that all nodes of its kind have. -/
def attributesOf (a : Attrs) (base : Option Text) : List (Text × Text) :=
  let classes := base.toList ++ a.classes
  let id := a.id.map fun id => (("id" : Text), id)
  id.toList ++ if classes.isEmpty then [] else [(("class" : Text), Text.join " " classes)]

theorem writeAttribute_id (t : Text) :
    writeAttribute false ("id", t) = " id=\"" ++ escapeAttribute t ++ "\"" := by
  simp [writeAttribute]

theorem writeAttribute_class (t : Text) :
    writeAttribute false ("class", t) = " class=\"" ++ escapeAttribute t ++ "\"" := by
  simp [writeAttribute]

theorem attrs_eq (a : Attrs) (base : Option Text) :
    attrs a base = (attributesOf a base).flatMap (writeAttribute false) := by
  simp only [attrs, attributesOf, List.flatMap_append]
  congr 1
  · cases a.id with
    | none => rfl
    | some id => simp only [Option.map_some, Option.toList_some, List.flatMap_singleton, writeAttribute_id]
  · cases (base.toList ++ a.classes).isEmpty with
    | true => rfl
    | false => simp only [Bool.false_eq_true, if_false, List.flatMap_singleton, writeAttribute_class]

theorem written_wrap (name : Text) (attributes : List (Text × Text)) (content : List Piece) :
    written (wrap name attributes content) =
      "<" ++ name ++ attributes.flatMap (writeAttribute false) ++ ">" ++ written content ++ "</" ++ name ++ ">" := by
  simp [wrap, Piece.write, tagEnd]

/-! Blanks -/

theorem textCharacter_eq_or (c : Char) : textCharacter c = [c] ∨
    isSpecial c = true ∧ ∃ t, textCharacter c = '&' :: t ++ [';'] := by
  unfold textCharacter
  split
  · exact .inr ⟨by decide, "amp", by simp⟩
  · exact .inr ⟨by decide, "lt", by simp⟩
  · exact .inr ⟨by decide, "gt", by simp⟩
  · exact .inl rfl

theorem isBlank_eq_false_of_isSpecial {c : Char} (h : isSpecial c = true) : isBlank c = false := by
  simp only [isSpecial, Bool.or_eq_true, beq_iff_eq] at h
  obtain ((rfl | rfl) | rfl) | rfl := h <;> decide

/-- What is no blank begins and ends with no blank when it is written. -/
theorem Piece.exists_write (p : Piece) :
    (∃ c, p.write = [c] ∧ Manuscript.isBlank c = p.isBlank) ∨
      p.isBlank = false ∧ ∃ first t last, p.write = first :: t ++ [last] ∧ Manuscript.isBlank first = false ∧
        Manuscript.isBlank last = false := by
  cases p with
  | opens isRaw tag =>
      refine .inr ⟨rfl, '<', tag.name ++ tag.attributes.flatMap (writeAttribute isRaw) ++
        (tagEnd tag.isClosed).dropLast, '>', ?_, by decide, by decide⟩
      cases hclosed : tag.isClosed <;> simp [Piece.write, tagEnd, hclosed]
  | closes name => exact .inr ⟨rfl, '<', '/' :: name, '>', by simp [Piece.write], by decide, by decide⟩
  | char isRaw c =>
      cases isRaw with
      | true => exact .inl ⟨c, rfl, rfl⟩
      | false =>
          obtain heq | ⟨hspecial, t, heq⟩ := textCharacter_eq_or c
          · exact .inl ⟨c, heq, rfl⟩
          · exact .inr ⟨isBlank_eq_false_of_isSpecial hspecial, '&', t, ';', heq, by decide, by decide⟩

theorem isBlankOnly_written (ps : List Piece) : Text.isBlankOnly (written ps) = ps.all Piece.isBlank := by
  unfold Text.isBlankOnly
  induction ps with
  | nil => rfl
  | cons p ps ih =>
      rw [written_cons, List.all_append, ih, List.all_cons]
      obtain ⟨c, hwrite, hblank⟩ | ⟨hblank, first, t, last, hwrite, hfirst, -⟩ := p.exists_write
      · rw [hwrite, ← hblank, List.all_cons, List.all_nil, Bool.and_true]
      · rw [hwrite, hblank, List.cons_append, List.all_cons, hfirst, Bool.false_and]

/-- The pieces without the blanks at either end. -/
def trimPieces (ps : List Piece) : List Piece := ((ps.dropWhile Piece.isBlank).reverse.dropWhile Piece.isBlank).reverse

theorem dropWhile_written (ps : List Piece) :
    (written ps).dropWhile isBlank = written (ps.dropWhile Piece.isBlank) := by
  induction ps with
  | nil => rfl
  | cons p ps ih =>
      rw [written_cons]
      obtain ⟨c, hwrite, hblank⟩ | ⟨hblank, first, t, last, hwrite, hfirst, -⟩ := p.exists_write
      · rw [hwrite, List.singleton_append]
        cases hp : p.isBlank with
        | true => rw [List.dropWhile_cons_of_pos (hblank.trans hp), List.dropWhile_cons_of_pos hp, ih]
        | false =>
            rw [List.dropWhile_cons_of_neg (by simp [hblank, hp]), List.dropWhile_cons_of_neg (by simp [hp]),
              written_cons, hwrite, List.singleton_append]
      · rw [List.dropWhile_cons_of_neg (by simp [hblank]), written_cons, hwrite, List.cons_append, List.cons_append,
          List.dropWhile_cons_of_neg (by simp [hfirst])]

theorem reverse_written_concat (p : Piece) (ps : List Piece) :
    (written (ps ++ [p])).reverse = p.write.reverse ++ (written ps).reverse := by
  simp

theorem trimEnd_written (ps : List Piece) :
    Text.trimEnd (written ps) = written (ps.reverse.dropWhile Piece.isBlank).reverse := by
  unfold Text.trimEnd Text.trimEndWhere
  induction ps using List.reverseRecOn with
  | nil => rfl
  | append_singleton ps p ih =>
      rw [reverse_written_concat, List.reverse_append, List.reverse_singleton, List.singleton_append]
      obtain ⟨c, hwrite, hblank⟩ | ⟨hblank, first, t, last, hwrite, -, hlast⟩ := p.exists_write
      · rw [hwrite, List.reverse_singleton, List.singleton_append]
        cases hp : p.isBlank with
        | true => rw [List.dropWhile_cons_of_pos (hblank.trans hp), List.dropWhile_cons_of_pos hp, ih]
        | false =>
            rw [List.dropWhile_cons_of_neg (by simp [hblank, hp]), List.dropWhile_cons_of_neg (by simp [hp])]
            simp [hwrite]
      · rw [List.dropWhile_cons_of_neg (by simp [hblank]), hwrite, List.reverse_append, List.reverse_singleton,
          List.singleton_append, List.cons_append, List.dropWhile_cons_of_neg (by simp [hlast])]
        simp [hwrite]

/-- Blanks are trimmed off pieces as they are off the text. -/
theorem trim_written (ps : List Piece) : Text.trim (written ps) = written (trimPieces ps) := by
  rw [Text.trim, Text.trimStart, dropWhile_written, trimEnd_written, trimPieces]

theorem trimPieces_sublist (ps : List Piece) : (trimPieces ps).Sublist ps := by
  have hend := (List.dropWhile_sublist Piece.isBlank (l := (ps.dropWhile Piece.isBlank).reverse)).reverse
  rw [List.reverse_reverse] at hend
  exact hend.trans (List.dropWhile_sublist _)

section

variable {α : Type} {f : Piece → Option α}

theorem filterMap_shown (hf : ∀ isRaw c, f (.char isRaw c) = none) (t : Text) : (shown t).filterMap f = [] := by
  refine List.filterMap_eq_nil_iff.mpr fun p hp => ?_
  obtain ⟨c, -, rfl⟩ := List.mem_map.mp hp
  exact hf false c

theorem filterMap_raw (hf : ∀ isRaw c, f (.char isRaw c) = none) (t : Text) : (raw t).filterMap f = [] := by
  refine List.filterMap_eq_nil_iff.mpr fun p hp => ?_
  obtain ⟨c, -, rfl⟩ := List.mem_map.mp hp
  exact hf true c

theorem filterMap_blank (hf : ∀ isRaw c, f (.char isRaw c) = none) {ps : List Piece}
    (h : ∀ p ∈ ps, p.isBlank = true) : ps.filterMap f = [] := by
  refine List.filterMap_eq_nil_iff.mpr fun p hp => ?_
  have hp := h p hp
  cases p with
  | char isRaw c => exact hf isRaw c
  | _ => cases hp

/-- Only characters are trimmed off. -/
theorem filterMap_trimPieces (hf : ∀ isRaw c, f (.char isRaw c) = none) (ps : List Piece) :
    (trimPieces ps).filterMap f = ps.filterMap f := by
  have hdrop : ∀ ps : List Piece, (ps.dropWhile Piece.isBlank).filterMap f = ps.filterMap f := by
    intro ps
    have hblank := filterMap_blank hf fun p hp => List.mem_takeWhile_imp (l := ps) hp
    calc
      (ps.dropWhile Piece.isBlank).filterMap f
        = (ps.takeWhile Piece.isBlank).filterMap f ++ (ps.dropWhile Piece.isBlank).filterMap f := by
          rw [hblank, List.nil_append]
      _ = ps.filterMap f := by rw [← List.filterMap_append, List.takeWhile_append_dropWhile]
  rw [trimPieces, List.filterMap_reverse, hdrop, List.filterMap_reverse, hdrop, List.reverse_reverse]

end

/-! Escapes -/

theorem textCharacter_eq_iff (c : Char) : textCharacter c = [c] ↔ c = '"' ∨ isSpecial c = false := by
  unfold textCharacter isSpecial
  split
  · simp
  · simp
  · simp
  · rename_i hamp hlt hgt
    simp [beq_false_of_ne hamp, beq_false_of_ne hlt, beq_false_of_ne hgt, Classical.em]

theorem attributeCharacter_eq_iff (c : Char) : attributeCharacter c = [c] ↔ isSpecial c = false := by
  unfold attributeCharacter
  split
  · simp [isSpecial]
  · rename_i hquote
    rw [textCharacter_eq_iff]
    exact or_iff_right hquote

theorem attributeCharacter_eq_or (c : Char) :
    attributeCharacter c = [c] ∨ 1 < (attributeCharacter c).length := by
  unfold attributeCharacter
  split
  · exact .inr (by decide)
  · obtain heq | ⟨-, t, heq⟩ := textCharacter_eq_or c
    · exact .inl heq
    · exact .inr (by simp [heq])

/-- A character is written as it is, or it is special and escaped. -/
theorem Piece.write_char (isRaw : Bool) (c : Char) :
    (Piece.char isRaw c).write = [c] ∨ isSpecial c = true ∧ (Piece.char isRaw c).write = attributeCharacter c := by
  cases isRaw with
  | true => exact .inl rfl
  | false =>
      by_cases hquote : c = '"'
      · exact .inl ((textCharacter_eq_iff c).mpr (.inl hquote))
      · cases hspecial : isSpecial c with
        | false => exact .inl ((textCharacter_eq_iff c).mpr (.inr hspecial))
        | true =>
            refine .inr ⟨rfl, ?_⟩
            unfold attributeCharacter
            split
            · exact absurd rfl hquote
            · rfl

/-- An attribute value that is escaped is no shorter, and it is as long only if nothing is escaped in it. -/
theorem length_escapeAttribute (t : Text) :
    t.length ≤ (escapeAttribute t).length ∧
      ((escapeAttribute t).length = t.length → t.any isSpecial = false) ∧
      (t.any isSpecial = false → escapeAttribute t = t) := by
  unfold escapeAttribute
  induction t with
  | nil => simp
  | cons c t ih =>
      obtain ⟨hle, hsafe, heq⟩ := ih
      rw [List.flatMap_cons, List.length_append, List.length_cons, List.any_cons]
      obtain hc | hc := attributeCharacter_eq_or c
      · rw [hc, (attributeCharacter_eq_iff c).mp hc, List.length_singleton, Bool.false_or, List.singleton_append]
        exact ⟨by omega, fun h => hsafe (by omega), fun h => congrArg _ (heq h)⟩
      · refine ⟨by omega, fun h => absurd h (by omega), fun h => ?_⟩
        rw [Bool.or_eq_false_iff] at h
        rw [(attributeCharacter_eq_iff c).mpr h.1] at hc
        exact absurd hc (Nat.lt_irrefl 1)

/-- The same of attributes. -/
theorem length_writeAttribute (attributes : List (Text × Text)) :
    (attributes.flatMap (writeAttribute true)).length ≤ (attributes.flatMap (writeAttribute false)).length ∧
      ((attributes.flatMap (writeAttribute false)).length = (attributes.flatMap (writeAttribute true)).length →
        attributes.all (fun a => !a.2.any isSpecial) = true) ∧
      (attributes.all (fun a => !a.2.any isSpecial) = true →
        attributes.flatMap (writeAttribute false) = attributes.flatMap (writeAttribute true)) := by
  induction attributes with
  | nil => simp
  | cons a attributes ih =>
      obtain ⟨hle, hsafe, heq⟩ := ih
      obtain ⟨hvalue, hsafeValue, heqValue⟩ := length_escapeAttribute a.2
      have hraw : (writeAttribute true a).length = 4 + a.1.length + a.2.length := by
        simp [writeAttribute]
        omega
      have hescaped : (writeAttribute false a).length = 4 + a.1.length + (escapeAttribute a.2).length := by
        simp [writeAttribute]
        omega
      simp only [List.flatMap_cons, List.length_append, List.all_cons, Bool.and_eq_true, Bool.not_eq_true']
      refine ⟨by omega, fun h => ⟨hsafeValue (by omega), hsafe (by omega)⟩, fun h => ?_⟩
      have hwrite : writeAttribute false a = writeAttribute true a := by
        simp [writeAttribute, heqValue h.1]
      rw [heq h.2, hwrite]

/-- The same of a piece. -/
theorem Piece.length_escaped (p : Piece) :
    p.write.length ≤ p.escaped.write.length ∧
      (p.escaped.write.length = p.write.length → p.isSafe = true) ∧
      (p.isSafe = true → p.escaped.write = p.write) := by
  cases p with
  | closes name => exact ⟨Nat.le_refl _, fun _ => rfl, fun _ => rfl⟩
  | char isRaw c =>
      cases isRaw with
      | false => exact ⟨Nat.le_refl _, fun _ => rfl, fun _ => rfl⟩
      | true =>
          have hsafe : (Piece.char true c).isSafe = true ↔ textCharacter c = [c] := by
            rw [textCharacter_eq_iff]
            simp [isSafe]
          rw [hsafe]
          obtain heq | ⟨-, t, heq⟩ := textCharacter_eq_or c
          · exact ⟨by simp [escaped, write, heq], fun _ => heq, fun h => h⟩
          · exact ⟨by simp [escaped, write, heq], fun h => absurd h (by simp [escaped, write, heq]), fun h => h⟩
  | opens isRaw tag =>
      cases isRaw with
      | false => exact ⟨Nat.le_refl _, fun _ => rfl, fun _ => rfl⟩
      | true =>
          obtain ⟨hle, hsafe, heq⟩ := length_writeAttribute tag.attributes
          simp only [write, escaped, isSafe, List.length_append, Bool.not_true, Bool.false_or]
          exact ⟨by omega, fun h => hsafe (by omega), fun h => by rw [heq h]⟩

/-- All that is written is escaped exactly if no piece that is raw needs it. -/
theorem written_escaped_iff (ps : List Piece) :
    written (ps.map Piece.escaped) = written ps ↔ ps.all Piece.isSafe = true := by
  have hlength : (written ps).length ≤ (written (ps.map Piece.escaped)).length ∧
      ((written (ps.map Piece.escaped)).length = (written ps).length → ps.all Piece.isSafe = true) ∧
      (ps.all Piece.isSafe = true → written (ps.map Piece.escaped) = written ps) := by
    induction ps with
    | nil => exact ⟨Nat.le_refl _, fun _ => rfl, fun _ => rfl⟩
    | cons p ps ih =>
        obtain ⟨hle, hsafe, heq⟩ := ih
        obtain ⟨hle', hsafe', heq'⟩ := p.length_escaped
        simp only [List.map_cons, written_cons, List.length_append, List.all_cons, Bool.and_eq_true]
        exact ⟨by omega, fun h => ⟨hsafe' (by omega), hsafe (by omega)⟩, fun h => by rw [heq' h.1, heq h.2]⟩
  exact ⟨fun h => hlength.2.1 (congrArg List.length h), hlength.2.2⟩

end Manuscript.Html
