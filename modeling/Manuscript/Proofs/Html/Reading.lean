import Manuscript.Proofs.Html.Inline
import Manuscript.Proofs.Text.Trim

/-!
HTML read back.  Where names are names and what is raw needs no escape, a reader finds the tags that were written and,
between them, the texts that were to be shown.

Main statement: the tokens of what is written are its tags and texts (`tokens_written`).
-/

namespace Manuscript.Html

/-- The tokens of a text. -/
def tokens (t : Text) : List Token :=
  match token? false t with
  | none => []
  | some (token, rest) => if rest.length < t.length then token :: tokens rest else [token]
termination_by t.length

/-- A tag as it is read: no null comes through in an attribute. -/
def Tag.read (tag : Tag) : Tag := { tag with attributes := tag.attributes.map fun a => (a.1, a.2.map replaceNull) }

/-- The tags and texts that some pieces show. -/
def grouped : List Piece → List Token
  | [] => []
  | .opens _ tag :: rest => .opens tag.read :: grouped rest
  | .closes name :: rest => .closes name :: grouped rest
  | .char _ c :: rest =>
    match grouped rest with
    | .text t :: more => .text (c :: t) :: more
    | more => .text [c] :: more

/-! Names -/

/-- Small letters, digits and hyphens. -/
def isNameCharacter (c : Char) : Bool := c.isLower || c.isDigit || c == '-'

theorem forall_of_isName {t : Text} (h : isName t = true) : ∀ c ∈ t, isNameCharacter c = true := by
  cases t with
  | nil => exact fun c hc => absurd hc List.not_mem_nil
  | cons c t =>
      simp only [isName, Bool.and_eq_true, List.all_eq_true] at h
      intro d hd
      obtain rfl | hd := List.mem_cons.mp hd
      · simp [isNameCharacter, h.1]
      · exact h.2 d hd

theorem toNat_of_isNameCharacter {c : Char} (h : isNameCharacter c = true) :
    97 ≤ c.toNat ∧ c.toNat ≤ 122 ∨ 48 ≤ c.toNat ∧ c.toNat ≤ 57 ∨ c.toNat = 45 := by
  have hbetween {first last : UInt32} (h : first ≤ c.val ∧ c.val ≤ last) :
      first.toNat ≤ c.toNat ∧ c.toNat ≤ last.toNat :=
    h.imp UInt32.le_iff_toNat_le.mp UInt32.le_iff_toNat_le.mp
  simp only [isNameCharacter, Bool.or_eq_true, beq_iff_eq] at h
  obtain (hlower | hdigit) | rfl := h
  · obtain ⟨hfirst, hlast⟩ := Bool.and_eq_true_iff.mp hlower
    exact .inl (hbetween ⟨of_decide_eq_true hfirst, of_decide_eq_true hlast⟩)
  · obtain ⟨hfirst, hlast⟩ := Bool.and_eq_true_iff.mp hdigit
    exact .inr (.inl (hbetween ⟨of_decide_eq_true hfirst, of_decide_eq_true hlast⟩))
  · exact .inr (.inr rfl)

theorem ne_of_isNameCharacter {c d : Char} (h : isNameCharacter c = true) (hd : isNameCharacter d = false) : c ≠ d := by
  rintro rfl
  rw [h] at hd
  cases hd

theorem isSpace_of_isNameCharacter {c : Char} (h : isNameCharacter c = true) : isSpace c = false := by
  have hrange := toNat_of_isNameCharacter h
  simp only [isSpace, beq_false_of_ne (ne_of_isNameCharacter h (d := ' ') (by decide)),
    beq_false_of_ne (ne_of_isNameCharacter h (d := '\t') (by decide)),
    beq_false_of_ne (ne_of_isNameCharacter h (d := '\n') (by decide)), Bool.false_or]
  exact beq_false_of_ne (by omega)

theorem replaceNull_toLower {c : Char} (h : isNameCharacter c = true) : replaceNull c.toLower = c := by
  have hrange := toNat_of_isNameCharacter h
  have hlower : c.toLower = c := by
    unfold Char.toLower
    split
    · rename_i hcapital
      have hfirst : 65 ≤ c.toNat := UInt32.le_iff_toNat_le.mp hcapital.1
      have hlast : c.toNat ≤ 90 := UInt32.le_iff_toNat_le.mp hcapital.2
      omega
    · rfl
  rw [hlower, replaceNull, if_neg (by omega)]

theorem foldName_of_isName {t : Text} (h : isName t = true) : foldName t = t := by
  rw [foldName, List.map_congr_left fun c hc => replaceNull_toLower (forall_of_isName h c hc), List.map_id']

/-! Escapes -/

/-- Each escape is the name of its character between an ampersand and a semicolon. -/
theorem exists_attributeCharacter {c : Char} (h : isSpecial c = true) :
    ∃ name, attributeCharacter c = '&' :: name ++ [';'] ∧ name ∈ markupNames.map Prod.fst ∧
      markupNames.lookup name = some [c] := by
  simp only [isSpecial, Bool.or_eq_true, beq_iff_eq] at h
  obtain ((rfl | rfl) | rfl) | rfl := h
  · exact ⟨"amp", by decide⟩
  · exact ⟨"lt", by decide⟩
  · exact ⟨"gt", by decide⟩
  · exact ⟨"quot", by decide⟩

theorem lookup_namedCharacters {name value : Text} (h : markupNames.lookup name = some value) :
    namedCharacters.lookup name = some value := by
  rw [namedCharacters, List.lookup_append, h, Option.some_or]

theorem named?_append (isInAttribute : Bool) {name value : Text} (hname : ∀ c ∈ name, c.isAlphanum = true)
    (hlength : name.length < 32) (hvalue : namedCharacters.lookup name = some value) (rest : Text) :
    named? isInAttribute (name ++ ';' :: rest) = some (value, rest) := by
  have hrun : ((name ++ ';' :: rest).take 32).takeWhile Char.isAlphanum = name := by
    have hpositive : 0 < 32 - name.length := by omega
    obtain ⟨n, hn⟩ := Nat.exists_eq_succ_of_ne_zero (Nat.ne_of_gt hpositive)
    rw [List.take_append, List.take_of_length_le (by omega), hn, List.take_succ_cons,
      List.takeWhile_append_of_pos hname, List.takeWhile_cons_of_neg (by decide), List.append_nil]
  unfold named?
  rw [hrun]
  simp only [List.drop_left, List.head?_cons, if_true, hvalue, List.tail_cons]

/-- A reader resolves an escape. -/
theorem reference?_escape (isInAttribute : Bool) {name value : Text} (hname : name ∈ markupNames.map Prod.fst)
    (hvalue : markupNames.lookup name = some value) (rest : Text) :
    reference? isInAttribute (name ++ ';' :: rest) = some (value, rest) := by
  have hall : ∀ name ∈ markupNames.map Prod.fst,
      name.all Char.isAlphanum = true ∧ name.length < 32 ∧ name.head?.any (· ≠ '#') = true := by
    decide
  obtain ⟨halphanum, hlength, hfirst⟩ := hall name hname
  have hnamed := named?_append isInAttribute (List.all_eq_true.mp halphanum) hlength (lookup_namedCharacters hvalue)
    rest
  cases name with
  | nil => cases hfirst
  | cons c name =>
      have hc : c ≠ '#' := of_decide_eq_true hfirst
      rw [← hnamed, List.cons_append]
      unfold reference?
      split
      · rename_i heq
        exact absurd (List.cons.inj heq).1 hc
      · rename_i heq
        exact absurd (List.cons.inj heq).1 hc
      · rename_i heq
        exact absurd (List.cons.inj heq).1 hc
      · rfl

theorem resolve_escape (isInAttribute : Bool) {c : Char} (h : isSpecial c = true) (rest : Text) :
    resolve isInAttribute (attributeCharacter c ++ rest) = c :: resolve isInAttribute rest := by
  obtain ⟨name, heq, hname, hvalue⟩ := exists_attributeCharacter h
  have hreference := reference?_escape isInAttribute hname hvalue rest
  have hlength : rest.length ≤ (name ++ ';' :: rest).length := by
    rw [List.length_append, List.length_cons]
    omega
  rw [heq, List.append_assoc, List.cons_append, List.singleton_append, resolve, if_pos rfl, hreference]
  simp only [if_pos hlength, List.singleton_append]

theorem resolve_cons (isInAttribute : Bool) {c : Char} (h : c ≠ '&') (rest : Text) :
    resolve isInAttribute (c :: rest) = c :: resolve isInAttribute rest := by
  rw [resolve, if_neg h]

/-- A reader gets back the value of an attribute. -/
theorem resolve_escapeAttribute (t : Text) : resolve true (escapeAttribute t) = t := by
  induction t with
  | nil => rw [escapeAttribute, List.flatMap_nil, resolve]
  | cons c t ih =>
      rw [escapeAttribute, List.flatMap_cons]
      cases hc : isSpecial c with
      | true =>
          rw [resolve_escape true hc]
          exact congrArg _ ih
      | false =>
          have hne : c ≠ '&' := fun heq => absurd (heq ▸ hc) (by decide)
          rw [(attributeCharacter_eq_iff c).mpr hc, List.singleton_append, resolve_cons true hne]
          exact congrArg _ ih

/-! Attributes -/

theorem map_replaceNull_escapeAttribute (t : Text) :
    (escapeAttribute t).map replaceNull = escapeAttribute (t.map replaceNull) := by
  have hcharacter : ∀ c, (attributeCharacter c).map replaceNull = attributeCharacter (replaceNull c) := by
    intro c
    cases hc : isSpecial c with
    | true =>
        simp only [isSpecial, Bool.or_eq_true, beq_iff_eq] at hc
        obtain ((rfl | rfl) | rfl) | rfl := hc <;> decide
    | false =>
        have hreplaced : isSpecial (replaceNull c) = false := by
          unfold replaceNull
          split
          · decide
          · exact hc
        rw [(attributeCharacter_eq_iff c).mpr hc, (attributeCharacter_eq_iff _).mpr hreplaced, List.map_singleton]
  rw [escapeAttribute, escapeAttribute, List.map_flatMap, List.flatMap_map]
  exact List.flatMap_congr fun c _ => hcharacter c

theorem quote_notMem_escapeAttribute (t : Text) : '"' ∉ escapeAttribute t := by
  intro hmem
  obtain ⟨c, -, hc⟩ := List.mem_flatMap.mp hmem
  cases hspecial : isSpecial c with
  | true =>
      simp only [isSpecial, Bool.or_eq_true, beq_iff_eq] at hspecial
      obtain ((rfl | rfl) | rfl) | rfl := hspecial <;> exact absurd hc (by decide)
  | false =>
      rw [(attributeCharacter_eq_iff c).mpr hspecial, List.mem_singleton] at hc
      rw [← hc] at hspecial
      cases hspecial

/-- What stands in the name of a tag or an attribute. -/
theorem of_isNameCharacter {c : Char} (h : isNameCharacter c = true) :
    isSpace c = false ∧ c ≠ '/' ∧ c ≠ '>' ∧ c ≠ '=' :=
  ⟨isSpace_of_isNameCharacter h, ne_of_isNameCharacter h (by decide), ne_of_isNameCharacter h (by decide),
    ne_of_isNameCharacter h (by decide)⟩

/-- Reading passes over a name up to what ends it. -/
theorem takeWhile_name {p : Char → Bool} {name : Text} {stop : Char} (hname : ∀ c ∈ name, p c = true)
    (hstop : p stop = false) (rest : Text) :
    (name ++ stop :: rest).takeWhile p = name ∧ (name ++ stop :: rest).dropWhile p = stop :: rest := by
  rw [List.takeWhile_append_of_pos hname, List.dropWhile_append_of_pos hname,
    List.takeWhile_cons_of_neg (by simp [hstop]), List.dropWhile_cons_of_neg (by simp [hstop]), List.append_nil]
  exact ⟨rfl, rfl⟩

/-- An attribute is read as it was to be written. -/
theorem attribute?_append {name : Text} (hname : isName name = true) (value rest : Text) :
    attribute? (name ++ '=' :: '"' :: (escapeAttribute value ++ '"' :: rest)) =
      some ((name, value.map replaceNull), rest) := by
  have hall := forall_of_isName hname
  cases name with
  | nil => cases hname
  | cons c more =>
      let isPart := fun c : Char => !isSpace c && c ≠ '/' && c ≠ '>' && c ≠ '='
      have hmore : ∀ d ∈ more, isPart d = true := by
        intro d hd
        obtain ⟨hspace, hslash, hbracket, hequals⟩ := of_isNameCharacter (hall d (List.mem_cons_of_mem c hd))
        simp [isPart, hspace, hslash, hbracket, hequals]
      have hequals : isPart '=' = false := by decide
      obtain ⟨htake, hdrop⟩ := takeWhile_name hmore hequals
        ('"' :: (escapeAttribute value ++ '"' :: rest))
      have hvalue : attributeValue? ('"' :: (escapeAttribute value ++ '"' :: rest)) =
          some (escapeAttribute value, rest) := Text.cut?_append_cons (quote_notMem_escapeAttribute value) rest
      rw [List.cons_append]
      unfold attribute?
      dsimp only
      rw [htake, hdrop, List.dropWhile_cons_of_neg (by decide)]
      simp only [hvalue, Option.map_some]
      rw [map_replaceNull_escapeAttribute, resolve_escapeAttribute, foldName_of_isName hname]

theorem tagEnd?_blank (found : List (Text × Text)) (t : Text) : tagEnd? found (' ' :: t) = tagEnd? found t := by
  rw [tagEnd?]
  simp [isSpace]

theorem tagEnd?_end (found : List (Text × Text)) (isClosed : Bool) (rest : Text) :
    tagEnd? found (tagEnd isClosed ++ rest) = some (found, isClosed, rest) := by
  cases isClosed with
  | false =>
      change tagEnd? found ('>' :: rest) = _
      rw [tagEnd?, if_pos rfl]
  | true =>
      change tagEnd? found (' ' :: '/' :: '>' :: rest) = _
      rw [tagEnd?_blank, tagEnd?]
      simp

theorem lookup_eq_none_of_notMem {found : List (Text × Text)} {name : Text} (h : name ∉ found.map Prod.fst) :
    found.lookup name = none := by
  rw [List.lookup_eq_none_iff]
  intro a ha
  have hne : name ≠ a.1 := by
    rintro rfl
    exact h (List.mem_map_of_mem ha)
  simpa using hne

/-- The attributes and the end of a tag are read as they were to be written. -/
theorem tagEnd?_append (found : List (Text × Text)) {attributes : List (Text × Text)} (isClosed : Bool) (rest : Text)
    (hnames : attributes.all (fun a => isName a.1) = true) (hnodup : ((found ++ attributes).map Prod.fst).Nodup) :
    tagEnd? found (attributes.flatMap (writeAttribute false) ++ (tagEnd isClosed ++ rest)) =
      some (found ++ attributes.map fun a => (a.1, a.2.map replaceNull), isClosed, rest) := by
  induction attributes generalizing found with
  | nil => rw [List.flatMap_nil, List.nil_append, tagEnd?_end, List.map_nil, List.append_nil]
  | cons a attributes ih =>
      obtain ⟨name, value⟩ := a
      rw [List.all_cons, Bool.and_eq_true] at hnames
      have hnew : name ∉ found.map Prod.fst := by
        rw [List.map_append, List.map_cons] at hnodup
        exact fun hmem => (List.nodup_append.mp hnodup).2.2 name hmem name List.mem_cons_self rfl
      have hrest := ih (found ++ [(name, value.map replaceNull)]) hnames.2 (by simpa using hnodup)
      have hwrite : (((name, value) :: attributes).flatMap (writeAttribute false) ++ (tagEnd isClosed ++ rest) : Text) =
          ' ' :: (name ++ '=' :: '"' :: (escapeAttribute value ++ '"' ::
            (attributes.flatMap (writeAttribute false) ++ (tagEnd isClosed ++ rest)))) := by
        simp [writeAttribute]
      rw [hwrite, tagEnd?_blank]
      generalize attributes.flatMap (writeAttribute false) ++ (tagEnd isClosed ++ rest) = more at hrest ⊢
      have hread := attribute?_append hnames.1 value more
      cases name with
      | nil => cases hnames.1
      | cons c name =>
          obtain ⟨hspace, hslash, hbracket, -⟩ := of_isNameCharacter (forall_of_isName hnames.1 c List.mem_cons_self)
          have hlength : more.length ≤ (name ++ '=' :: '"' :: (escapeAttribute value ++ '"' :: more)).length := by
            simp only [List.length_append, List.length_cons]
            omega
          rw [List.cons_append] at hread ⊢
          rw [tagEnd?, if_neg hbracket, if_neg fun hboth => hslash hboth.1, if_neg (by simp [hslash, hspace]), hread]
          simp only [if_pos hlength, lookup_eq_none_of_notMem hnew, Option.isSome_none, Bool.false_eq_true, if_false,
            hrest, List.append_assoc, List.map_cons, List.singleton_append]

/-! Tags -/

/-- What follows the name of a tag. -/
theorem exists_afterName (attributes : List (Text × Text)) (isClosed : Bool) (rest : Text) :
    ∃ stop more, attributes.flatMap (writeAttribute false) ++ (tagEnd isClosed ++ rest) = stop :: more ∧
      (stop = ' ' ∨ stop = '>') := by
  cases attributes with
  | nil =>
      cases isClosed with
      | false => exact ⟨'>', rest, rfl, .inr rfl⟩
      | true => exact ⟨' ', '/' :: '>' :: rest, rfl, .inl rfl⟩
  | cons a attributes => exact ⟨' ', _, rfl, .inl rfl⟩

/-- A tag is read as it was to be written. -/
theorem tag?_append {tag : Tag} (h : (Piece.opens false tag).isFormed = true) (rest : Text) :
    tag? (tag.name ++ (tag.attributes.flatMap (writeAttribute false) ++ (tagEnd tag.isClosed ++ rest))) =
      some (tag.read, rest) := by
  simp only [Piece.isFormed, Bool.and_eq_true, decide_eq_true_eq] at h
  obtain ⟨⟨hname, hnames⟩, hnodup⟩ := h
  let isPart := fun c : Char => !isSpace c && c ≠ '/' && c ≠ '>'
  have hpart : ∀ c ∈ tag.name, isPart c = true := by
    intro c hc
    obtain ⟨hspace, hslash, hbracket, -⟩ := of_isNameCharacter (forall_of_isName hname c hc)
    simp [isPart, hspace, hslash, hbracket]
  have hread := tagEnd?_append [] tag.isClosed rest hnames hnodup
  obtain ⟨stop, more, heq, hstop⟩ := exists_afterName tag.attributes tag.isClosed rest
  rw [heq] at hread ⊢
  have hnot : isPart stop = false := by obtain rfl | rfl := hstop <;> decide
  obtain ⟨htake, hdrop⟩ := takeWhile_name hpart hnot more
  unfold tag?
  dsimp only
  rw [htake, hdrop, hread, Option.map_some, foldName_of_isName hname]
  rfl

theorem isAlpha_of_isName {c : Char} {t : Text} (h : isName (c :: t) = true) : c.isAlpha = true := by
  rw [isName, Bool.and_eq_true] at h
  change (c.isUpper || c.isLower) = true
  rw [h.1, Bool.or_true]

theorem token?_opens {tag : Tag} (h : (Piece.opens false tag).isFormed = true) (rest : Text) :
    token? false ((Piece.opens false tag).write ++ rest) = some (.opens tag.read, rest) ∧
      isMarkup ((Piece.opens false tag).write ++ rest) = true := by
  have hread := tag?_append h rest
  have hname : isName tag.name = true := by
    simp only [Piece.isFormed, Bool.and_eq_true] at h
    exact h.1.1
  have hwrite : (Piece.opens false tag).write ++ rest =
      '<' :: (tag.name ++ (tag.attributes.flatMap (writeAttribute false) ++ (tagEnd tag.isClosed ++ rest))) := by
    simp [Piece.write]
  rw [hwrite]
  generalize tag.attributes.flatMap (writeAttribute false) ++ (tagEnd tag.isClosed ++ rest) = more at hread ⊢
  cases hcases : tag.name with
  | nil =>
      rw [hcases] at hname
      cases hname
  | cons c name =>
      rw [hcases] at hname hread
      have hchar := forall_of_isName hname c List.mem_cons_self
      have halpha := isAlpha_of_isName hname
      rw [List.cons_append] at hread ⊢
      have hmarkup : markup? false ('<' :: c :: (name ++ more)) = some (.opens tag.read, rest) := by
        unfold markup?
        split
        · rename_i heq
          exact absurd (List.cons.inj (List.cons.inj heq).2).1 (ne_of_isNameCharacter hchar (by decide))
        · rename_i heq
          exact absurd (List.cons.inj (List.cons.inj heq).2).1 (ne_of_isNameCharacter hchar (by decide))
        · rename_i heq
          exact absurd (List.cons.inj (List.cons.inj heq).2).1 (ne_of_isNameCharacter hchar (by decide))
        · rename_i heq
          obtain ⟨rfl, rfl⟩ := List.cons.inj (List.cons.inj heq).2
          simp only [if_pos halpha, hread]
        · rename_i hnone
          exact absurd rfl (hnone c (name ++ more))
      constructor
      · rw [token?, if_neg (List.cons_ne_nil _ _), hmarkup]
      · unfold isMarkup
        split
        · rfl
        · rename_i heq
          obtain ⟨rfl, rfl⟩ := List.cons.inj (List.cons.inj heq).2
          rw [halpha, Bool.or_true]
        · rename_i hnone
          exact absurd rfl (hnone c (name ++ more))

theorem token?_closes {name : Text} (h : isName name = true) (rest : Text) :
    token? false ((Piece.closes name).write ++ rest) = some (.closes name, rest) ∧
      isMarkup ((Piece.closes name).write ++ rest) = true := by
  have hformed : (Piece.opens false ⟨name, [], false⟩).isFormed = true := by simpa [Piece.isFormed] using h
  have hread := tag?_append hformed rest
  cases name with
  | nil => cases h
  | cons c name =>
      have hwrite : (Piece.closes (c :: name)).write ++ rest = '<' :: '/' :: c :: (name ++ '>' :: rest) := by
        simp [Piece.write]
      rw [hwrite]
      refine ⟨?_, rfl⟩
      have hmarkup : markup? false ('<' :: '/' :: c :: (name ++ '>' :: rest)) = some (.closes (c :: name), rest) := by
        have hread : tag? (c :: (name ++ '>' :: rest)) = some (Tag.read ⟨c :: name, [], false⟩, rest) := hread
        simp only [markup?, if_pos (isAlpha_of_isName h), hread]
        rfl
      rw [token?, if_neg (List.cons_ne_nil _ _), hmarkup]

/-! Texts -/

theorem isMarkup_cons {c : Char} (h : c ≠ '<') (t : Text) : isMarkup (c :: t) = false := by
  unfold isMarkup
  split
  · rename_i heq
    exact absurd (List.cons.inj heq).1 h
  · rename_i heq
    exact absurd (List.cons.inj heq).1 h
  · rfl

theorem untilMarkup_append {t rest : Text} (ht : '<' ∉ t) (hrest : rest = [] ∨ isMarkup rest = true) :
    untilMarkup (t ++ rest) = (t, rest) := by
  induction t with
  | nil =>
      obtain rfl | hmarkup := hrest
      · rfl
      · cases rest with
        | nil => rfl
        | cons c rest => rw [List.nil_append, untilMarkup, if_pos hmarkup]
  | cons c t ih =>
      have hc : c ≠ '<' := fun heq => ht (heq ▸ List.mem_cons_self)
      rw [List.cons_append, untilMarkup, isMarkup_cons hc, if_neg Bool.false_ne_true,
        ih fun hmem => ht (List.mem_cons_of_mem c hmem)]

theorem textCharacter_eq (c : Char) :
    textCharacter c = [c] ∧ c ≠ '&' ∧ c ≠ '<' ∨ isSpecial c = true ∧ textCharacter c = attributeCharacter c := by
  obtain heq | hspecial := Piece.write_char false c
  · have heq : textCharacter c = [c] := heq
    refine .inl ⟨heq, ?_, ?_⟩ <;> rintro rfl <;> exact absurd heq (by decide)
  · exact .inr hspecial

theorem lt_notMem_escapeText (t : Text) : '<' ∉ escapeText t := by
  intro hmem
  obtain ⟨c, -, hc⟩ := List.mem_flatMap.mp hmem
  obtain ⟨heq, -, hlt⟩ | ⟨hspecial, -⟩ := textCharacter_eq c
  · rw [heq, List.mem_singleton] at hc
    exact hlt hc.symm
  · simp only [isSpecial, Bool.or_eq_true, beq_iff_eq] at hspecial
    obtain ((rfl | rfl) | rfl) | rfl := hspecial <;> exact absurd hc (by decide)

/-- A reader gets back a text. -/
theorem resolve_escapeText (t : Text) : resolve false (escapeText t) = t := by
  induction t with
  | nil => rw [escapeText, List.flatMap_nil, resolve]
  | cons c t ih =>
      rw [escapeText, List.flatMap_cons]
      obtain ⟨heq, hamp, -⟩ | ⟨hspecial, heq⟩ := textCharacter_eq c
      · rw [heq, List.singleton_append, resolve_cons false hamp]
        exact congrArg _ ih
      · rw [heq, resolve_escape false hspecial]
        exact congrArg _ ih

theorem escapeText_ne_nil {t : Text} (h : t ≠ []) : escapeText t ≠ [] := by
  intro hescaped
  have hread := resolve_escapeText t
  rw [hescaped, resolve] at hread
  exact h hread.symm

theorem token?_text {t : Text} (hne : t ≠ []) {rest : Text} (hrest : rest = [] ∨ isMarkup rest = true) :
    token? false (escapeText t ++ rest) = some (.text t, rest) := by
  have hlt := lt_notMem_escapeText t
  have hmarkup : markup? false (escapeText t ++ rest) = none := by
    cases hescaped : escapeText t with
    | nil => exact absurd hescaped (escapeText_ne_nil hne)
    | cons c u =>
        rw [hescaped] at hlt
        have hc : c ≠ '<' := fun heq => hlt (heq ▸ List.mem_cons_self)
        unfold markup?
        split <;> first | rfl | (rename_i heq; exact absurd (List.cons.inj heq).1 hc)
  rw [token?, if_neg fun hnil => escapeText_ne_nil hne (List.append_eq_nil_iff.mp hnil).1, hmarkup,
    untilMarkup_append hlt hrest]
  dsimp only
  rw [resolve_escapeText]

/-! Runs of characters -/

def Piece.isChar : Piece → Bool
  | .char _ _ => true
  | _ => false

/-- The characters at the start of some pieces make up one text. -/
theorem exists_run (ps : List Piece) : ∃ (t : Text) (rest : List Piece),
    ps.map Piece.escaped = shown t ++ rest.map Piece.escaped ∧ t.length + rest.length = ps.length ∧
      (rest = [] ∨ ∃ p more, rest = p :: more ∧ p.isChar = false) ∧
        grouped ps = if t = [] then grouped rest else .text t :: grouped rest := by
  induction ps with
  | nil => exact ⟨[], [], rfl, rfl, .inl rfl, rfl⟩
  | cons p ps ih =>
      cases p with
      | opens isRaw tag => exact ⟨[], _, rfl, Nat.zero_add _, .inr ⟨_, _, rfl, rfl⟩, rfl⟩
      | closes name => exact ⟨[], _, rfl, Nat.zero_add _, .inr ⟨_, _, rfl, rfl⟩, rfl⟩
      | char isRaw c =>
          obtain ⟨t, rest, hmap, hlength, hrest, hgrouped⟩ := ih
          refine ⟨c :: t, rest, ?_, ?_, hrest, ?_⟩
          · rw [List.map_cons, hmap]
            rfl
          · simp only [List.length_cons]
            omega
          · rw [grouped, hgrouped, if_neg (List.cons_ne_nil c t)]
            by_cases ht : t = []
            · rw [if_pos ht, ht]
              obtain rfl | ⟨p, more, rfl, hp⟩ := hrest
              · rfl
              · cases p with
                | char isRaw d => cases hp
                | _ => rfl
            · rw [if_neg ht]

theorem isFormed_escaped (p : Piece) : p.escaped.isFormed = p.isFormed := by
  cases p <;> rfl

theorem tokens_of_token? {t rest : Text} {token : Token} (h : token? false t = some (token, rest))
    (hlength : rest.length < t.length) : tokens t = token :: tokens rest := by
  rw [tokens, h]
  exact if_pos hlength

/-- An opening tag is read before what follows it. -/
theorem tokens_opens {tag : Tag} (h : (Piece.opens false tag).isFormed = true) (rest : Text) :
    tokens ((Piece.opens false tag).write ++ rest) = .opens tag.read :: tokens rest ∧
      isMarkup ((Piece.opens false tag).write ++ rest) = true := by
  have hlength : rest.length < ((Piece.opens false tag).write ++ rest).length := by
    simp only [Piece.write, List.length_append]
    change _ < 1 + _ + _ + _ + _
    omega
  obtain ⟨htoken, hmarkup⟩ := token?_opens h rest
  exact ⟨tokens_of_token? htoken hlength, hmarkup⟩

theorem tokens_closes {name : Text} (h : isName name = true) (rest : Text) :
    tokens ((Piece.closes name).write ++ rest) = .closes name :: tokens rest ∧
      isMarkup ((Piece.closes name).write ++ rest) = true := by
  have hlength : rest.length < ((Piece.closes name).write ++ rest).length := by
    simp only [Piece.write, List.length_append]
    change _ < 2 + _ + 1 + _
    omega
  obtain ⟨htoken, hmarkup⟩ := token?_closes h rest
  exact ⟨tokens_of_token? htoken hlength, hmarkup⟩

/-- A tag is read before what follows it. -/
theorem tokens_tag {p : Piece} (hchar : p.isChar = false) (h : p.isFormed = true) (rest : Text) :
    ∃ token, (∀ more, grouped (p :: more) = token :: grouped more) ∧
      tokens (p.escaped.write ++ rest) = token :: tokens rest ∧ isMarkup (p.escaped.write ++ rest) = true := by
  cases p with
  | char isRaw c => cases hchar
  | opens isRaw tag => exact ⟨_, fun more => rfl, tokens_opens h rest⟩
  | closes name => exact ⟨_, fun more => rfl, tokens_closes h rest⟩

/-- A reader of what is written finds the tags and texts. -/
theorem tokens_written_escaped {ps : List Piece} (h : ps.all Piece.isFormed = true) :
    tokens (written (ps.map Piece.escaped)) = grouped ps := by
  induction hlength : ps.length using Nat.strongRecOn generalizing ps with
  | ind length ih =>
      obtain ⟨t, rest, hmap, hcount, hrest, hgrouped⟩ := exists_run ps
      have hformed : rest.all Piece.isFormed = true := by
        have hall : (ps.map Piece.escaped).all Piece.isFormed = true := by
          simpa [List.all_map, Function.comp_def, isFormed_escaped] using h
        rw [hmap, List.all_append, Bool.and_eq_true, List.all_map] at hall
        simpa [Function.comp_def, isFormed_escaped] using hall.2
      -- What follows the text is nothing or a tag, and is read as the rest of the pieces.
      have hrestTokens : tokens (written (rest.map Piece.escaped)) = grouped rest ∧
          (written (rest.map Piece.escaped) = [] ∨ isMarkup (written (rest.map Piece.escaped)) = true) := by
        obtain rfl | ⟨p, more, rfl, hp⟩ := hrest
        · refine ⟨?_, .inl rfl⟩
          rw [List.map_nil, written_nil, tokens]
          rfl
        · rw [List.all_cons, Bool.and_eq_true] at hformed
          obtain ⟨token, hgroupedTag, htokens, hmarkup⟩ :=
            tokens_tag hp hformed.1 (written (more.map Piece.escaped))
          rw [List.map_cons, written_cons, htokens, hgroupedTag,
            ih more.length (by simp at hcount; omega) hformed.2 rfl]
          exact ⟨rfl, .inr hmarkup⟩
      rw [hmap, written_append, written_shown, hgrouped]
      by_cases ht : t = []
      · rw [if_pos ht, ht]
        exact hrestTokens.1
      · have hpositive := List.length_pos_iff.mpr (escapeText_ne_nil ht)
        rw [if_neg ht, ← hrestTokens.1]
        exact tokens_of_token? (token?_text ht hrestTokens.2) (by rw [List.length_append]; omega)

/-- A reader finds the tags and texts, if nothing that is raw needs an escape. -/
theorem tokens_written {ps : List Piece} (hformed : ps.all Piece.isFormed = true)
    (hsafe : ps.all Piece.isSafe = true) : tokens (written ps) = grouped ps := by
  rw [← (written_escaped_iff ps).mpr hsafe]
  exact tokens_written_escaped hformed

end Manuscript.Html
