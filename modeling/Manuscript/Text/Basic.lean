import Manuscript.Text.Blank

/-!
Operations on texts: looking for a fixed wording, cutting, trimming, splitting into lines and words, and
replacing.  Lengths and positions that leave the library are counted in UTF-8 bytes.

Main statements: a found wording reassembles the text (`eq_append_of_after?`, `eq_append_of_cut?`), and
replacing a wording that does not occur changes nothing (`replaceAll_eq_self`).
-/

namespace Manuscript.Text

/-- Length in UTF-8 bytes. -/
def byteLength : Text → Nat
  | [] => 0
  | c :: t => c.utf8Size + byteLength t

@[simp] theorem byteLength_nil : byteLength [] = 0 := rfl

@[simp] theorem byteLength_cons (c : Char) (t : Text) :
    byteLength (c :: t) = c.utf8Size + byteLength t := rfl

@[simp] theorem byteLength_append (s t : Text) :
    byteLength (s ++ t) = byteLength s + byteLength t := by
  induction s with
  | nil => simp
  | cons c s ih => simp [ih, Nat.add_assoc]

/-- What follows `lead` in a text that begins with it. -/
def after? : (lead : Text) → Text → Option Text
  | [], t => some t
  | _ :: _, [] => none
  | l :: lead, c :: t => if l = c then after? lead t else none

/-- Does the text begin with `lead`? -/
def startsWith (lead t : Text) : Bool := (after? lead t).isSome

/-- What precedes `tail` in a text that ends with it. -/
def before? (tail t : Text) : Option Text := (after? tail.reverse t.reverse).map List.reverse

/-- Does the text end with `tail`? -/
def endsWith (tail t : Text) : Bool := (before? tail t).isSome

theorem eq_append_of_after? {lead t rest : Text} (h : after? lead t = some rest) :
    t = lead ++ rest := by
  fun_induction after? lead t with
  | case1 t => simpa using h
  | case2 => simp at h
  | case3 lead c t ih => simp [ih h]
  | case4 => simp at h

theorem after?_append (lead rest : Text) : after? lead (lead ++ rest) = some rest := by
  induction lead with
  | nil => rfl
  | cons l lead ih => simp [after?, ih]

theorem length_after?_le {lead t rest : Text} (h : after? lead t = some rest) :
    rest.length ≤ t.length := by
  rw [eq_append_of_after? h]
  simp

/-- The text before the first occurrence of `mark` and the text after it. -/
def cut? (mark : Text) : Text → Option (Text × Text)
  | [] => if mark = [] then some ([], []) else none
  | c :: t =>
    match after? mark (c :: t) with
    | some rest => some ([], rest)
    | none => (cut? mark t).map fun (head, rest) => (c :: head, rest)

theorem eq_append_of_cut? {mark t head rest : Text} (h : cut? mark t = some (head, rest)) :
    t = head ++ mark ++ rest := by
  induction t generalizing head with
  | nil =>
      simp only [cut?] at h
      split at h
      · simp_all
      · simp at h
  | cons c t ih =>
      simp only [cut?] at h
      split at h
      · rename_i rest' hafter
        obtain ⟨rfl, rfl⟩ := by simpa using h
        simpa using eq_append_of_after? hafter
      · obtain ⟨⟨head', rest'⟩, hcut, heq⟩ := Option.map_eq_some_iff.mp h
        obtain ⟨rfl, rfl⟩ := by simpa using heq
        simp [ih hcut]

theorem length_lt_of_cut? {mark t head rest : Text} (hmark : mark ≠ [])
    (h : cut? mark t = some (head, rest)) : rest.length < t.length := by
  rw [eq_append_of_cut? h]
  have := List.length_pos_iff.mpr hmark
  simp only [List.length_append]
  omega

/-- The text before the last occurrence of `c` and the text after it. -/
def cutLast? (c : Char) (t : Text) : Option (Text × Text) :=
  (cut? [c] t.reverse).map fun (tail, head) => (head.reverse, tail.reverse)

/-- Does `mark` occur in the text? -/
def contains (mark t : Text) : Bool := (cut? mark t).isSome

/-- The text without the blanks at its start. -/
def trimStart (t : Text) : Text := t.dropWhile isBlank

/-- The text without the characters at its end that satisfy `p`. -/
def trimEndWhere (p : Char → Bool) (t : Text) : Text := (t.reverse.dropWhile p).reverse

/-- The text without the blanks at its end. -/
def trimEnd (t : Text) : Text := trimEndWhere isBlank t

/-- The text without the blanks at either end. -/
def trim (t : Text) : Text := trimEnd (trimStart t)

/-- The text without any occurrence of `c` at either end. -/
def trimChar (c : Char) (t : Text) : Text := trimEndWhere (· == c) (t.dropWhile (· == c))

/-- The text without the copies of `tail` at its end. -/
def trimEndCopies (tail t : Text) : Text :=
  match before? tail t with
  | some head => if head.length < t.length then trimEndCopies tail head else t
  | none => t
termination_by t.length

/-- Is there nothing but blanks in the text? -/
def isBlankOnly (t : Text) : Bool := t.all isBlank

/-- The maximal stretches without blanks. -/
def words (t : Text) : List Text := (t.splitOnP isBlank).filter (· ≠ [])

/-- A line without the carriage return before its line feed. -/
def dropReturn (line : Text) : Text := (before? ['\r'] line).getD line

/-- The lines of a text.  A line ends with a line feed, which may follow a carriage return; the last line
may lack the line feed and then keeps all its characters. -/
def lines (t : Text) : List Text :=
  let pieces := t.splitOn '\n'
  pieces.dropLast.map dropReturn ++ (pieces.getLast?.filter (· ≠ [])).toList

/-- The lines of a text, each with its line feed. -/
def linesWithEnds (t : Text) : List Text :=
  let pieces := t.splitOn '\n'
  pieces.dropLast.map (· ++ ['\n']) ++ (pieces.getLast?.filter (· ≠ [])).toList

/-- The parts with `separator` between neighbours. -/
def join (separator : Text) (parts : List Text) : Text := separator.intercalate parts

/-- The lines of a document, joined again. -/
def unlines (parts : List Text) : Text := join ['\n'] parts

/-- The text with every occurrence of `mark` replaced by `new`, from left to right and without overlap.  An
empty mark occurs before every character and at the end. -/
def replaceAll (mark new t : Text) : Text :=
  if mark = [] then new ++ t.flatMap fun c => c :: new else sweep 0 t
where
  /-- The first argument counts the characters of an occurrence that are still to be passed over. -/
  sweep : Nat → Text → Text
    | _, [] => []
    | skip + 1, _ :: t => sweep skip t
    | 0, c :: t =>
      if startsWith mark (c :: t) then new ++ sweep (mark.length - 1) t else c :: sweep 0 t

/-- Where `mark` occurs, counted in characters, from left to right and without overlap. -/
def occurrences (mark t : Text) : List Nat := if mark = [] then [] else sweep 0 0 t
where
  /-- The second argument is the position of the text that is left. -/
  sweep : Nat → Nat → Text → List Nat
    | _, _, [] => []
    | skip + 1, position, _ :: t => sweep skip (position + 1) t
    | 0, position, c :: t =>
      if startsWith mark (c :: t) then position :: sweep (mark.length - 1) (position + 1) t
      else sweep 0 (position + 1) t

theorem replaceAll_eq_self {mark new t : Text} (h : contains mark t = false) :
    replaceAll mark new t = t := by
  have hmark : mark ≠ [] := by
    rintro rfl
    cases t <;> simp [contains, cut?, after?] at h
  rw [replaceAll, if_neg hmark]
  clear hmark
  induction t with
  | nil => rfl
  | cons c t ih =>
      simp only [contains, cut?] at h
      split at h
      · simp at h
      · rename_i hafter
        have ht : contains mark t = false := by simpa [contains] using h
        simp [replaceAll.sweep, startsWith, hafter, ih ht]

theorem occurrences_eq_nil {mark t : Text} (h : contains mark t = false) : occurrences mark t = [] := by
  have hmark : mark ≠ [] := by
    rintro rfl
    cases t <;> simp [contains, cut?, after?] at h
  have hsweep : ∀ position, occurrences.sweep mark 0 position t = [] := by
    induction t with
    | nil => exact fun position => rfl
    | cons c t ih =>
        intro position
        simp only [contains, cut?] at h
        split at h
        · simp at h
        · rename_i hafter
          have ht : contains mark t = false := by simpa [contains] using h
          simp [occurrences.sweep, startsWith, hafter, ih ht]
  rw [occurrences, if_neg hmark]
  exact hsweep 0

end Manuscript.Text
