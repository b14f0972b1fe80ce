import Manuscript.Proofs.Text.Utf8
import Manuscript.Source.Inline

/-!
Closing delimiters of mathematics.  They are looked for in the bytes of a line, two of which are passed over at a
backslash, whatever character the second one belongs to.

Main statement: what is found is the first place between two units of the text, a backslash with the character after it
or a character by itself, at which the closing delimiter occurs (`searchesByUnits`).
-/

namespace Manuscript.Source

open Utf8 (encode)

/-- The units of a text: a backslash with the character after it, or a character by itself. -/
def units : Text → List Text
  | [] => []
  | [c] => [[c]]
  | c :: d :: t => if c = '\\' then [c, d] :: units t else [c] :: units (d :: t)

/-- The closing delimiter occurs after the body, which is made of units. -/
def ClosesAfter (closing t body : Text) : Prop :=
  ∃ us vs, units t = us ++ vs ∧ body = us.flatten ∧ closing <+: vs.flatten

/-- The body is the shortest one after which the closing delimiter occurs. -/
def ClosesFirst (closing t body : Text) : Prop :=
  ClosesAfter closing t body ∧ ∀ other, ClosesAfter closing t other → body <+: other

section Units

variable {closing t rest body unit : Text} {c d : Char}

theorem units_cons_of_ne (hc : c ≠ '\\') (t : Text) : units (c :: t) = [c] :: units t := by
  cases t with
  | nil => rfl
  | cons d t => rw [units, if_neg hc]

theorem units_backslash_cons (d : Char) (t : Text) : units ('\\' :: d :: t) = ['\\', d] :: units t := by
  rw [units, if_pos rfl]

theorem flatten_units (t : Text) : (units t).flatten = t := by
  fun_induction units t with
  | case1 => rfl
  | case2 c => rfl
  | case3 d t ih =>
      rw [List.flatten_cons, ih]
      rfl
  | case4 c d t hc ih =>
      rw [List.flatten_cons, ih]
      rfl

/-- The closing delimiter occurs at the start of the text or after its first unit. -/
theorem closesAfter_iff_of_units (h : units t = unit :: units rest) :
    ClosesAfter closing t body ↔
      body = [] ∧ closing <+: t ∨ ∃ later, body = unit ++ later ∧ ClosesAfter closing rest later := by
  constructor
  · rintro ⟨us, vs, hsplit, rfl, hclosing⟩
    cases us with
    | nil =>
        rw [List.nil_append] at hsplit
        rw [← hsplit, flatten_units] at hclosing
        exact .inl ⟨rfl, hclosing⟩
    | cons u us =>
        obtain ⟨rfl, hrest⟩ := List.cons.inj (h.symm.trans hsplit)
        exact .inr ⟨us.flatten, rfl, us, vs, hrest, rfl, hclosing⟩
  · rintro (⟨rfl, hclosing⟩ | ⟨_, rfl, us, vs, hsplit, rfl, hclosing⟩)
    · exact ⟨[], units t, rfl, rfl, by rwa [flatten_units]⟩
    · exact ⟨unit :: us, vs, by rw [h, hsplit]; rfl, rfl, hclosing⟩

theorem closesFirst_nil (h : closing <+: t) : ClosesFirst closing t [] :=
  ⟨⟨[], units t, rfl, rfl, by rwa [flatten_units]⟩, fun _ _ => List.nil_prefix⟩

theorem not_closesAfter_nil (hclosing : closing ≠ []) : ¬ClosesAfter closing [] body := by
  rintro ⟨us, vs, hsplit, -, hbegins⟩
  obtain ⟨-, rfl⟩ := List.append_eq_nil_iff.mp (hsplit.symm : us ++ vs = [])
  exact hclosing (List.prefix_nil.mp hbegins)

/-- A delimiter that does not occur at the start is looked for after the first unit. -/
theorem ClosesFirst.append (h : units t = unit :: units rest) (hother : ¬closing <+: t)
    (hbody : ClosesFirst closing rest body) : ClosesFirst closing t (unit ++ body) := by
  refine ⟨(closesAfter_iff_of_units h).mpr (.inr ⟨body, rfl, hbody.1⟩), fun other hcloses => ?_⟩
  rcases (closesAfter_iff_of_units h).mp hcloses with ⟨-, hclosing⟩ | ⟨later, rfl, hlater⟩
  · exact absurd hclosing hother
  · exact (List.prefix_append_right_inj unit).mpr (hbody.2 later hlater)

theorem not_closesAfter_of_units (h : units t = unit :: units rest) (hother : ¬closing <+: t)
    (hrest : ∀ later, ¬ClosesAfter closing rest later) : ¬ClosesAfter closing t body := by
  intro hcloses
  rcases (closesAfter_iff_of_units h).mp hcloses with ⟨-, hclosing⟩ | ⟨later, -, hlater⟩
  · exact hother hclosing
  · exact hrest later hlater

theorem ClosesAfter.exists_eq_append (h : ClosesAfter closing t body) : ∃ rest, t = body ++ closing ++ rest := by
  obtain ⟨us, vs, hsplit, rfl, rest, hrest⟩ := h
  refine ⟨rest, ?_⟩
  rw [← flatten_units t, hsplit, List.flatten_append, ← hrest, List.append_assoc]

/-- A body does not end in the middle of a unit. -/
theorem ClosesAfter.byteLength_ne (h : ClosesAfter closing t body) {us vs : List Text} {u v : Text} (hu : u ≠ [])
    (hv : v ≠ []) (hunits : units t = us ++ (u ++ v) :: vs) :
    Text.byteLength body ≠ Text.byteLength (us.flatten ++ u) := by
  have hpos {s : Text} (hs : s ≠ []) : 0 < Text.byteLength s := by
    obtain ⟨c, s, rfl⟩ := List.exists_cons_of_ne_nil hs
    exact Nat.add_pos_left c.utf8Size_pos _
  have hu := hpos hu
  have hv := hpos hv
  obtain ⟨us', vs', hsplit, rfl, -⟩ := h
  rcases List.append_eq_append_iff.mp (hunits.symm.trans hsplit) with ⟨more, rfl, hmore⟩ | ⟨more, rfl, -⟩
  · cases more with
    | nil =>
        rw [List.append_nil, Text.byteLength_append]
        omega
    | cons unit more =>
        obtain ⟨rfl, -⟩ := List.cons.inj hmore
        rw [List.flatten_append, List.flatten_cons]
        simp only [Text.byteLength_append]
        omega
  · rw [List.flatten_append]
    simp only [Text.byteLength_append]
    omega

/-- Of two bodies after which the delimiter occurs first there is but one. -/
theorem ClosesFirst.eq {other : Text} (h : ClosesFirst closing t body) (h' : ClosesFirst closing t other) :
    body = other :=
  (h.2 other h'.1).eq_of_length_le (h'.2 body h.1).length_le

end Units

section Search

variable {closing t rest body : Text} {c d : Char}

theorem not_prefix_of_after? (h : Text.after? closing t = none) : ¬closing <+: t := by
  rintro ⟨rest, rfl⟩
  rw [Text.after?_append] at h
  cases h

/-- What is looked for is the first place between two units. -/
theorem seekClosing_eq_some (h : seekClosing closing t = some (body, rest)) : ClosesFirst closing t body := by
  fun_induction seekClosing closing t generalizing body with
  | case1 => cases h
  | case2 c t rest' hafter =>
      obtain ⟨rfl, -⟩ := by simpa using h
      exact closesFirst_nil ⟨rest', (Text.eq_append_of_after? hafter).symm⟩
  | case3 => cases h
  | case4 d t hafter ih =>
      obtain ⟨⟨later, rest'⟩, hlater, heq⟩ := Option.map_eq_some_iff.mp h
      obtain ⟨rfl, rfl⟩ := by simpa using heq
      exact (ih hlater).append (units_backslash_cons d t) (not_prefix_of_after? hafter)
  | case5 c t hafter hc ih =>
      obtain ⟨⟨later, rest'⟩, hlater, heq⟩ := Option.map_eq_some_iff.mp h
      obtain ⟨rfl, rfl⟩ := by simpa using heq
      exact (ih hlater).append (units_cons_of_ne hc t) (not_prefix_of_after? hafter)

theorem seekClosing_eq_none (hclosing : closing ≠ []) (h : seekClosing closing t = none) (body : Text) :
    ¬ClosesAfter closing t body := by
  fun_induction seekClosing closing t generalizing body with
  | case1 => exact not_closesAfter_nil hclosing
  | case2 => cases h
  | case3 hafter =>
      have hunits : units ['\\'] = ['\\'] :: units [] := rfl
      exact not_closesAfter_of_units hunits (not_prefix_of_after? hafter) fun _ => not_closesAfter_nil hclosing
  | case4 d t hafter ih =>
      have hrest := ih (Option.map_eq_none_iff.mp h)
      exact not_closesAfter_of_units (units_backslash_cons d t) (not_prefix_of_after? hafter) hrest
  | case5 c t hafter hc ih =>
      have hrest := ih (Option.map_eq_none_iff.mp h)
      exact not_closesAfter_of_units (units_cons_of_ne hc t) (not_prefix_of_after? hafter) hrest

end Search

/-- Looks for the closing delimiter in the bytes of a line, from an index on: two bytes are passed over at a backslash.
No delimiter without a backslash is found at the start of the search. -/
def findClosing (bytes closing : Bytes) (start idx : Nat) : Option Nat :=
  if h : idx < bytes.length then
    if bytes[idx] = 0x5C then
      if closing <+: bytes.drop idx then some idx else findClosing bytes closing start (idx + 2)
    else if closing <+: bytes.drop idx then
      if start < idx then some idx else none
    else findClosing bytes closing start (idx + 1)
  else none
termination_by bytes.length - idx

section Bytes

variable {a b closing : Bytes} {byte : UInt8} {start : Nat}

theorem findClosing_append_cons (a b closing : Bytes) (byte : UInt8) (start : Nat) :
    findClosing (a ++ byte :: b) closing start a.length =
      if byte = 0x5C then
        if closing <+: byte :: b then some a.length else findClosing (a ++ byte :: b) closing start (a.length + 2)
      else if closing <+: byte :: b then
        if start < a.length then some a.length else none
      else findClosing (a ++ byte :: b) closing start (a.length + 1) := by
  have hlength : a.length < (a ++ byte :: b).length := by simp
  rw [findClosing, dif_pos hlength, List.getElem_of_append rfl rfl, List.drop_left]

theorem findClosing_of_length_le {bytes : Bytes} {idx : Nat} (h : bytes.length ≤ idx) :
    findClosing bytes closing start idx = none := by
  rw [findClosing, dif_neg (Nat.not_lt.mpr h)]

/-- Bytes beyond ASCII are passed over: no delimiter begins with one, and none is a backslash. -/
theorem findClosing_append_of_le (start : Nat) {first : UInt8} {more : Bytes} (hclosing : closing = first :: more)
    (hfirst : first.toNat < 0x80) {s : Bytes} (hs : ∀ byte ∈ s, 0x80 ≤ byte.toNat) (a b : Bytes) :
    findClosing (a ++ s ++ b) closing start a.length = findClosing (a ++ s ++ b) closing start (a ++ s).length := by
  induction s generalizing a with
  | nil => rw [List.append_nil]
  | cons byte s ih =>
      obtain ⟨hbyte, hs⟩ := List.forall_mem_cons.mp hs
      have hbackslash : byte ≠ 0x5C := by
        rintro rfl
        exact absurd hbyte (by decide)
      have hother : ¬closing <+: byte :: (s ++ b) := by
        intro hbegins
        rw [hclosing, List.cons_prefix_cons] at hbegins
        rw [← hbegins.1] at hbyte
        omega
      have hrest := ih hs (a ++ [byte])
      rw [List.append_assoc a, List.length_append] at hrest
      rw [List.append_assoc, List.cons_append, findClosing_append_cons, if_neg hbackslash, if_neg hother]
      simpa using hrest

end Bytes

/-- A delimiter whose bytes begin with an ASCII one. -/
def BeginsAscii (closing : Text) : Prop := ∃ first more, encode closing = first :: more ∧ first.toNat < 0x80

section Characters

variable {closing before t : Text} {c d : Char} {start : Nat}

/-- A character other than a backslash is passed over. -/
theorem findClosing_character (hclosing : BeginsAscii closing) (hc : c ≠ '\\') (hother : ¬closing <+: c :: t) :
    findClosing (encode (before ++ c :: t)) (encode closing) start (encode before).length =
      findClosing (encode (before ++ c :: t)) (encode closing) start (encode (before ++ [c])).length := by
  by_cases hascii : c.toNat < 0x80
  · have hbackslash : UInt8.ofNat c.toNat ≠ 0x5C := by
      intro heq
      have hcode : c.toNat = 0x5C := by
        have hnat := congrArg UInt8.toNat heq
        rw [UInt8.toNat_ofNat', Nat.mod_eq_of_lt (by omega)] at hnat
        exact hnat
      exact hc (by rw [← Char.ofNat_toNat c, hcode])
    rw [← Utf8.encode_prefix_encode_iff, Utf8.encode_cons hascii] at hother
    rw [Utf8.encode_append, Utf8.encode_cons hascii, findClosing_append_cons, if_neg hbackslash, if_neg hother,
      Utf8.encode_append, Utf8.encode_singleton hascii]
    simp
  · -- All bytes of the character are beyond ASCII.
    obtain ⟨first, more, heq, hfirst⟩ := hclosing
    have hsplit : encode (before ++ c :: t) = encode before ++ encode [c] ++ encode t := by
      rw [← Utf8.encode_append, ← Utf8.encode_append, List.append_assoc, List.singleton_append]
    rw [hsplit, Utf8.encode_append]
    exact findClosing_append_of_le start heq hfirst (Utf8.le_of_mem_encode_singleton (Nat.le_of_not_lt hascii)) _ _

theorem encode_backslash_cons (t : Text) : encode ('\\' :: t) = 0x5C :: encode t := Utf8.encode_cons (by decide) t

/-- A backslash is passed over with the character after it, however many bytes that has. -/
theorem findClosing_pair (hclosing : BeginsAscii closing) (hother : ¬closing <+: '\\' :: d :: t) :
    findClosing (encode (before ++ '\\' :: d :: t)) (encode closing) start (encode before).length =
      findClosing (encode (before ++ '\\' :: d :: t)) (encode closing) start (encode (before ++ ['\\', d])).length := by
  obtain ⟨first, more, heq, hfirst⟩ := hclosing
  obtain ⟨byte, bytes, hd, hbytes⟩ := Utf8.exists_encode_singleton d
  have htail : encode (d :: t) = byte :: (bytes ++ encode t) := by
    rw [← List.singleton_append, Utf8.encode_append, hd, List.cons_append]
  -- The second byte that is passed over at the backslash is the first one of the character.
  have hskip := findClosing_append_of_le start heq hfirst hbytes (encode before ++ [0x5C, byte]) (encode t)
  rw [← Utf8.encode_prefix_encode_iff, encode_backslash_cons, htail] at hother
  rw [Utf8.encode_append, encode_backslash_cons, htail, findClosing_append_cons, if_pos rfl, if_neg hother,
    Utf8.encode_append, encode_backslash_cons, hd]
  simpa using hskip

/-- A backslash that ends the text ends the search. -/
theorem findClosing_last (hother : ¬closing <+: ['\\']) :
    findClosing (encode (before ++ ['\\'])) (encode closing) start (encode before).length = none := by
  rw [← Utf8.encode_prefix_encode_iff, encode_backslash_cons] at hother
  rw [Utf8.encode_append, encode_backslash_cons, findClosing_append_cons, if_pos rfl, if_neg hother]
  exact findClosing_of_length_le (by simp [encode])

/-- Past the start the delimiter is found wherever it is looked for. -/
theorem findClosing_closing (hclosing : BeginsAscii closing) (h : closing <+: t)
    (hstart : start < (encode before).length) :
    findClosing (encode (before ++ t)) (encode closing) start (encode before).length = some (encode before).length := by
  obtain ⟨first, more, heq, -⟩ := hclosing
  rw [← Utf8.encode_prefix_encode_iff] at h
  obtain ⟨byte, bytes, ht⟩ : ∃ byte bytes, encode t = byte :: bytes := by
    obtain ⟨rest, hrest⟩ := h
    exact ⟨first, more ++ rest, by rw [← hrest, heq, List.cons_append]⟩
  rw [ht] at h
  rw [Utf8.encode_append, ht, findClosing_append_cons, if_pos h, if_pos h, if_pos hstart, ite_self]

theorem length_encode_lt (before : Text) {unit : Text} (h : unit ≠ []) :
    (encode before).length < (encode (before ++ unit)).length := by
  obtain ⟨c, rest, rfl⟩ := List.exists_cons_of_ne_nil h
  have hpos := c.utf8Size_pos
  rw [Utf8.length_encode, Utf8.length_encode, Text.byteLength_append, Text.byteLength_cons]
  omega

/-- The bytes are searched as the text is read. -/
theorem findClosing_eq_seekClosing (hclosing : BeginsAscii closing) (hle : start ≤ (encode before).length)
    (hstart : closing <+: t → start < (encode before).length) :
    findClosing (encode (before ++ t)) (encode closing) start (encode before).length =
      (seekClosing closing t).map fun found => Text.byteLength (before ++ found.1) := by
  fun_induction seekClosing closing t generalizing before with
  | case1 => exact findClosing_of_length_le (by simp)
  | case2 c t rest hafter =>
      have hbegins : closing <+: c :: t := ⟨rest, (Text.eq_append_of_after? hafter).symm⟩
      rw [findClosing_closing hclosing hbegins (hstart hbegins), Option.map_some, List.append_nil, Utf8.length_encode]
  | case3 hafter => exact findClosing_last (not_prefix_of_after? hafter)
  | case4 d t hafter ih =>
      have hnext := length_encode_lt before (List.cons_ne_nil '\\' [d])
      have hlater := @ih (before ++ ['\\', d]) (by omega) fun _ => by omega
      have hsplit : before ++ '\\' :: d :: t = before ++ ['\\', d] ++ t := by
        rw [List.append_assoc]
        rfl
      rw [findClosing_pair hclosing (not_prefix_of_after? hafter), hsplit, hlater, Option.map_map]
      simp [Function.comp_def]
  | case5 c t hafter hc ih =>
      have hnext := length_encode_lt before (List.cons_ne_nil c [])
      have hlater := @ih (before ++ [c]) (by omega) fun _ => by omega
      rw [findClosing_character hclosing hc (not_prefix_of_after? hafter), List.append_cons, hlater, Option.map_map]
      simp [Function.comp_def]

end Characters

/-- The fence is one of dollar signs. -/
def Fence.IsDollar (fence : Fence) : Prop := fence = .dollar ∨ fence = .dollars

instance (fence : Fence) : Decidable fence.IsDollar := inferInstanceAs (Decidable (_ ∨ _))

/-- Where the closing delimiter is found in a line that begins with the opening one: a number of bytes. -/
def Fence.offset? (fence : Fence) (t : Text) : Option Nat :=
  findClosing (encode (fence.opening ++ t)) (encode fence.closing) (Text.byteLength fence.opening)
    (Text.byteLength fence.opening)

/-- The closing delimiter of a fence is looked for unit by unit in the text after the opening one. -/
structure SearchesByUnits (fence : Fence) (t : Text) : Prop where
  /-- The bytes before what is found are those of the opening delimiter and of the body. -/
  offset?_eq : fence.offset? t = (mathBody? fence t).map fun found => Text.byteLength (fence.opening ++ found.1)
  /-- What is found is the first place; no body between dollar signs is empty. -/
  offset?_eq_some_iff : ∀ offset, fence.offset? t = some offset ↔
    ∃ body, ClosesFirst fence.closing t body ∧ ¬(fence.IsDollar ∧ body = []) ∧
      offset = Text.byteLength (fence.opening ++ body)
  offset?_eq_none_iff : fence.offset? t = none ↔
    (∀ body, ¬ClosesAfter fence.closing t body) ∨ fence.IsDollar ∧ ClosesAfter fence.closing t []
  /-- A character begins there, not before the end of the opening delimiter. -/
  boundary : ∀ offset, fence.offset? t = some offset → Text.byteLength fence.opening ≤ offset ∧
    ∃ body rest, t = body ++ fence.closing ++ rest ∧ offset = Text.byteLength (fence.opening ++ body)
  /-- The character after a backslash that begins a unit is passed over. -/
  escaped : ∀ us c vs, units t = us ++ ['\\', c] :: vs →
    fence.offset? t ≠ some (Text.byteLength (fence.opening ++ (us.flatten ++ ['\\'])))

section Fences

variable {fence : Fence} {t body rest : Text}

theorem Fence.beginsAscii_closing (fence : Fence) : BeginsAscii fence.closing := by
  cases fence <;> exact ⟨_, _, rfl, by decide⟩

theorem Fence.IsDollar.closing_eq (h : fence.IsDollar) : ∃ more, fence.closing = '$' :: more := by
  obtain rfl | rfl := h <;> exact ⟨_, rfl⟩

theorem Fence.closing_eq (h : ¬fence.IsDollar) : ∃ more, fence.closing = '\\' :: more := by
  cases fence with
  | parentheses | brackets => exact ⟨_, rfl⟩
  | dollars => exact absurd (.inr rfl) h
  | dollar => exact absurd (.inl rfl) h

theorem Fence.closing_ne_nil (fence : Fence) : fence.closing ≠ [] := by
  cases fence <;> exact List.cons_ne_nil _ _

/-- At the start of the search only a delimiter with a backslash is found. -/
theorem findClosing_start (fence : Fence) (before rest : Text) :
    findClosing (encode (before ++ (fence.closing ++ rest))) (encode fence.closing) (encode before).length
      (encode before).length = if fence.IsDollar then none else some (encode before).length := by
  have hbegins : encode fence.closing <+: encode (fence.closing ++ rest) :=
    Utf8.encode_prefix_encode_iff.mpr (List.prefix_append _ _)
  by_cases hdollar : fence.IsDollar
  · obtain ⟨more, hmore⟩ := hdollar.closing_eq
    have hbytes : encode (fence.closing ++ rest) = 0x24 :: encode (more ++ rest) := by
      rw [hmore]
      exact Utf8.encode_cons (by decide) _
    rw [hbytes] at hbegins
    rw [Utf8.encode_append, hbytes, findClosing_append_cons, if_neg (by decide), if_pos hbegins,
      if_neg (Nat.lt_irrefl _), if_pos hdollar]
  · obtain ⟨more, hmore⟩ := Fence.closing_eq hdollar
    have hbytes : encode (fence.closing ++ rest) = 0x5C :: encode (more ++ rest) := by
      rw [hmore]
      exact encode_backslash_cons _
    rw [hbytes] at hbegins
    rw [Utf8.encode_append, hbytes, findClosing_append_cons, if_pos rfl, if_pos hbegins, if_neg hdollar]

theorem mathBody?_closing (fence : Fence) (rest : Text) :
    mathBody? fence (fence.closing ++ rest) = if fence.IsDollar then none else some ([], rest) := by
  have hafter := Text.after?_append fence.closing rest
  have hstarts : Text.startsWith fence.closing (fence.closing ++ rest) = true := by
    rw [Text.startsWith, hafter]
    rfl
  have hseek : seekClosing fence.closing (fence.closing ++ rest) = some ([], rest) := by
    obtain ⟨c, more, hmore⟩ := List.exists_cons_of_ne_nil fence.closing_ne_nil
    rw [hmore, List.cons_append] at hafter ⊢
    rw [seekClosing.eq_def]
    simp only [hafter]
  by_cases hdollar : fence.IsDollar
  · rw [mathBody?, if_pos ⟨hdollar, hstarts⟩, if_pos hdollar]
  · rw [mathBody?, if_neg fun h => hdollar h.1, if_neg hdollar, hseek]

theorem mathBody?_of_not_closing (h : ¬fence.closing <+: t) : mathBody? fence t = seekClosing fence.closing t := by
  unfold mathBody?
  refine if_neg fun hstart => h ?_
  obtain ⟨rest, hrest⟩ := Option.isSome_iff_exists.mp hstart.2
  exact ⟨rest, (Text.eq_append_of_after? hrest).symm⟩

theorem Fence.offset?_eq (fence : Fence) (t : Text) :
    fence.offset? t = (mathBody? fence t).map fun found => Text.byteLength (fence.opening ++ found.1) := by
  rw [Fence.offset?, ← Utf8.length_encode]
  by_cases hbegins : fence.closing <+: t
  · obtain ⟨rest, rfl⟩ := hbegins
    rw [findClosing_start, mathBody?_closing]
    split
    · rfl
    · rw [Option.map_some, List.append_nil, Utf8.length_encode]
  · rw [findClosing_eq_seekClosing fence.beginsAscii_closing (Nat.le_refl _) fun h => absurd h hbegins,
      mathBody?_of_not_closing hbegins]

/-- The body of mathematics ends at the first place, and it is not empty between dollar signs. -/
theorem mathBody?_eq_some (h : mathBody? fence t = some (body, rest)) :
    ClosesFirst fence.closing t body ∧ ¬(fence.IsDollar ∧ body = []) := by
  by_cases hbegins : fence.closing <+: t
  · obtain ⟨after, rfl⟩ := hbegins
    rw [mathBody?_closing] at h
    split at h
    · cases h
    · rename_i hdollar
      obtain ⟨rfl, -⟩ := Prod.mk.inj (Option.some.inj h)
      exact ⟨closesFirst_nil (List.prefix_append _ after), fun hempty => hdollar hempty.1⟩
  · rw [mathBody?_of_not_closing hbegins] at h
    refine ⟨seekClosing_eq_some h, fun ⟨_, hempty⟩ => hbegins ⟨rest, ?_⟩⟩
    rw [eq_append_of_seekClosing h, hempty, List.nil_append]

theorem mathBody?_eq_none (h : mathBody? fence t = none) :
    (∀ body, ¬ClosesAfter fence.closing t body) ∨ fence.IsDollar ∧ ClosesAfter fence.closing t [] := by
  by_cases hbegins : fence.closing <+: t
  · obtain ⟨after, rfl⟩ := hbegins
    rw [mathBody?_closing] at h
    split at h
    · rename_i hdollar
      exact .inr ⟨hdollar, (closesFirst_nil (List.prefix_append _ after)).1⟩
    · cases h
  · rw [mathBody?_of_not_closing hbegins] at h
    exact .inl (seekClosing_eq_none fence.closing_ne_nil h)

theorem Fence.offset?_eq_some_iff {offset : Nat} : fence.offset? t = some offset ↔
    ∃ body, ClosesFirst fence.closing t body ∧ ¬(fence.IsDollar ∧ body = []) ∧
      offset = Text.byteLength (fence.opening ++ body) := by
  rw [Fence.offset?_eq, Option.map_eq_some_iff]
  constructor
  · rintro ⟨⟨body, rest⟩, hbody, rfl⟩
    obtain ⟨hfirst, hempty⟩ := mathBody?_eq_some hbody
    exact ⟨body, hfirst, hempty, rfl⟩
  · rintro ⟨body, hfirst, hempty, rfl⟩
    cases hfound : mathBody? fence t with
    | none =>
        rcases mathBody?_eq_none hfound with hnone | ⟨hdollar, hcloses⟩
        · exact absurd hfirst.1 (hnone body)
        · exact absurd ⟨hdollar, List.prefix_nil.mp (hfirst.2 [] hcloses)⟩ hempty
    | some found =>
        refine ⟨found, rfl, ?_⟩
        rw [(mathBody?_eq_some hfound).1.eq hfirst]

end Fences

/-- In whatever text the closing delimiter of a fence is looked for, what is found is the first place between two
units. -/
theorem searchesByUnits (fence : Fence) (t : Text) : SearchesByUnits fence t where
  offset?_eq := fence.offset?_eq t
  offset?_eq_some_iff _ := Fence.offset?_eq_some_iff
  offset?_eq_none_iff := by
    constructor
    · intro hnone
      rw [Fence.offset?_eq, Option.map_eq_none_iff] at hnone
      exact mathBody?_eq_none hnone
    · intro h
      refine Option.eq_none_iff_forall_ne_some.mpr fun offset hoffset => ?_
      obtain ⟨body, hfirst, hempty, -⟩ := Fence.offset?_eq_some_iff.mp hoffset
      rcases h with hnone | ⟨hdollar, hcloses⟩
      · exact hnone body hfirst.1
      · exact hempty ⟨hdollar, List.prefix_nil.mp (hfirst.2 [] hcloses)⟩
  boundary offset h := by
    obtain ⟨body, hfirst, -, rfl⟩ := Fence.offset?_eq_some_iff.mp h
    obtain ⟨rest, hrest⟩ := hfirst.1.exists_eq_append
    refine ⟨?_, body, rest, hrest, rfl⟩
    rw [Text.byteLength_append]
    exact Nat.le_add_right _ _
  escaped us c vs hunits h := by
    obtain ⟨body, hfirst, -, hoffset⟩ := Fence.offset?_eq_some_iff.mp h
    rw [Text.byteLength_append, Text.byteLength_append fence.opening] at hoffset
    exact hfirst.1.byteLength_ne (List.cons_ne_nil '\\' []) (List.cons_ne_nil c []) hunits (by omega)

/-- An escaped dollar sign does not close mathematics, and nothing is between two dollar signs in a row. -/
example : Fence.dollar.offset? "a \\$ b$" = some 7 ∧ Fence.dollar.offset? "$" = none := by
  cbv

end Manuscript.Source
