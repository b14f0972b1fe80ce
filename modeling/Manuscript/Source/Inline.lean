import Manuscript.Text.Basic

/-!
A line of prose as a sequence of items: protected characters, `\verb` spans, mathematics, targets of links,
runs of characters beyond ASCII, and single characters.

Main statement: a line is the written forms of its items, one after the other (`flatMap_source_items`).
-/

namespace Manuscript.Source

/-- A pair of delimiters of inline or display mathematics. -/
inductive Fence where
  | parentheses
  | brackets
  | dollars
  | dollar
  deriving DecidableEq

namespace Fence

/-- The opening delimiter. -/
def opening : Fence → Text
  | .parentheses => "\\("
  | .brackets => "\\["
  | .dollars => "$$"
  | .dollar => "$"

/-- The closing delimiter. -/
def closing : Fence → Text
  | .parentheses => "\\)"
  | .brackets => "\\]"
  | .dollars => "$$"
  | .dollar => "$"

/-- The context that the span is cached with. -/
def context : Fence → Text
  | .parentheses | .dollar => "inline"
  | .brackets | .dollars => "display"

/-- The fence that opens at the start of a text. -/
def of? (t : Text) : Option Fence :=
  [parentheses, brackets, dollars, dollar].find? fun fence => Text.startsWith fence.opening t

end Fence

/-- A command whose argument is the target of a link. -/
inductive LinkCommand where
  | url
  | href
  deriving DecidableEq

/-- The command up to its argument. -/
def LinkCommand.opening : LinkCommand → Text
  | .url => "\\url\x7b"
  | .href => "\\href\x7b"

/-- The end of a link command's argument. -/
def linkClosing : Text := "\x7d"

/-- The command of a `\verb` span. -/
def verbCommand : Text := "\\verb"

/-- An item of a line of prose. -/
inductive Item where
  /-- A backslash with the backslash or dollar sign that it protects. -/
  | escaped (c : Char)
  | verb (isStarred : Bool) (delimiter : Char) (body : Text)
  | math (fence : Fence) (body : Text)
  | link (command : LinkCommand) (target : Text)
  /-- A maximal run of characters beyond ASCII. -/
  | beyondAscii (first : Char) (others : Text)
  | character (c : Char)
  deriving DecidableEq

/-- The item as it is written in a manuscript. -/
def Item.source : Item → Text
  | .escaped c => ['\\', c]
  | .verb isStarred delimiter body =>
    verbCommand ++ (if isStarred then ['*'] else []) ++ delimiter :: body ++ [delimiter]
  | .math fence body => fence.opening ++ body ++ fence.closing
  | .link command target => command.opening ++ target ++ linkClosing
  | .beyondAscii first others => first :: others
  | .character c => [c]

/-- Is the character ASCII? -/
def isAscii (c : Char) : Bool := c.toNat < 0x80

/-- Looks for a closing delimiter, passing over every backslash together with the character after it: the
text before the delimiter and the text after it. -/
def seekClosing (closing : Text) : Text → Option (Text × Text)
  | [] => none
  | c :: t =>
    match Text.after? closing (c :: t) with
    | some rest => some ([], rest)
    | none =>
      if c = '\\' then
        match t with
        | [] => none
        | d :: t => (seekClosing closing t).map fun (body, rest) => (c :: d :: body, rest)
      else (seekClosing closing t).map fun (body, rest) => (c :: body, rest)

/-- The body of a mathematical span and the text after it, from the text after the opening delimiter.  No
body between dollar signs is empty. -/
def mathBody? (fence : Fence) (t : Text) : Option (Text × Text) :=
  if (fence = .dollar ∨ fence = .dollars) ∧ Text.startsWith fence.closing t then none
  else seekClosing fence.closing t

/-- Reads a protected character. -/
def escaped? : Text → Option (Item × Text)
  | '\\' :: c :: rest => if c = '\\' ∨ c = '$' then some (.escaped c, rest) else none
  | _ => none

/-- Takes a star off the start of a text. -/
def star (t : Text) : Bool × Text :=
  match Text.after? "*" t with
  | some rest => (true, rest)
  | none => (false, t)

/-- Reads a `\verb` span; neither a letter nor a blank delimits one. -/
def verb? (t : Text) : Option (Item × Text) := do
  let rest ← Text.after? verbCommand t
  let (isStarred, rest) := star rest
  match rest with
  | [] => none
  | delimiter :: rest =>
    if delimiter.isAlpha || isBlank delimiter then none
    else do
      let (body, rest) ← Text.cut? [delimiter] rest
      return (.verb isStarred delimiter body, rest)

/-- Reads a mathematical span. -/
def math? (t : Text) : Option (Item × Text) := do
  let fence ← Fence.of? t
  let rest ← Text.after? fence.opening t
  let (body, rest) ← mathBody? fence rest
  return (.math fence body, rest)

/-- Reads a link command with its argument. -/
def linkWith? (command : LinkCommand) (t : Text) : Option (Item × Text) := do
  let rest ← Text.after? command.opening t
  let (target, rest) ← Text.cut? linkClosing rest
  return (.link command target, rest)

/-- Reads a link command with its argument. -/
def link? (t : Text) : Option (Item × Text) := linkWith? .url t <|> linkWith? .href t

/-- Reads a character, or a run of them beyond ASCII. -/
def character? : Text → Option (Item × Text)
  | [] => none
  | c :: rest =>
    if isAscii c then some (.character c, rest)
    else some (.beyondAscii c (rest.takeWhile (!isAscii ·)), rest.dropWhile (!isAscii ·))

/-- The first item of a line and the text after it. -/
def item? (t : Text) : Option (Item × Text) :=
  escaped? t <|> verb? t <|> math? t <|> link? t <|> character? t

theorem eq_append_of_seekClosing {closing t body rest : Text}
    (h : seekClosing closing t = some (body, rest)) : t = body ++ closing ++ rest := by
  fun_induction seekClosing closing t generalizing body with
  | case1 => simp at h
  | case2 c t rest' hafter =>
      obtain ⟨rfl, rfl⟩ := by simpa using h
      simpa using Text.eq_append_of_after? hafter
  | case3 => simp at h
  | case4 d t _ ih =>
      obtain ⟨⟨body', rest'⟩, hbody, heq⟩ := Option.map_eq_some_iff.mp h
      obtain ⟨rfl, rfl⟩ := by simpa using heq
      simp [ih hbody]
  | case5 c t _ _ ih =>
      obtain ⟨⟨body', rest'⟩, hbody, heq⟩ := Option.map_eq_some_iff.mp h
      obtain ⟨rfl, rfl⟩ := by simpa using heq
      simp [ih hbody]

theorem eq_append_of_escaped? {t rest : Text} {i : Item} (h : escaped? t = some (i, rest)) :
    t = i.source ++ rest := by
  unfold escaped? at h
  split at h
  · split at h
    · obtain ⟨rfl, rfl⟩ := by simpa using h
      rfl
    · simp at h
  · simp at h

theorem eq_append_of_star (t : Text) :
    t = (if (star t).1 then ['*'] else []) ++ (star t).2 := by
  unfold star
  split
  · rename_i h
    simpa using Text.eq_append_of_after? h
  · simp

theorem eq_append_of_verb? {t rest : Text} {i : Item} (h : verb? t = some (i, rest)) :
    t = i.source ++ rest := by
  simp only [verb?, Option.bind_eq_bind, Option.bind_eq_some_iff] at h
  obtain ⟨rest₁, h₁, h⟩ := h
  split at h
  · simp at h
  · rename_i delimiter rest₂ hrest₂
    split at h
    · simp at h
    · simp only [Option.bind_eq_some_iff] at h
      obtain ⟨⟨body, rest₃⟩, hcut, h⟩ := h
      obtain ⟨rfl, rfl⟩ := by simpa using h
      have hstar := eq_append_of_star rest₁
      rw [hrest₂, Text.eq_append_of_cut? hcut] at hstar
      generalize (star rest₁).1 = isStarred at hstar ⊢
      rw [Text.eq_append_of_after? h₁, hstar]
      simp [Item.source]

theorem eq_append_of_math? {t rest : Text} {i : Item} (h : math? t = some (i, rest)) :
    t = i.source ++ rest := by
  simp only [math?, Option.bind_eq_bind, Option.bind_eq_some_iff] at h
  obtain ⟨fence, -, rest₁, h₁, ⟨body, rest₂⟩, h₂, h⟩ := h
  obtain ⟨rfl, rfl⟩ := by simpa using h
  unfold mathBody? at h₂
  split at h₂
  · simp at h₂
  · rw [Text.eq_append_of_after? h₁, eq_append_of_seekClosing h₂]
    simp only [Item.source, List.append_assoc]

theorem eq_append_of_linkWith? {command : LinkCommand} {t rest : Text} {i : Item}
    (h : linkWith? command t = some (i, rest)) : t = i.source ++ rest := by
  simp only [linkWith?, Option.bind_eq_bind, Option.bind_eq_some_iff] at h
  obtain ⟨rest₁, h₁, ⟨target, rest₂⟩, h₂, h⟩ := h
  obtain ⟨rfl, rfl⟩ := by simpa using h
  rw [Text.eq_append_of_after? h₁, Text.eq_append_of_cut? h₂]
  simp only [Item.source, List.append_assoc]

theorem eq_append_of_character? {t rest : Text} {i : Item} (h : character? t = some (i, rest)) :
    t = i.source ++ rest := by
  cases t with
  | nil => simp [character?] at h
  | cons c t =>
      simp only [character?] at h
      split at h
      · obtain ⟨rfl, rfl⟩ := by simpa using h
        rfl
      · obtain ⟨rfl, rfl⟩ := by simpa using h
        simp [Item.source]

theorem eq_append_of_item? {t rest : Text} {i : Item} (h : item? t = some (i, rest)) :
    t = i.source ++ rest := by
  simp only [item?, link?, Option.orElse_eq_orElse, Option.orElse_eq_or, Option.or_eq_some_iff] at h
  rcases h with h | ⟨-, h | ⟨-, h | ⟨-, h | ⟨-, h⟩⟩⟩⟩
  · exact eq_append_of_escaped? h
  · exact eq_append_of_verb? h
  · exact eq_append_of_math? h
  · rcases h with h | ⟨-, h⟩ <;> exact eq_append_of_linkWith? h
  · exact eq_append_of_character? h

theorem Item.source_ne_nil (i : Item) : i.source ≠ [] := by
  cases i with
  | math fence body => cases fence <;> exact List.cons_ne_nil _ _
  | link command target => cases command <;> exact List.cons_ne_nil _ _
  | _ => exact List.cons_ne_nil _ _

theorem length_lt_of_item? {t rest : Text} {i : Item} (h : item? t = some (i, rest)) :
    rest.length < t.length := by
  rw [eq_append_of_item? h, List.length_append]
  have := List.length_pos_iff.mpr i.source_ne_nil
  omega

/-- The items of a line. -/
def items (t : Text) : List Item :=
  match h : item? t with
  | none => []
  | some (i, rest) =>
    have := length_lt_of_item? h
    i :: items rest
termination_by t.length

theorem item?_eq_none {t : Text} (h : item? t = none) : t = [] := by
  simp only [item?, Option.orElse_eq_orElse, Option.orElse_eq_or, Option.or_eq_none_iff] at h
  cases t with
  | nil => rfl
  | cons c t =>
      have hlast := h.2.2.2.2
      simp only [character?] at hlast
      split at hlast <;> simp at hlast

theorem flatMap_source_items (t : Text) : (items t).flatMap Item.source = t := by
  fun_induction items t with
  | case1 t h => simp [item?_eq_none h]
  | case2 t i rest h _ ih => simp [ih, ← eq_append_of_item? h]

end Manuscript.Source
