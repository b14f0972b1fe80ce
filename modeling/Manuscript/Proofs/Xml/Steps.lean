import Manuscript.Xml.Tree

/-!
The readers of XML texts, one step at a time.

Main statements: what is read inside of an element is the next token and what comes after it (`content?_eq`).
-/

namespace Manuscript.Xml

theorem tagEnd?_eq (attributes : List Attribute) (t : Text) :
    tagEnd? attributes t =
      match Text.after? "/>" (skipSpaces t), Text.after? ">" (skipSpaces t) with
      | some rest, _ => some (attributes, true, rest)
      | none, some rest => some (attributes, false, rest)
      | none, none =>
        if t.head?.any isSpace then
          (attribute? (skipSpaces t)).bind fun (a, rest) =>
            if rest.length < t.length then tagEnd? (attributes ++ [a]) rest else none
        else none := by
  rw [tagEnd?]
  split
  · rename_i rest heq
    rw [heq]
    rfl
  · rename_i rest heq
    rw [heq]
    rfl
  · rename_i hslash hend
    have hafter : Text.after? "/>" (skipSpaces t) = none := by
      refine Option.eq_none_iff_forall_ne_some.mpr fun rest hafter => ?_
      exact hslash rest (Text.eq_append_of_after? hafter)
    have hafter' : Text.after? ">" (skipSpaces t) = none := by
      refine Option.eq_none_iff_forall_ne_some.mpr fun rest hafter => ?_
      exact hend rest (Text.eq_append_of_after? hafter)
    simp only [hafter, hafter']
    split
    · cases attribute? (skipSpaces t) <;> rfl
    · rfl

/-- Reads spaces and a comment or a processing instruction, if there is one. -/
def aside? (t : Text) : Option Text :=
  match Text.after? "<!--" (skipSpaces t) with
  | some body => comment? body
  | none => if Text.startsWith "<?" (skipSpaces t) then instruction? (skipSpaces t) else some (skipSpaces t)

theorem asides?_eq (t : Text) :
    asides? t = (aside? t).bind fun next =>
      if next.length < (skipSpaces t).length ∧ (skipSpaces t).length ≤ t.length then asides? next
      else some (skipSpaces t) := by
  rw [asides?]
  unfold aside?
  cases Text.after? "<!--" (skipSpaces t) with
  | some body =>
      dsimp only
      cases comment? body <;> rfl
  | none =>
      dsimp only
      by_cases hstarts : Text.startsWith "<?" (skipSpaces t) = true
      · rw [if_pos hstarts]
        cases instruction? (skipSpaces t) <;> rfl
      · rw [if_neg hstarts]
        rfl

theorem content?_eq (top : Open) (outer : List Open) (t : Text) :
    content? top outer t = (token? t).bind fun next =>
      if next.2.length < t.length then
        match next.1 with
        | .text s => content? (top.addText s) outer next.2
        | .aside => content? top.pause outer next.2
        | .opens name attributes isEmpty =>
          (Open.new? top.scope name attributes).bind fun child =>
            if isEmpty then content? (top.addElement child.close) outer next.2
            else content? child (top :: outer) next.2
        | .closes name =>
          if name ≠ top.name then none
          else
            match outer with
            | [] => some (top.close, next.2)
            | parent :: outer => content? (parent.addElement top.close) outer next.2
      else none := by
  rw [content?]
  cases token? t with
  | none => rfl
  | some next =>
      obtain ⟨token, rest⟩ := next
      simp only [Option.bind_some]
      split
      · cases token with
        | opens name attributes isEmpty =>
            dsimp only
            cases Open.new? top.scope name attributes <;> rfl
        | _ => rfl
      · rfl

theorem token?_of_ne {c : Char} (h : c ≠ '<') (t : Text) : token? (c :: t) = charData? (c :: t) := by
  unfold token?
  split <;> simp_all

theorem token?_opening {c : Char} (h : c ≠ '!' ∧ c ≠ '?' ∧ c ≠ '/') (t : Text) :
    token? ('<' :: c :: t) = opening? (c :: t) := by
  unfold token?
  split <;> simp_all

end Manuscript.Xml
