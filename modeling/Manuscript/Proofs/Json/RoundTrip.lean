import Mathlib.Data.List.Basic
import Manuscript.Json.Reader

/-!
Objects of strings come back from their compact form.

Main statement: `parse?_compact`; the lexer gives back the lexemes that were written (`run_quote`, `run_members`), and
they are gathered into the object again (`gather_members`).
-/

namespace Manuscript.Json

open Lexer (run step start)

/-- The lexemes of an object's members, up to the brace at its end. -/
def memberTokens : List (Text × Text) → List Token
  | [] => [.mark '\x7d']
  | [(key, value)] => [.string (some key), .mark ':', .string (some value), .mark '\x7d']
  | (key, value) :: next :: rest =>
    .string (some key) :: .mark ':' :: .string (some value) :: .mark ',' :: memberTokens (next :: rest)

theorem run_cons (s : Lexer.State) (c : Char) (rest : Text) :
    run s (c :: rest) = (step s c).bind fun r => (run r.1 rest).map (r.2 ++ ·) := by
  rw [run]
  cases step s c with
  | none => rfl
  | some r =>
      obtain ⟨s', complete⟩ := r
      simp only [Option.bind_eq_bind, Option.bind_some]
      cases run s' rest <;> rfl

/-- A character that completes no lexeme. -/
theorem run_cons_of_step {s r : Lexer.State} {c : Char} (h : step s c = some (r, [])) (rest : Text) :
    run s (c :: rest) = run r rest := by
  simp [run_cons, h]

/-- A character that completes a lexeme. -/
theorem run_cons_of_step_token {s r : Lexer.State} {c : Char} {token : Token} (h : step s c = some (r, [token]))
    (rest : Text) : run s (c :: rest) = (run r rest).map (token :: ·) := by
  simp [run_cons, h]

theorem hexValue?_hexDigit (n : Nat) : Lexer.hexValue? (hexDigit n) = some (n % 16) := by
  have hall : ∀ m < 16, Lexer.hexValue? (Nat.digitChar m) = some m := by decide
  exact hall (n % 16) (by omega)

/-- A control character is read back from its code in four hexadecimal digits. -/
theorem run_unit (backwards : Text) {c : Char} (hc : c.toNat < 32) (rest : Text) :
    run (.string ⟨backwards, true, none⟩) ('\\' :: 'u' :: '0' :: '0' :: hexDigit (c.toNat / 16) :: hexDigit c.toNat :: rest) =
      run (.string ⟨c :: backwards, true, none⟩) rest := by
  let q : Lexer.Quoted := ⟨backwards, true, none⟩
  have h₁ : step (.unit q 2 0) (hexDigit (c.toNat / 16)) = some (.unit q 3 (0 * 16 + c.toNat / 16 % 16), []) := by
    simp [step, hexValue?_hexDigit]
  have h₂ : step (.unit q 3 (0 * 16 + c.toNat / 16 % 16)) (hexDigit c.toNat) =
      some (.string (q.pushUnit ((0 * 16 + c.toNat / 16 % 16) * 16 + c.toNat % 16)), []) := by
    simp [step, hexValue?_hexDigit]
  have hvalue : (0 * 16 + c.toNat / 16 % 16) * 16 + c.toNat % 16 = c.toNat := by omega
  have hpush : q.pushUnit c.toNat = ⟨c :: backwards, true, none⟩ := by
    rw [Lexer.Quoted.pushUnit, if_neg (by omega), if_neg (by omega), Char.ofNat_toNat]
    rfl
  rw [hvalue, hpush] at h₂
  calc
    _ = run (.unit q 2 0) (hexDigit (c.toNat / 16) :: hexDigit c.toNat :: rest) := by
      rw [run_cons_of_step (r := .escape q) rfl, run_cons_of_step (r := .unit q 0 0) rfl,
        run_cons_of_step (r := .unit q 1 0) rfl, run_cons_of_step (r := .unit q 2 0) rfl]
    _ = _ := by rw [run_cons_of_step h₁, run_cons_of_step h₂]

/-- A character after a backslash is read as the character it stands for. -/
theorem run_escaped (backwards : Text) {c e : Char} (hu : c ≠ 'u') (he : Lexer.escaped? c = some e) (rest : Text) :
    run (.string ⟨backwards, true, none⟩) ('\\' :: c :: rest) = run (.string ⟨e :: backwards, true, none⟩) rest := by
  have hstep : step (.escape ⟨backwards, true, none⟩) c = some (.string ⟨e :: backwards, true, none⟩, []) := by
    simp only [step, if_neg hu, he, Option.map_some]
    rfl
  rw [run_cons_of_step (r := .escape ⟨backwards, true, none⟩) rfl, run_cons_of_step hstep]

theorem eq_ofNat_of_toNat {c : Char} {n : Nat} (h : c.toNat = n) : c = Char.ofNat n := by
  rw [← h, Char.ofNat_toNat]

/-- A character is written as a short escape, by its code if it is another control character, or as it is. -/
theorem stringCharacter_cases (c : Char) :
    (∃ e, e ≠ 'u' ∧ Lexer.escaped? e = some c ∧ stringCharacter c = ['\\', e]) ∨
      (c.toNat < 32 ∧ stringCharacter c = ['\\', 'u', '0', '0', hexDigit (c.toNat / 16), hexDigit c.toNat]) ∨
      (c ≠ '"' ∧ c ≠ '\\' ∧ ¬c.toNat < 32 ∧ stringCharacter c = [c]) := by
  unfold stringCharacter
  split_ifs with hquote hbackslash hfeed hreturn htab hbackspace hform hcontrol
  · exact .inl ⟨'"', by decide, by rw [hquote]; rfl, rfl⟩
  · exact .inl ⟨'\\', by decide, by rw [hbackslash]; rfl, rfl⟩
  · exact .inl ⟨'n', by decide, by rw [hfeed]; rfl, rfl⟩
  · exact .inl ⟨'r', by decide, by rw [hreturn]; rfl, rfl⟩
  · exact .inl ⟨'t', by decide, by rw [htab]; rfl, rfl⟩
  · exact .inl ⟨'b', by decide, by rw [eq_ofNat_of_toNat hbackspace]; rfl, rfl⟩
  · exact .inl ⟨'f', by decide, by rw [eq_ofNat_of_toNat hform]; rfl, rfl⟩
  · exact .inr (.inl ⟨hcontrol, rfl⟩)
  · exact .inr (.inr ⟨hquote, hbackslash, hcontrol, rfl⟩)

/-- A written character is read as the character. -/
theorem run_stringCharacter (backwards : Text) (c : Char) (rest : Text) :
    run (.string ⟨backwards, true, none⟩) (stringCharacter c ++ rest) =
      run (.string ⟨c :: backwards, true, none⟩) rest := by
  obtain ⟨e, hu, hescaped, heq⟩ | ⟨hcontrol, heq⟩ | ⟨hquote, hbackslash, hcontrol, heq⟩ := stringCharacter_cases c
  · rw [heq]
    exact run_escaped backwards hu hescaped rest
  · rw [heq]
    exact run_unit backwards hcontrol rest
  · have hstep : step (.string ⟨backwards, true, none⟩) c = some (.string ⟨c :: backwards, true, none⟩, []) := by
      rw [step, if_neg hquote, if_neg hbackslash, if_neg hcontrol]
      rfl
    rw [heq]
    exact run_cons_of_step hstep rest

/-- A quoted text is read as one string. -/
theorem run_string (backwards t rest : Text) :
    run (.string ⟨backwards, true, none⟩) (t.flatMap stringCharacter ++ '"' :: rest) =
      (run .between rest).map (.string (some (backwards.reverse ++ t)) :: ·) := by
  induction t generalizing backwards with
  | nil =>
      rw [List.append_nil]
      exact run_cons_of_step_token rfl rest
  | cons c t ih =>
      rw [List.flatMap_cons, List.append_assoc, run_stringCharacter, ih, List.reverse_cons, List.append_assoc,
        List.singleton_append]

theorem run_quote (t rest : Text) :
    run .between (quote t ++ rest) = (run .between rest).map (.string (some t) :: ·) := by
  rw [quote, List.append_assoc, List.cons_append, run_cons_of_step (r := .string ⟨[], true, none⟩) rfl]
  exact run_string [] t rest

/-- A member of an object of strings. -/
def member (p : Text × Text) : Option Text × Json := (some p.1, ofText p.2)

/-- A written member is read as its lexemes. -/
theorem run_member (p : Text × Text) (rest : Text) :
    run .between (quote p.1 ++ ":" ++ compact (ofText p.2) ++ rest) =
      (run .between rest).map fun tokens => .string (some p.1) :: .mark ':' :: .string (some p.2) :: tokens := by
  have hcolon : ∀ t : Text, run .between ((":" : Text) ++ t) = (run .between t).map (.mark ':' :: ·) :=
    fun t => run_cons_of_step_token rfl t
  have hvalue : compact (ofText p.2) = quote p.2 := by
    rw [ofText, compact, Option.getD_some]
  rw [hvalue, List.append_assoc, List.append_assoc, run_quote, hcolon, run_quote]
  cases run .between rest <;> rfl

/-- Written members are read as their lexemes. -/
theorem run_members (pairs : List (Text × Text)) :
    run .between (Text.join "," (compactMembers (pairs.map member)) ++ "\x7d") = some (memberTokens pairs) := by
  induction pairs with
  | nil => rfl
  | cons p pairs ih =>
      cases pairs with
      | nil =>
          have hend : run .between ("\x7d" : Text) = some [.mark '\x7d'] := rfl
          simp only [List.map_cons, List.map_nil, member, compactMembers, Option.getD_some, Text.join,
            List.intercalate_singleton]
          rw [run_member, hend]
          rfl
      | cons q pairs =>
          have hcomma : ∀ t : Text, run .between ((("," : String).toList : Text) ++ t) = (run .between t).map (.mark ',' :: ·) :=
            fun t => run_cons_of_step_token rfl t
          simp only [List.map_cons, member, compactMembers, Option.getD_some, Text.join] at ih ⊢
          rw [List.intercalate_cons_cons, List.append_assoc, List.append_assoc, run_member, hcomma, ih]
          rfl

/-- The lexemes of members are gathered into the object. -/
theorem gather_members (before : List (Option Text × Json)) (p : Text × Text) (pairs : List (Text × Text)) :
    gather (.key before) [] (memberTokens (p :: pairs)) = some (.object (before.reverse ++ (p :: pairs).map member)) := by
  induction pairs generalizing before p with
  | nil =>
      simp [memberTokens, gather, ofToken?, member, ofText]
  | cons q pairs ih =>
      have hmember : ∀ rest, gather (.key before) []
          (.string (some p.1) :: .mark ':' :: .string (some p.2) :: .mark ',' :: rest) =
            gather (.key (member p :: before)) [] rest := by
        intro rest
        simp [gather, ofToken?, member, ofText]
      rw [memberTokens, hmember, ih (member p :: before) q, List.reverse_cons, List.append_assoc]
      rfl

/-- Objects of strings come back from their compact form. -/
theorem parse?_compact (pairs : List (Text × Text)) :
    parse? (compact (.object (pairs.map member))) = some (.object (pairs.map member)) := by
  have hbrace : ∀ t : Text, run .between (("\x7b" : Text) ++ t) = (run .between t).map (.mark '\x7b' :: ·) :=
    fun t => run_cons_of_step_token rfl t
  rw [parse?, compact, List.append_assoc, hbrace, run_members]
  simp only [Option.map_some, Option.bind_eq_bind, Option.bind_some]
  cases pairs with
  | nil => rfl
  | cons p pairs => exact gather_members [] p pairs

end Manuscript.Json
