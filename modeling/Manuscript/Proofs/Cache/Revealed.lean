import Manuscript.Proofs.Cache.Calls
import Manuscript.Proofs.Text.Trim
import Manuscript.Source.Inline

/-!
Texts with the characters beyond ASCII in place of their tokens.

Main statement: what is put in place of tokens is put in between the characters that no token holds
(`revealed_append_cons`).
-/

namespace Manuscript

open Source (isAscii)

namespace Text

/-- The rest of an occurrence is passed over before a character that it does not hold. -/
theorem sweep_append_cons {mark : Text} {c : Char} (hne : mark ≠ []) (hc : c ∉ mark) (new t rest : Text) :
    ∀ {skip : Nat}, skip ≤ t.length →
      replaceAll.sweep mark new skip (t ++ c :: rest) =
        replaceAll.sweep mark new skip t ++ c :: replaceAll.sweep mark new 0 rest := by
  have hstarts : ∀ t : Text, startsWith mark (t ++ c :: rest) = startsWith mark t := by
    intro t
    rw [startsWith, after?_append_cons hc, Option.isSome_map, startsWith]
  induction t with
  | nil =>
      intro skip hskip
      obtain rfl : skip = 0 := Nat.le_zero.mp hskip
      have hnone : startsWith mark [] = false := by
        cases mark with
        | nil => exact absurd rfl hne
        | cons => rfl
      have hsplit := hstarts []
      rw [List.nil_append, hnone] at hsplit
      simp [replaceAll.sweep, hsplit]
  | cons d t ih =>
      intro skip hskip
      rw [List.length_cons] at hskip
      cases skip with
      | succ skip => exact ih (by omega)
      | zero =>
          have hsplit := hstarts (d :: t)
          rw [List.cons_append] at hsplit ⊢
          rw [replaceAll.sweep, replaceAll.sweep, hsplit]
          split
          · rename_i hmark
            obtain ⟨after, hafter⟩ := Option.isSome_iff_exists.mp hmark
            have hlength := congrArg List.length (eq_append_of_after? hafter)
            rw [List.length_cons, List.length_append] at hlength
            rw [ih (by omega), List.append_assoc]
          · rw [ih (Nat.zero_le _), List.cons_append]

/-- A mark is replaced on either side of a character that it does not hold. -/
theorem replaceAll_append_cons {mark : Text} {c : Char} (hne : mark ≠ []) (hc : c ∉ mark) (new t rest : Text) :
    replaceAll mark new (t ++ c :: rest) = replaceAll mark new t ++ c :: replaceAll mark new rest := by
  rw [replaceAll, if_neg hne, replaceAll, if_neg hne, replaceAll, if_neg hne]
  exact sweep_append_cons hne hc new t rest (Nat.zero_le _)

/-- A character is there after a replacement if it was there before or is put in. -/
theorem mem_of_mem_replaceAll {mark new t : Text} {c : Char} (h : c ∈ replaceAll mark new t) : c ∈ t ∨ c ∈ new := by
  have hsweep : ∀ (t : Text) (skip : Nat), c ∈ replaceAll.sweep mark new skip t → c ∈ t ∨ c ∈ new := by
    intro t
    induction t with
    | nil =>
        intro skip h
        cases skip <;> cases h
    | cons d t ih =>
        intro skip h
        cases skip with
        | succ skip => exact (ih skip h).imp_left (List.mem_cons_of_mem d)
        | zero =>
            rw [replaceAll.sweep] at h
            split at h
            · rcases List.mem_append.mp h with hnew | hlater
              · exact .inr hnew
              · exact (ih _ hlater).imp_left (List.mem_cons_of_mem d)
            · rcases List.mem_cons.mp h with rfl | hlater
              · exact .inl List.mem_cons_self
              · exact (ih 0 hlater).imp_left (List.mem_cons_of_mem d)
  unfold replaceAll at h
  split at h
  · rcases List.mem_append.mp h with hnew | hmem
    · exact .inr hnew
    · obtain ⟨d, hd, hmem⟩ := List.mem_flatMap.mp hmem
      rcases List.mem_cons.mp hmem with rfl | hnew
      · exact .inl hd
      · exact .inr hnew
  · exact hsweep t 0 h

end Text

namespace Cache

/-- The text with characters beyond ASCII in place of their tokens. -/
def revealed (c : Cache) (t : Text) : Text := replaceEntries Entry.content (c.entries.filter (·.kind = .unicode)) t

/-- What stands for characters beyond ASCII is a token of hexadecimal digits, and stands for no others. -/
structure IsCoded (e : Entry) : Prop where
  token_ne_nil : e.token ≠ []
  token : ∀ ch ∈ e.token, ch ∈ hexDigits
  content : ∀ ch ∈ e.content, isAscii ch = false

section Entries

variable {entries : List Entry} (hcoded : ∀ e ∈ entries, IsCoded e)

include hcoded

theorem replaceEntries_append_cons {ch : Char} (hch : ch ∉ hexDigits) (t rest : Text) :
    replaceEntries Entry.content entries (t ++ ch :: rest) =
      replaceEntries Entry.content entries t ++ ch :: replaceEntries Entry.content entries rest := by
  unfold replaceEntries
  induction entries generalizing t rest with
  | nil => rfl
  | cons e entries ih =>
      obtain ⟨he, hcoded⟩ := List.forall_mem_cons.mp hcoded
      have hnotMem : ch ∉ e.token := fun hmem => hch (he.token ch hmem)
      rw [List.foldl_cons, Text.replaceAll_append_cons he.token_ne_nil hnotMem, ih hcoded, List.foldl_cons,
        List.foldl_cons]

theorem replaceEntries_nil : replaceEntries Entry.content entries [] = [] := by
  unfold replaceEntries
  induction entries with
  | nil => rfl
  | cons e entries ih =>
      obtain ⟨he, hcoded⟩ := List.forall_mem_cons.mp hcoded
      have hnone : Text.replaceAll e.token e.content [] = [] := by
        rw [Text.replaceAll, if_neg he.token_ne_nil]
        rfl
      rw [List.foldl_cons, hnone, ih hcoded]

theorem mem_of_mem_replaceEntries {t : Text} {ch : Char} (h : ch ∈ replaceEntries Entry.content entries t) :
    ch ∈ t ∨ isAscii ch = false := by
  unfold replaceEntries at h
  induction entries generalizing t with
  | nil => exact .inl h
  | cons e entries ih =>
      obtain ⟨he, hcoded⟩ := List.forall_mem_cons.mp hcoded
      rcases ih hcoded h with hmem | hbeyond
      · exact (Text.mem_of_mem_replaceAll hmem).imp_right (he.content ch)
      · exact .inr hbeyond

end Entries

section Revealed

variable {c : Cache} (hcoded : ∀ e ∈ c.entries, e.kind = .unicode → IsCoded e)

include hcoded

theorem isCoded_of_mem_filter : ∀ e ∈ c.entries.filter (·.kind = .unicode), IsCoded e := by
  intro e he
  obtain ⟨hmem, hkind⟩ := List.mem_filter.mp he
  exact hcoded e hmem (of_decide_eq_true hkind)

/-- Characters are put in between those that no token holds. -/
theorem revealed_append_cons {ch : Char} (hch : ch ∉ hexDigits) (t rest : Text) :
    c.revealed (t ++ ch :: rest) = c.revealed t ++ ch :: c.revealed rest :=
  replaceEntries_append_cons (isCoded_of_mem_filter hcoded) hch t rest

theorem mem_of_mem_revealed {t : Text} {ch : Char} (h : ch ∈ c.revealed t) : ch ∈ t ∨ isAscii ch = false :=
  mem_of_mem_replaceEntries (isCoded_of_mem_filter hcoded) h

/-- Where there is no hexadecimal digit, there is no token. -/
theorem revealed_eq_self {t : Text} (ht : ∀ ch ∈ t, ch ∉ hexDigits) : c.revealed t = t := by
  have hnil : c.revealed [] = [] := replaceEntries_nil (isCoded_of_mem_filter hcoded)
  induction t with
  | nil => exact hnil
  | cons ch t ih =>
      obtain ⟨hch, ht⟩ := List.forall_mem_cons.mp ht
      have hsplit := revealed_append_cons hcoded hch [] t
      rw [List.nil_append, hnil, ih ht] at hsplit
      exact hsplit

end Revealed

/-- The entries of a cache are those of some of the calls. -/
theorem exists_call_of_mem_build {salt : Text} {calls : List Call} {e : Entry} (h : e ∈ (build salt calls).entries) :
    ∃ call ∈ calls, call.cached? salt = some e := by
  have hinsert : ∀ (c : Cache) (new : Entry), e ∈ (c.insert new).entries → e ∈ c.entries ∨ e = new := by
    intro c new hmem
    unfold insert at hmem
    split at hmem
    · exact .inl hmem
    · exact (List.mem_append.mp hmem).imp_right List.mem_singleton.mp
  have hperform : ∀ (calls : List Call) (c : Cache), e ∈ (c.perform calls).entries →
      e ∈ c.entries ∨ ∃ call ∈ calls, call.cached? c.salt = some e := by
    intro calls
    induction calls with
    | nil => exact fun c hmem => .inl hmem
    | cons call calls ih =>
        intro c hmem
        have hlater := ih (call.perform c).2 hmem
        rw [salt_perform_call] at hlater
        rcases hlater with hentry | ⟨later, hlater, hcached⟩
        · have hfirst : e ∈ c.entries ∨ call.cached? c.salt = some e := by
            cases call with
            | label name =>
                simp only [Call.perform, addLabel] at hentry
                split at hentry <;> exact .inl hentry
            | _ => exact (hinsert c _ hentry).imp_right fun hnew => congrArg some hnew.symm
          exact hfirst.imp_right fun hcached => ⟨call, List.mem_cons_self, hcached⟩
        · exact .inr ⟨later, List.mem_cons_of_mem call hlater, hcached⟩
  exact (hperform calls (empty salt) h).resolve_left List.not_mem_nil

end Cache

end Manuscript
