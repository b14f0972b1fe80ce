import Mathlib
import Manuscript.Proofs.Source.Calls
import Manuscript.Proofs.Source.Passages

/-!
Tokenizing a manuscript and putting the spans back into the result.

Main statement: the manuscript comes back unless a `\verb*` span loses its star or an opaque body without lines
gains one (`restore_tokenize`).
-/

namespace Manuscript

namespace Text

/-- Some lines, each with its line feed. -/
def ended (lines : List Text) : Text := lines.flatMap (· ++ ['\n'])

@[simp] theorem ended_cons (line : Text) (lines : List Text) :
    ended (line :: lines) = line ++ '\n' :: ended lines := by
  simp [ended]

@[simp] theorem ended_append (lines more : List Text) : ended (lines ++ more) = ended lines ++ ended more := by
  simp [ended]

theorem unlines_append_lineFeed {lines : List Text} (h : lines ≠ []) : unlines lines ++ ['\n'] = ended lines := by
  induction lines with
  | nil => exact absurd rfl h
  | cons line lines ih =>
      cases lines with
      | nil => simp [unlines, join, ended]
      | cons next lines =>
          have hrest := ih (List.cons_ne_nil next lines)
          simp only [unlines, join] at hrest ⊢
          rw [List.intercalate_cons_cons, List.append_assoc, hrest, ended_cons line]
          simp

theorem unlines_concat (lines : List Text) (last : Text) : unlines (lines ++ [last]) = ended lines ++ last := by
  have hended : unlines (lines ++ [last]) ++ ['\n'] = ended (lines ++ [last]) := unlines_append_lineFeed (by simp)
  rw [ended_append, ended_cons] at hended
  simpa [ended, ← List.append_assoc] using hended

theorem unlines_splitOn (t : Text) : unlines (t.splitOn '\n') = t :=
  List.intercalate_splitOn '\n'

end Text

namespace Source

/-- The passages of a manuscript, as far as they can be read. -/
def passagesOf (source : Text) : List Passage := (passages .start (source.splitOn '\n')).1

/-- The calls that tokenizing a manuscript makes. -/
def callsOf (source : Text) : List Call := (passagesOf source).flatMap Passage.calls

/-- A manuscript with tokens for what is opaque. -/
def draftOf (salt source : Text) : Draft := Draft.unlines ((passagesOf source).flatMap (Passage.drafts salt))

/-- Does the passage stand for itself?  Hints, raw HTML and code do not. -/
def Passage.isDirect : Passage → Bool
  | .hint _ | .rawHtml _ _ | .code _ _ _ _ _ => false
  | .literal _ _ _ | .math _ _ _ _ | .comment _ | .prose _ => true

/-- How many stars an item loses. -/
def Item.starsLost : Item → Nat
  | .verb true _ _ => 1
  | _ => 0

/-- How many stars of `\verb*` spans a passage loses. -/
def Passage.starsLost : Passage → Nat
  | .prose line => ((items line).map Item.starsLost).sum
  | _ => 0

/-- How many lines a passage gains: one if its opaque body has none. -/
def Passage.linesGained : Passage → Nat
  | .literal _ body _ | .math _ _ body _ => if body = [] then 1 else 0
  | _ => 0

theorem Passage.isCode_eq_false {p : Passage} (h : p.isDirect = true) : p.isCode = false := by
  cases p <;> first | rfl | simp [isDirect] at h

theorem isDirect_of_readBlock {c : Context} {category : Category} {name first last : Text} {body : List Text}
    {p : Passage} (hcategory : category ≠ .code) (h : readBlock c category name first body last = .ok p) :
    p.isDirect = true := by
  cases category with
  | code => exact absurd rfl hcategory
  | literal | math =>
      cases h
      rfl

/-- Without hints, only a `code` environment is code. -/
theorem category_ne_code_of_opened? {c : Context} {line name : Text} {category : Category}
    (hcode : begin? line ≠ some ("code" : Text)) (hhint : c.hint = none)
    (h : opened? c line = some (name, category)) : category ≠ .code := by
  simp only [opened?, hhint, Option.isSome_none, Option.bind_eq_bind, Option.bind_eq_some_iff] at h
  obtain ⟨name', hbegin, category', hcategory, heq⟩ := h
  obtain ⟨rfl, rfl⟩ := by simpa using heq
  have hname : name' ≠ ("code" : Text) := fun heq => hcode (heq ▸ hbegin)
  rintro rfl
  unfold category? at hcategory
  rw [if_neg (not_or.mpr ⟨hname, fun hhinted => Bool.false_ne_true hhinted.1⟩)] at hcategory
  split at hcategory
  · cases hcategory
  · split at hcategory <;> cases hcategory

theorem isDirect_of_next {c c' : Context} {line : Text} {rest rest' : List Text} {p : Passage}
    (hline : Text.startsWith "%=" (Text.trimStart line) = false) (hcode : begin? line ≠ some ("code" : Text))
    (hhint : c.hint = none) (h : next c line rest = .ok (p, c', rest')) :
    p.isDirect = true ∧ c'.hint = none := by
  cases reads_of_next h with
  | hint hfound => simp [hint?_eq_none hline] at hfound
  | rawHtml _ hfound => simp [rawHtml?_eq_none hline] at hfound
  | block _ _ hopened _ hread =>
      exact ⟨isDirect_of_readBlock (category_ne_code_of_opened? hcode hhint hopened) hread, rfl⟩
  | line =>
      exact ⟨by split <;> rfl, c.hint_pass line⟩

theorem isDirect_of_mem_passages {c : Context} {lines : List Text}
    (hlines : ∀ line ∈ lines, Text.startsWith "%=" (Text.trimStart line) = false)
    (hcode : ∀ line ∈ lines, begin? line ≠ some ("code" : Text)) (hhint : c.hint = none) :
    ∀ p ∈ (passages c lines).1, p.isDirect = true := by
  induction c, lines using passages_induction with
  | nil c => simp [passages]
  | error c line rest e hnext => simp [passages_cons_error hnext]
  | ok c line rest p c' rest' hnext ih =>
      have hmem : ∀ {later : Text}, later ∈ rest' → later ∈ line :: rest := by
        intro later hlater
        rw [eq_append_of_next hnext]
        exact List.mem_append_right _ hlater
      obtain ⟨hp, hhint'⟩ := isDirect_of_next (hlines line List.mem_cons_self) (hcode line List.mem_cons_self)
        hhint hnext
      rw [passages_cons_ok hnext]
      intro q hq
      rcases List.mem_cons.mp hq with rfl | hq
      · exact hp
      · exact ih (fun later hlater => hlines later (hmem hlater)) (fun later hlater => hcode later (hmem hlater))
          hhint' q hq

/-- Texts that agree part by part, up to what is lost and what is gained, agree as a whole. -/
theorem perm_flatMap_append_replicate {α : Type} {f g : α → Text} {lost gained : α → Nat} {c d : Char}
    {l : List α} (h : ∀ a ∈ l, (f a ++ List.replicate (lost a) c).Perm (g a ++ List.replicate (gained a) d)) :
    (l.flatMap f ++ List.replicate (l.map lost).sum c).Perm
      (l.flatMap g ++ List.replicate (l.map gained).sum d) := by
  induction l with
  | nil => exact .refl _
  | cons a l ih =>
      have hhead := h a List.mem_cons_self
      have hrest := ih fun b hb => h b (List.mem_cons_of_mem a hb)
      rw [List.perm_iff_count] at hhead hrest ⊢
      intro x
      have hx := hhead x
      have hx' := hrest x
      simp only [List.flatMap_cons, List.map_cons, List.sum_cons, List.count_append, List.count_replicate]
        at hx hx' ⊢
      split at hx <;> split at hx <;> simp_all <;> omega

theorem Item.perm_restored (i : Item) : (i.restored ++ List.replicate i.starsLost '*').Perm i.source := by
  cases i with
  | verb isStarred delimiter body =>
      cases isStarred with
      | false => simp [restored, starsLost]
      | true =>
          simp only [restored, starsLost, source, if_true, Bool.false_eq_true, if_false, List.append_nil]
          rw [List.perm_iff_count]
          intro x
          simp only [List.count_append, List.count_cons, List.count_nil, List.replicate_one]
          omega
  | _ => simp [restored, starsLost]

theorem perm_restored_items (line : Text) :
    ((items line).flatMap Item.restored ++ List.replicate ((items line).map Item.starsLost).sum '*').Perm line := by
  have hperm : ((items line).flatMap Item.restored ++ List.replicate ((items line).map Item.starsLost).sum '*').Perm
      ((items line).flatMap Item.source ++ List.replicate ((items line).map fun _ => 0).sum '*') :=
    perm_flatMap_append_replicate fun i _ => by simpa using i.perm_restored
  rw [flatMap_source_items] at hperm
  simpa using hperm

theorem ended_unlines (first : Text) {body : List Text} (hbody : body ≠ []) (last : Text) :
    Text.ended [first, Text.unlines body, last] = Text.ended (first :: body ++ [last]) := by
  have hended := Text.unlines_append_lineFeed hbody
  simp [← hended]

/-- An empty body that is joined to one line becomes an empty line. -/
theorem perm_ended_unlines (first : Text) (body : List Text) (last : Text) :
    (Text.ended [first, Text.unlines body, last]).Perm
      (Text.ended (first :: body ++ [last]) ++ List.replicate (if body = [] then 1 else 0) '\n') := by
  by_cases hempty : body = []
  · subst hempty
    rw [List.perm_iff_count]
    intro x
    simp only [Text.unlines, Text.join, List.intercalate_nil, Text.ended, List.flatMap_cons, List.flatMap_nil,
      List.nil_append, List.cons_append, if_true, List.replicate_one, List.count_append, List.count_cons,
      List.count_nil]
    omega
  · rw [if_neg hempty, List.replicate_zero, List.append_nil, ended_unlines first hempty last]

theorem Passage.restored_math {environment first last : Text} {body : List Text}
    (hlabels : ∀ line ∈ body, loneLabel? line = none) :
    (math environment first body last).restored = [first, Text.unlines body, last] := by
  have hfilter : body.filter (fun line => (loneLabel? line).isNone) = body :=
    List.filter_eq_self.mpr fun line hline => Option.isNone_iff_eq_none.mpr (hlabels line hline)
  have hfilterMap : body.filterMap loneLabel? = [] := List.filterMap_eq_nil_iff.mpr hlabels
  rw [restored, hfilter, hfilterMap]
  rfl

/-- The lines in the body of a mathematical environment do more than define labels. -/
def Passage.HasNoLoneLabel (p : Passage) : Prop :=
  ∀ environment first body last, p = .math environment first body last → ∀ line ∈ body, loneLabel? line = none

theorem Passage.perm_restored {p : Passage} (hp : p.isDirect = true) (hlabels : p.HasNoLoneLabel) :
    (Text.ended p.restored ++ List.replicate p.starsLost '*').Perm
      (Text.ended p.lines ++ List.replicate p.linesGained '\n') := by
  cases p with
  | hint line | rawHtml line html | code first body last hint isInListing => simp [isDirect] at hp
  | comment line => exact .refl _
  | literal first body last =>
      have hbody := perm_ended_unlines first body last
      rwa [← List.append_nil (Text.ended [first, Text.unlines body, last])] at hbody
  | math environment first body last =>
      have hbody := perm_ended_unlines first body last
      rw [restored_math (hlabels environment first body last rfl)]
      rwa [← List.append_nil (Text.ended [first, Text.unlines body, last])] at hbody
  | prose line =>
      have hitems := List.perm_iff_count.mp (perm_restored_items line)
      rw [List.perm_iff_count]
      intro x
      have hx := hitems x
      simp only [restored, starsLost, lines, linesGained, Text.ended, List.flatMap_cons, List.flatMap_nil,
        List.append_nil, List.count_append, List.replicate_zero] at hx ⊢
      omega

theorem Item.restored_of_starsLost {i : Item} (h : i.starsLost = 0) : i.restored = i.source := by
  cases i with
  | verb isStarred delimiter body =>
      cases isStarred with
      | false => rfl
      | true => cases h
  | _ => rfl

theorem Passage.ended_restored {p : Passage} (hp : p.isDirect = true) (hlabels : p.HasNoLoneLabel)
    (hstars : p.starsLost = 0) (hgained : p.linesGained = 0) : Text.ended p.restored = Text.ended p.lines := by
  cases p with
  | hint line | rawHtml line html | code first body last hint isInListing => simp [isDirect] at hp
  | comment line => rfl
  | literal first body last => exact ended_unlines first (by simpa [linesGained] using hgained) last
  | math environment first body last =>
      rw [restored_math (hlabels environment first body last rfl)]
      exact ended_unlines first (by simpa [linesGained] using hgained) last
  | prose line =>
      have hitems : ∀ i ∈ items line, i.restored = i.source := by
        intro i hi
        apply Item.restored_of_starsLost
        exact List.sum_eq_zero_iff_forall_eq_nat.mp hstars _ (List.mem_map_of_mem hi)
      rw [restored, lines, List.flatMap_congr hitems, flatMap_source_items]

theorem eq_of_ended_eq {lines more : List Text} (hlines : lines ≠ []) (hmore : more ≠ []) :
    Text.unlines lines = Text.unlines more ↔ Text.ended lines = Text.ended more := by
  rw [← Text.unlines_append_lineFeed hlines, ← Text.unlines_append_lineFeed hmore]
  exact (List.append_left_inj ['\n']).symm

theorem Passage.restored_ne_nil {p : Passage} (hp : p.isDirect = true) : p.restored ≠ [] := by
  cases p <;> first | exact List.cons_ne_nil _ _ | simp [isDirect] at hp

theorem flatMap_ne_nil {ps : List Passage} (hne : ps ≠ []) {f : Passage → List Text} (hf : ∀ p ∈ ps, f p ≠ []) :
    ps.flatMap f ≠ [] := by
  obtain ⟨p, hp⟩ := List.exists_mem_of_ne_nil ps hne
  exact fun hempty => hf p hp (List.flatMap_eq_nil_iff.mp hempty p hp)

/-- Passages come back if and only if no star is lost and no line is gained: stars and lines do not make up for
each other. -/
theorem unlines_restored_eq_iff {ps : List Passage} (hne : ps ≠ []) (hdirect : ∀ p ∈ ps, p.isDirect = true)
    (hlabels : ∀ p ∈ ps, p.HasNoLoneLabel) :
    Text.unlines (ps.flatMap Passage.restored) = Text.unlines (ps.flatMap Passage.lines) ↔
      ∀ p ∈ ps, p.starsLost = 0 ∧ p.linesGained = 0 := by
  have hended : ∀ f : Passage → List Text, Text.ended (ps.flatMap f) = ps.flatMap fun p => Text.ended (f p) := by
    intro f
    simp [Text.ended, List.flatMap_assoc]
  have hrestored := flatMap_ne_nil hne fun p hp => p.restored_ne_nil (hdirect p hp)
  have hlines := flatMap_ne_nil hne fun p _ => p.lines_ne_nil
  rw [eq_of_ended_eq hrestored hlines, hended, hended]
  constructor
  · intro heq
    have hperm := perm_flatMap_append_replicate
      fun (p : Passage) (hp : p ∈ ps) => p.perm_restored (hdirect p hp) (hlabels p hp)
    rw [heq, List.perm_append_left_iff] at hperm
    have hstars : (ps.map Passage.starsLost).sum = 0 := by
      simpa [List.count_replicate] using hperm.count_eq '*'
    have hgained : (ps.map Passage.linesGained).sum = 0 := by
      simpa [List.count_replicate] using (hperm.count_eq '\n').symm
    intro p hp
    exact ⟨List.sum_eq_zero_iff_forall_eq_nat.mp hstars _ (List.mem_map_of_mem hp),
      List.sum_eq_zero_iff_forall_eq_nat.mp hgained _ (List.mem_map_of_mem hp)⟩
  · intro h
    exact List.flatMap_congr fun p hp => p.ended_restored (hdirect p hp) (hlabels p hp) (h p hp).1 (h p hp).2

theorem passages_ne_nil {c : Context} {lines : List Text} (hlines : lines ≠ []) (h : (passages c lines).2 = none) :
    (passages c lines).1 ≠ [] := by
  intro hempty
  have hflat := flatMap_lines_passages h
  rw [hempty] at hflat
  exact hlines hflat.symm

/-- Tokenizing succeeds only if all lines can be read, and then the result is the text of the draft. -/
theorem eq_text_draftOf {highlighter : Highlighter} {format : Format} {g g' : Gathered} {salt source scanned : Text}
    {history : List Call} (hcache : g.cache = Cache.build salt history)
    (hps : ∀ p ∈ passagesOf source, p.isCode = false)
    (hscan : tokenize highlighter format g source = (.ok scanned, g')) :
    (passages .start (source.splitOn '\n')).2 = none ∧ scanned = Draft.text (draftOf salt source) ∧
      g'.cache = Cache.build salt (history ++ callsOf source) := by
  have hsalt : g.cache.salt = salt := by
    rw [hcache]
    exact Gathered.salt_perform (Cache.empty salt) history
  have htokens := passageTokens_eq highlighter format g hps
  unfold tokenize at hscan
  rw [passagesOf] at htokens
  simp only [htokens, hsalt] at hscan
  split at hscan
  · cases hscan
  · rename_i hnone
    obtain ⟨rfl, rfl⟩ := by simpa using hscan
    refine ⟨hnone, ?_, ?_⟩
    · rw [draftOf, Draft.text_unlines]
      rfl
    · rw [Cache.build_append, ← hcache]
      rfl

/-- A manuscript that stands for itself is put back as the lines that its passages come back as, and they are the
manuscript unless a `\verb*` span has lost its star or an opaque body without lines has gained one.  The tokens are
assumed to be markers: different things have different tokens, and they occur only where they were put. -/
theorem restore_tokenize {highlighter : Highlighter} {g g' : Gathered} {salt source scanned : Text}
    {history : List Call} (hcache : g.cache = Cache.build salt history)
    (hannotations : ∀ line ∈ source.splitOn '\n', Text.startsWith "%=" (Text.trimStart line) = false)
    (hcode : ∀ line ∈ source.splitOn '\n', begin? line ≠ some ("code" : Text))
    (hlabels : ∀ p ∈ passagesOf source, p.HasNoLoneLabel)
    (hscan : tokenize highlighter .markup g source = (.ok scanned, g'))
    (hdistinct : Call.Distinct salt (history ++ callsOf source))
    (hmarks : (Call.meaning salt (callsOf source) .markup).Marks
      ((history ++ callsOf source).map (Call.token salt)) (draftOf salt source)) :
    g'.cache.restore scanned .markup = Text.unlines ((passagesOf source).flatMap Passage.restored) ∧
      (g'.cache.restore scanned .markup = source ↔
        ∀ p ∈ passagesOf source, p.starsLost = 0 ∧ p.linesGained = 0) := by
  have hdirect : ∀ p ∈ passagesOf source, p.isDirect = true :=
    isDirect_of_mem_passages hannotations hcode rfl
  obtain ⟨hread, rfl, hcache'⟩ := eq_text_draftOf hcache (fun p hp => p.isCode_eq_false (hdirect p hp)) hscan
  have hplain : ∀ call ∈ callsOf source, call.IsPlain := by
    intro call hcall
    obtain ⟨p, -, hp⟩ := List.mem_flatMap.mp hcall
    exact p.isPlain_of_mem_calls hp
  have hexpands : (Call.meaning salt (callsOf source) .markup).Expands (draftOf salt source)
      (Text.unlines ((passagesOf source).flatMap Passage.restored)) := expands_unlines
    (fun a ha b hb => hdistinct a (List.mem_append_right _ ha) b (List.mem_append_right _ hb)) hplain
    fun p hp call hcall => List.mem_flatMap.mpr ⟨p, hp, hcall⟩
  have hrestore : g'.cache.restore (Draft.text (draftOf salt source)) .markup =
      Text.unlines ((passagesOf source).flatMap Passage.restored) := by
    rw [hcache']
    exact Cache.restore_of_isPlain hdistinct hplain hmarks hexpands
  have hsource : Text.unlines ((passagesOf source).flatMap Passage.lines) = source := by
    rw [passagesOf, flatMap_lines_passages hread, Text.unlines_splitOn]
  have hiff := unlines_restored_eq_iff (passages_ne_nil (List.splitOn_ne_nil '\n' source) hread) hdirect hlabels
  rw [hrestore]
  refine ⟨rfl, ?_⟩
  rwa [← passagesOf, hsource] at hiff

namespace LostStar

/-- A `\verb*` span, and an environment with no line in its body. -/
def source : Text := "\\verb*|x|\n\\begin\x7bverbatim\x7d\n\\end\x7bverbatim\x7d"

/-- Nothing is gathered yet. -/
def gathered : Gathered := ⟨Cache.empty "s", .inMemory⟩

/-- The result of tokenizing the manuscript. -/
def scanned : Except Error Text × Gathered := tokenize Highlight.plain .markup gathered source

/-- The drafts that replacements lead to. -/
def drafts : List Draft :=
  let tokens := (callsOf source).map (Call.token "s")
  let unfold := (Call.meaning "s" (callsOf source) .markup).unfold
  let d := draftOf "s" source
  d :: tokens.map (unfold d) ++ [tokens.foldl unfold d]

/-- The manuscript stands for itself, it is scanned, and its calls have different tokens. -/
theorem checked :
    (∀ line ∈ source.splitOn '\n', Text.startsWith "%=" (Text.trimStart line) = false) ∧
      (∀ line ∈ source.splitOn '\n', begin? line ≠ some ("code" : Text)) ∧
      passagesOf source =
        [.prose "\\verb*|x|", .literal "\\begin\x7bverbatim\x7d" [] "\\end\x7bverbatim\x7d"] ∧
      scanned.1 = .ok (Draft.text (draftOf "s" source)) ∧
      (([] ++ callsOf source).map (Call.token "s")).Nodup := by
  decide +kernel

theorem labels : ∀ p ∈ passagesOf source, p.HasNoLoneLabel := by
  rw [checked.2.2.1]
  intro p hp environment first body last hmath
  subst hmath
  simp at hp

theorem tokenized :
    tokenize Highlight.plain .markup gathered source = (.ok (Draft.text (draftOf "s" source)), scanned.2) := by
  rw [← checked.2.2.2.1]
  rfl

theorem distinct : Call.Distinct "s" ([] ++ callsOf source) :=
  Call.distinct_of_nodup checked.2.2.2.2

theorem marks : (Call.meaning "s" (callsOf source) .markup).Marks
    (([] ++ callsOf source).map (Call.token "s")) (draftOf "s" source) := by
  refine Meaning.marks_of_forall_mem drafts (fun _ => Call.draft?_meaning_eq_none) ?_ ?_ ?_ List.mem_cons_self
  · intro token htoken
    obtain ⟨call, -, rfl⟩ := List.mem_map.mp htoken
    exact call.token_ne_nil "s"
  · decide +kernel
  · decide +kernel

/-- The manuscript does not come back, though it stands for itself and its tokens are markers. -/
theorem restore_ne_source :
    (∀ line ∈ source.splitOn '\n', Text.startsWith "%=" (Text.trimStart line) = false) ∧
      (∀ line ∈ source.splitOn '\n', begin? line ≠ some ("code" : Text)) ∧
      (∀ p ∈ passagesOf source, p.HasNoLoneLabel) ∧
      Call.Distinct "s" ([] ++ callsOf source) ∧
      (Call.meaning "s" (callsOf source) .markup).Marks (([] ++ callsOf source).map (Call.token "s"))
        (draftOf "s" source) ∧
      tokenize Highlight.plain .markup gathered source = (.ok (Draft.text (draftOf "s" source)), scanned.2) ∧
      scanned.2.cache.restore (Draft.text (draftOf "s" source)) .markup ≠ source := by
  have hne : scanned.2.cache.restore (Draft.text (draftOf "s" source)) .markup ≠ source := by decide +kernel
  exact ⟨checked.1, checked.2.1, labels, distinct, marks, tokenized, hne⟩

/-- What the manuscript comes back as. -/
theorem restore_eq_unlines :
    scanned.2.cache.restore (Draft.text (draftOf "s" source)) .markup =
        Text.unlines ((passagesOf source).flatMap Passage.restored) ∧
      (scanned.2.cache.restore (Draft.text (draftOf "s" source)) .markup = source ↔
        ∀ p ∈ passagesOf source, p.starsLost = 0 ∧ p.linesGained = 0) :=
  restore_tokenize rfl checked.1 checked.2.1 labels tokenized distinct marks

end LostStar

end Source

end Manuscript
