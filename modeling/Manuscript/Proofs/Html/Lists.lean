import Manuscript.Document.OfXml
import Manuscript.Proofs.Html.Locality
import Manuscript.Proofs.Html.Pieces
import Manuscript.Proofs.Numbering.Visits

/-!
The lists of an outline.  Every token of its HTML is read with the elements around it.

Main statements: in front of any rest of an outline, the lists that are ended and begun before an entry lead to the depth
of that entry (`continues_between`), and the outline of a numbered document has an entry for every heading down to
subsections, each inside as many lists as it is deep (`isComplete_and_nests`).
-/

namespace Manuscript

namespace Html

/-- The elements that have no contents. -/
def emptyNames : List Text :=
  ["area", "base", "br", "col", "embed", "hr", "img", "input", "link", "meta", "source", "track", "wbr"]

/-- A token with the tags of the elements around it, the innermost first. -/
structure Located where
  around : List Tag
  token : Token
  deriving DecidableEq

/-- The elements that are open after a token.  Only the innermost one can be ended; a tag that ends with a slash is an
element of its own. -/
def openAfter? (around : List Tag) : Token → Option (List Tag)
  | .text _ => some around
  | .opens tag => some (if tag.isClosed ∨ tag.name ∈ emptyNames then around else tag :: around)
  | .closes name =>
    match around with
    | tag :: outer => if tag.name = name then some outer else none
    | [] => none
  | .verbatim _ | .nothing => none

/-- Some tokens with the elements around them, if these are well nested and all of them end. -/
def located? (around : List Tag) : List Token → Option (List Located)
  | [] => if around = [] then some [] else none
  | token :: rest => do
    let inner ← openAfter? around token
    let later ← located? inner rest
    return ⟨around, token⟩ :: later

theorem located?_cons {around inner : List Tag} {token : Token} (h : openAfter? around token = some inner)
    (rest : List Token) : located? around (token :: rest) = (located? inner rest).map (⟨around, token⟩ :: ·) := by
  rw [located?, h, Option.bind_eq_bind, Option.bind_some]
  cases located? inner rest <;> rfl

theorem exists_of_located?_cons {around : List Tag} {token : Token} {rest : List Token} {found : List Located}
    (h : located? around (token :: rest) = some found) :
    ∃ inner later, openAfter? around token = some inner ∧ located? inner rest = some later ∧
      found = ⟨around, token⟩ :: later := by
  obtain ⟨inner, hinner, hrest⟩ := Option.bind_eq_some_iff.mp h
  obtain ⟨later, hlater, heq⟩ := Option.bind_eq_some_iff.mp hrest
  exact ⟨inner, later, hinner, hlater, (Option.some.inj heq).symm⟩

/-- A token of a fragment, where the fragment stands inside some elements. -/
def Located.inside (outer : List Tag) (l : Located) : Located := ⟨l.around ++ outer, l.token⟩

theorem openAfter?_append {around inner : List Tag} {token : Token} (h : openAfter? around token = some inner)
    (outer : List Tag) : openAfter? (around ++ outer) token = some (inner ++ outer) := by
  cases token with
  | text t =>
      cases h
      rfl
  | opens tag =>
      rw [openAfter?, Option.some.injEq] at h ⊢
      rw [← h]
      split <;> rfl
  | closes name =>
      cases around with
      | nil => cases h
      | cons tag around =>
          rw [openAfter?] at h
          rw [List.cons_append, openAfter?]
          split at h
          · rename_i hname
            cases h
            rw [if_pos hname]
          · cases h
  | verbatim t => cases h
  | nothing => cases h

/-- What is well nested in itself is so inside other elements. -/
theorem located?_append {around : List Tag} {fragment : List Token} {found : List Located}
    (h : located? around fragment = some found) (outer : List Tag) (rest : List Token) :
    located? (around ++ outer) (fragment ++ rest) =
      (located? outer rest).map (found.map (Located.inside outer) ++ ·) := by
  induction fragment generalizing around found with
  | nil =>
      rw [located?] at h
      split at h
      · rename_i hempty
        cases h
        rw [hempty]
        simp
      · cases h
  | cons token fragment ih =>
      obtain ⟨inner, later, hinner, hlater, rfl⟩ := exists_of_located?_cons h
      rw [List.cons_append, located?_cons (openAfter?_append hinner outer), ih hlater, Option.map_map]
      rfl

theorem mem_openAfter? {around inner : List Tag} {token : Token} (h : openAfter? around token = some inner) {tag : Tag}
    (htag : tag ∈ inner) : tag ∈ around ∨ token = .opens tag := by
  cases token with
  | text t =>
      cases h
      exact .inl htag
  | opens tag' =>
      rw [openAfter?, Option.some.injEq] at h
      rw [← h] at htag
      split at htag
      · exact .inl htag
      · rcases List.mem_cons.mp htag with rfl | htag
        · exact .inr rfl
        · exact .inl htag
  | closes name =>
      cases around with
      | nil => cases h
      | cons outer around =>
          rw [openAfter?] at h
          split at h
          · cases h
            exact .inl (List.mem_cons_of_mem _ htag)
          · cases h
  | verbatim t => cases h
  | nothing => cases h

/-- The elements around a token are those around all tokens and others that are opened among them. -/
theorem of_mem_located? {around : List Tag} {tokens : List Token} {found : List Located}
    (h : located? around tokens = some found) {l : Located} (hl : l ∈ found) :
    l.token ∈ tokens ∧ (openAfter? l.around l.token).isSome = true ∧
      ∀ tag ∈ l.around, tag ∈ around ∨ .opens tag ∈ tokens := by
  induction tokens generalizing around found with
  | nil =>
      rw [located?] at h
      split at h
      · cases h
        cases hl
      · cases h
  | cons token tokens ih =>
      obtain ⟨inner, later, hinner, hlater, rfl⟩ := exists_of_located?_cons h
      rcases List.mem_cons.mp hl with rfl | hl
      · exact ⟨List.mem_cons_self, by rw [hinner]; rfl, fun tag htag => .inl htag⟩
      · obtain ⟨htoken, hopen, haround⟩ := ih hlater hl
        refine ⟨List.mem_cons_of_mem _ htoken, hopen, fun tag htag => ?_⟩
        rcases haround tag htag with htag | htag
        · rcases mem_openAfter? hinner htag with htag | rfl
          · exact .inl htag
          · exact .inr List.mem_cons_self
        · exact .inr (List.mem_cons_of_mem _ htag)

theorem nothing_notMem_of_located? {around : List Tag} {tokens : List Token} {found : List Located}
    (h : located? around tokens = some found) : .nothing ∉ tokens := by
  induction tokens generalizing around found with
  | nil => exact List.not_mem_nil
  | cons token tokens ih =>
      obtain ⟨inner, later, hinner, hlater, rfl⟩ := exists_of_located?_cons h
      intro hmem
      rcases List.mem_cons.mp hmem with rfl | hmem
      · cases hinner
      · exact ih hlater hmem

theorem isSome_located?_afterText (around : List Tag) (t : Text) (tokens : List Token) :
    (located? around (afterText t tokens)).isSome = (located? around tokens).isSome := by
  have htext (s : Text) (rest : List Token) :
      (located? around (.text s :: rest)).isSome = (located? around rest).isSome := by
    rw [located?_cons rfl, Option.isSome_map]
  cases tokens with
  | nil =>
      rw [afterText]
      · split
        · rfl
        · exact htext t []
      · exact fun _ _ h => nomatch h
  | cons token rest =>
      cases token with
      | text s => rw [afterText, htext, htext]
      | _ =>
          rw [afterText]
          · split
            · rfl
            · exact htext t _
          · exact fun _ _ h => nomatch h

theorem mem_afterText {t : Text} {tokens : List Token} {token : Token} (h : token ∈ afterText t tokens) :
    (∃ s, token = .text s) ∨ token ∈ tokens := by
  unfold afterText at h
  split at h
  · rcases List.mem_cons.mp h with rfl | h
    · exact .inl ⟨_, rfl⟩
    · exact .inr (List.mem_cons_of_mem _ h)
  · split at h
    · exact .inr h
    · rcases List.mem_cons.mp h with rfl | h
      · exact .inl ⟨_, rfl⟩
      · exact .inr h

end Html

namespace Outline

open Html

/-! What a reader sees of lists -/

/-- Is the token directly in an element of a name? -/
def isIn (name : Text) (l : Located) : Bool := l.around.head?.any fun tag => tag.name = name

/-- Is the token directly in an item that has no class? -/
def isInPlainItem (l : Located) : Bool :=
  l.around.head?.any fun tag : Tag => tag.name = "li" && (tag.attributes.lookup ("class" : Text)).isNone

/-- Items stand directly in lists, and nothing else does; an item without a class has only lists directly in it. -/
def isPlaced (l : Located) : Bool :=
  match l.token with
  | .opens tag => (isIn "ul" l == decide (tag.name = "li")) && (!isInPlainItem l || tag.name = "ul")
  | .text t => t.all isSpace || !(isIn "ul" l || isInPlainItem l)
  | .closes _ => true
  | .verbatim _ | .nothing => false

/-- How many lists the token is in. -/
def lists (l : Located) : Nat := l.around.countP fun tag : Tag => tag.name = "ul"

/-- What tells of an entry: an item with a class, or the link of an item, in a number of lists. -/
inductive Sign where
  | item (lists : Nat) (level : Text)
  | link (lists : Nat) (href : Text)
  deriving DecidableEq

/-- What a token tells of an entry. -/
def sign? (l : Located) : Option Sign :=
  match l.token with
  | .opens tag =>
    if tag.name = "li" then (tag.attributes.lookup ("class" : Text)).map (.item (lists l))
    else if tag.name = "a" ∧ isIn "li" l then (tag.attributes.lookup ("href" : Text)).map (.link (lists l))
    else none
  | _ => none

/-- What is to be told of an entry: its item, and in it the link to its heading. -/
def signs (e : OutlineEntry) : List Sign :=
  [.item e.depth e.level.name, .link e.depth ('#' :: e.id.map replaceNull)]

/-- Lists and items are in their places, and the items with a class and all links of items are the expected ones. -/
structure Arranges (expected : List Sign) (found : List Located) : Prop where
  isPlaced : ∀ l ∈ found, isPlaced l = true
  signs_eq : found.filterMap sign? = expected

/-- Does a list or an item begin? -/
def beginsList : Token → Bool
  | .opens tag => tag.name = "ul" || tag.name = "li"
  | _ => false

/-- A title that is well nested in itself and has no lists and items. -/
structure IsFragment (title : Text) : Prop where
  isNested : (located? [] (tokens title)).isSome = true
  hasNoLists : ∀ token ∈ tokens title, beginsList token = false
  /-- It does not end where an end tag begins. -/
  isWhole : ¬"</" <:+ title

instance (title : Text) : Decidable (IsFragment title) :=
  decidable_of_iff ((located? [] (tokens title)).isSome = true ∧ (∀ token ∈ tokens title, beginsList token = false) ∧
      ¬"</" <:+ title)
    ⟨fun h => ⟨h.1, h.2.1, h.2.2⟩, fun h => ⟨h.isNested, h.hasNoLists, h.isWhole⟩⟩

/-- An entry that has a place in lists. -/
structure IsFit (e : OutlineEntry) : Prop where
  depth_pos : 0 < e.depth
  number : ∀ number ∈ e.number, number.any isSpecial = false
  title : IsFragment e.title

instance (e : OutlineEntry) : Decidable (IsFit e) :=
  decidable_of_iff (0 < e.depth ∧ (∀ number ∈ e.number, number.any isSpecial = false) ∧ IsFragment e.title)
    ⟨fun h => ⟨h.1, h.2.1, h.2.2⟩, fun h => ⟨h.depth_pos, h.number, h.title⟩⟩

/-! Rests of outlines -/

variable {around : List Tag} {expected : List Sign} {l : List Token} {t : Text}

/-- Some tokens inside some elements are well nested and arranged as expected. -/
def Reads (around : List Tag) (expected : List Sign) (l : List Token) : Prop :=
  ∃ found, located? around l = some found ∧ Arranges expected found

theorem Reads.cons (sign : Option Sign) {inner : List Tag} {token : Token}
    (hopen : openAfter? around token = some inner) (hplaced : Outline.isPlaced ⟨around, token⟩ = true)
    (hsign : sign? ⟨around, token⟩ = sign) (h : Reads inner expected l) :
    Reads around (sign.toList ++ expected) (token :: l) := by
  obtain ⟨found, hfound, harranges⟩ := h
  refine ⟨⟨around, token⟩ :: found, ?_, ?_, ?_⟩
  · rw [located?_cons hopen, hfound]
    rfl
  · exact List.forall_mem_cons.mpr ⟨hplaced, harranges.isPlaced⟩
  · rw [List.filterMap_cons, hsign, harranges.signs_eq]
    cases sign <;> rfl

/-- A line end may stand anywhere. -/
theorem Reads.feed (h : Reads around expected l) : Reads around expected (.text "\n" :: l) :=
  h.cons none rfl rfl rfl

/-- The element that the rest is in ends. -/
theorem Reads.closes {tag : Tag} (h : Reads around expected l) :
    Reads (tag :: around) expected (.closes tag.name :: l) :=
  h.cons none (if_pos rfl) rfl rfl

/-- Where no list or item is directly around it, nothing but lists and items is out of place. -/
theorem isPlaced_of_head? {l : Located}
    (haround : ∀ tag : Tag, l.around.head? = some tag → tag.name ≠ "ul" ∧ tag.name ≠ "li")
    (htag : ∀ tag : Tag, l.token = .opens tag → tag.name ≠ "li") (hopen : (openAfter? l.around l.token).isSome = true) :
    isPlaced l = true ∧ sign? l = none := by
  obtain ⟨around, token⟩ := l
  have hlist : isIn "ul" ⟨around, token⟩ = false := by
    cases around with
    | nil => rfl
    | cons tag around => exact decide_eq_false (haround tag rfl).1
  have hitem : isIn "li" ⟨around, token⟩ = false ∧ isInPlainItem ⟨around, token⟩ = false := by
    cases around with
    | nil => exact ⟨rfl, rfl⟩
    | cons tag around =>
        have hname := decide_eq_false (haround tag rfl).2
        refine ⟨hname, ?_⟩
        change (decide (tag.name = "li") && _) = false
        rw [hname, Bool.false_and]
  cases token with
  | text s =>
      refine ⟨?_, rfl⟩
      simp only [isPlaced, hlist, hitem.2, Bool.or_self, Bool.not_false, Bool.or_true]
  | opens tag =>
      have hname := htag tag rfl
      constructor
      · simp only [isPlaced, hlist, hitem.2, decide_eq_false hname, beq_self_eq_true, Bool.not_false, Bool.true_or,
          Bool.and_self]
      · simp only [sign?, if_neg hname, hitem.1, Bool.false_eq_true, and_false, if_false]
  | closes name => exact ⟨rfl, rfl⟩
  | verbatim s => cases hopen
  | nothing => cases hopen

/-- A fragment stands in a link. -/
theorem Reads.fragment {tag : Tag} {fragment : List Token} (hname : tag.name ≠ "ul" ∧ tag.name ≠ "li")
    (hnested : (located? [] fragment).isSome = true)
    (hlists : ∀ token ∈ fragment, beginsList token = false) (h : Reads (tag :: around) expected l) :
    Reads (tag :: around) expected (fragment ++ l) := by
  obtain ⟨inside, hinside⟩ := Option.isSome_iff_exists.mp hnested
  obtain ⟨found, hfound, harranges⟩ := h
  have hnames (opened : Tag) (hmem : .opens opened ∈ fragment) : opened.name ≠ "ul" ∧ opened.name ≠ "li" := by
    simpa [beginsList] using hlists _ hmem
  have hplaced : ∀ l ∈ inside.map (Located.inside (tag :: around)), Outline.isPlaced l = true ∧ sign? l = none := by
    intro l hl
    obtain ⟨l, hmem, rfl⟩ := List.mem_map.mp hl
    obtain ⟨htoken, hopen, haround⟩ := of_mem_located? hinside hmem
    obtain ⟨inner, hinner⟩ := Option.isSome_iff_exists.mp hopen
    apply isPlaced_of_head?
    · intro outer houter
      cases hl : l.around with
      | nil =>
          rw [Located.inside, hl] at houter
          obtain rfl : tag = outer := Option.some.inj houter
          exact hname
      | cons first rest =>
          rw [Located.inside, hl] at houter
          obtain rfl : first = outer := Option.some.inj houter
          rcases haround first (hl ▸ List.mem_cons_self) with hmem | hmem
          · cases hmem
          · exact hnames first hmem
    · intro opened hopened
      exact (hnames opened (hopened ▸ htoken)).2
    · rw [Located.inside, openAfter?_append hinner]
      rfl
  have hnone : (inside.map (Located.inside (tag :: around))).filterMap sign? = [] :=
    List.filterMap_eq_nil_iff.mpr fun l hl => (hplaced l hl).2
  have hlocated := located?_append hinside (tag :: around) l
  refine ⟨inside.map (Located.inside (tag :: around)) ++ found, ?_, ?_, ?_⟩
  · rw [List.nil_append] at hlocated
    rw [hlocated, hfound]
    rfl
  · exact List.forall_mem_append.mpr ⟨fun l hl => (hplaced l hl).1, harranges.isPlaced⟩
  · rw [List.filterMap_append, hnone, List.nil_append]
    exact harranges.signs_eq

/-- A rest of an outline: it begins with a tag, and is well nested and arranged as expected. -/
def Continues (around : List Tag) (expected : List Sign) (t : Text) : Prop :=
  isMarkup t = true ∧ Reads around expected (tokens t)

theorem tokens_feed (h : isMarkup t = true) : tokens ('\n' :: t) = .text "\n" :: tokens t := by
  have huntil : untilMarkup ('\n' :: t) = (['\n'], t) := untilMarkup_append (t := ['\n']) (by decide) (.inr h)
  have hresolve : resolve false (['\n'] : Text) = "\n" := resolve_escapeText "\n"
  rw [tokens_of_untilMarkup (List.cons_ne_nil _ _) (isMarkup_cons (by decide) t) huntil, hresolve]

/-- A line that ends an element. -/
theorem Continues.closes (tag : Tag) (hname : isName tag.name = true) (h : Continues around expected t) :
    Continues (tag :: around) expected ((Piece.closes tag.name).write ++ '\n' :: t) := by
  obtain ⟨htokens, hmarkup⟩ := tokens_closes hname ('\n' :: t)
  refine ⟨hmarkup, ?_⟩
  rw [htokens, tokens_feed h.1]
  exact h.2.feed.closes

/-- A line that begins an element. -/
theorem Continues.opens (tag : Tag) (hformed : (Piece.opens false tag).isFormed = true)
    (hopen : openAfter? around (.opens tag.read) = some (tag.read :: around))
    (hplaced : Outline.isPlaced ⟨around, .opens tag.read⟩ = true) (hsign : sign? ⟨around, .opens tag.read⟩ = none)
    (h : Continues (tag.read :: around) expected t) :
    Continues around expected ((Piece.opens false tag).write ++ '\n' :: t) := by
  obtain ⟨htokens, hmarkup⟩ := tokens_opens hformed ('\n' :: t)
  refine ⟨hmarkup, ?_⟩
  rw [htokens, tokens_feed h.1]
  exact h.2.feed.cons none hopen hplaced hsign

/-! Lists -/

/-- A list and an item, as they are read. -/
def listTag : Tag := ⟨"ul", [], false⟩

def itemTag (attributes : List (Text × Text)) : Tag := ⟨"li", attributes, false⟩

/-- The elements around what is in an item, for a depth: a list and an item of it at each level, all in one element. -/
inductive ListsAround (outer : Tag) : (depth : Nat) → List Tag → Prop
  | outside : ListsAround outer 0 [outer]
  | item {depth : Nat} {around : List Tag} (attributes : List (Text × Text)) (h : ListsAround outer depth around) :
    ListsAround outer (depth + 1) (itemTag attributes :: listTag :: around)

/-- The whole outline is in this element. -/
def frameTag : Tag := ⟨"div", [("id", "table_of_contents")], false⟩

variable {depth : Nat}

theorem ListsAround.countP_eq (h : ListsAround frameTag depth around) :
    around.countP (fun tag : Tag => tag.name = "ul") = depth := by
  induction h with
  | outside => decide
  | item attributes h ih =>
      rw [List.countP_cons_of_neg (by simp [itemTag]), List.countP_cons_of_pos (by simp [listTag]), ih]

/-- No list stands directly in a list. -/
theorem ListsAround.isIn_list (h : ListsAround frameTag depth around) (token : Token) :
    isIn "ul" ⟨around, token⟩ = false := by
  cases h <;> rfl

theorem continues_closeLists (h : ListsAround frameTag depth around) {levels : Nat} (hlevels : levels ≤ depth)
    (hrest : ∀ inner, ListsAround frameTag (depth - levels) inner → Continues inner expected t) :
    Continues around expected (closeLists levels ++ t) := by
  induction levels generalizing depth around with
  | zero => exact hrest around h
  | succ levels ih =>
      cases h with
      | outside => exact absurd hlevels (Nat.not_succ_le_zero levels)
      | item attributes h =>
          have hinner := ih h (Nat.le_of_succ_le_succ hlevels) fun inner hinner => by
            apply hrest
            rwa [Nat.add_sub_add_right]
          have hlist : Continues (listTag :: _) expected ("</ul>\n" ++ (closeLists levels ++ t)) :=
            hinner.closes listTag (by decide)
          exact hlist.closes (itemTag attributes) (show isName "li" = true by decide)

theorem continues_openLists (h : ListsAround frameTag depth around) {levels : Nat}
    (hrest : ∀ inner, ListsAround frameTag (depth + levels) inner → Continues (listTag :: inner) expected t) :
    Continues around expected (openLists (levels + 1) ++ t) := by
  have hplaced {around : List Tag} {depth : Nat} (h : ListsAround frameTag depth around) :
      Outline.isPlaced ⟨around, .opens listTag⟩ = true := by
    simp only [isPlaced, h.isIn_list]
    exact Bool.or_true _
  induction levels generalizing depth around with
  | zero => exact (hrest around h).opens listTag (by decide) rfl (hplaced h) rfl
  | succ levels ih =>
      have hinner := ih (h.item []) fun inner hinner => by
        apply hrest
        rwa [Nat.add_right_comm, Nat.add_assoc] at hinner
      have hitem : Continues (listTag :: around) expected ("<li>\n" ++ (openLists (levels + 1) ++ t)) :=
        hinner.opens (itemTag []) (by decide) rfl rfl rfl
      exact hitem.opens listTag (by decide) rfl (hplaced h) rfl

/-- What stands before an entry leads into the lists that the entry is in. -/
theorem continues_between (h : ListsAround frameTag depth around) {next : Nat}
    (hrest : ∀ inner, ListsAround frameTag next inner → Continues (listTag :: inner) expected t) :
    Continues around expected (between depth (next + 1) ++ t) := by
  rw [between, List.append_assoc, List.append_assoc]
  by_cases hle : next + 1 ≤ depth
  · rw [if_pos ⟨hle, Nat.succ_pos next⟩, Nat.sub_eq_zero_of_le hle]
    apply continues_closeLists h (Nat.sub_le depth (next + 1))
    rw [Nat.sub_sub_self hle]
    intro inner hinner
    cases hinner with
    | item attributes hinner => exact (hrest _ hinner).closes (itemTag attributes) (show isName "li" = true by decide)
  · obtain ⟨levels, rfl⟩ := Nat.exists_eq_add_of_le (Nat.le_of_lt_succ (Nat.lt_of_not_le hle))
    have hclosed : depth - (depth + levels + 1) = 0 := by omega
    have hopened : depth + levels + 1 - depth = levels + 1 := by omega
    rw [if_neg fun hboth => hle hboth.1, hclosed, hopened]
    exact continues_openLists h hrest

/-! Entries -/

/-- The number and the title of an entry are a fragment, as the title is. -/
theorem isFragment_numbered {e : OutlineEntry} (h : IsFit e) :
    IsFragment (written (numberPieces e.number) ++ e.title) := by
  cases hnumber : e.number with
  | none => exact h.title
  | some number =>
      have hwritten : written (numberPieces (some number)) ++ e.title =
          (Piece.opens false ⟨"span", [("class", "number")], false⟩).write ++
            (number ++ ((Piece.closes "span").write ++ (" " ++ e.title))) := by
        simp [numberPieces, wrap, Piece.write, textCharacter]
      have htokens : tokens (written (numberPieces (some number)) ++ e.title) =
          .opens ⟨"span", [("class", "number")], false⟩ ::
            afterText number (.closes "span" :: afterText " " (tokens e.title)) := by
        rw [hwritten, (tokens_opens (by decide) _).1, tokens_append_of_plain (h.number number hnumber),
          (tokens_closes (by decide) _).1, tokens_append_of_plain (by decide)]
        rfl
      constructor
      · obtain ⟨found, hfound⟩ := Option.isSome_iff_exists.mp h.title.isNested
        have hends : openAfter? [⟨"span", [("class", "number")], false⟩] (.closes "span") = some [] := rfl
        rw [htokens, located?_cons rfl, Option.isSome_map, isSome_located?_afterText]
        refine (congrArg _ (located?_cons hends _)).trans ?_
        rw [Option.isSome_map, isSome_located?_afterText]
        exact h.title.isNested
      · intro token htoken
        rw [htokens] at htoken
        rcases List.mem_cons.mp htoken with rfl | htoken
        · decide
        · rcases mem_afterText htoken with ⟨s, rfl⟩ | htoken
          · rfl
          · rcases List.mem_cons.mp htoken with rfl | htoken
            · rfl
            · rcases mem_afterText htoken with ⟨s, rfl⟩ | htoken
              · rfl
              · exact h.title.hasNoLists token htoken
      · intro hsuffix
        have htitle : (' ' :: e.title) <:+ written (numberPieces (some number)) ++ e.title := by
          rw [hwritten, ← List.append_assoc, ← List.append_assoc]
          exact List.suffix_append _ _
        rcases List.suffix_or_suffix_of_suffix hsuffix htitle with hend | hend
        · rcases List.suffix_cons_iff.mp hend with heq | hend
          · cases heq
          · exact h.title.isWhole hend
        · have hmem : ' ' ∈ ("</" : Text) := hend.subset List.mem_cons_self
          exact absurd hmem (by decide)

theorem entryLink_eq (e : OutlineEntry) :
    entryLink e = (Piece.opens false (itemTag [("class", e.level.name)])).write ++
      ((Piece.opens false ⟨"a", [("href", '#' :: e.id), ("class", "heading")], false⟩).write ++
        ((written (numberPieces e.number) ++ e.title) ++ ((Piece.closes "a").write ++ "\n"))) := by
  rw [← written_entryPieces e (written_raw e.title)]
  simp [entryPieces, wrap, itemTag, Piece.write, textCharacter]

/-- The tag of an item with an entry, and that of the link in it as it is read. -/
def entryTag (e : OutlineEntry) : Tag := itemTag [("class", e.level.name)]

def linkTag (e : OutlineEntry) : Tag := ⟨"a", [("href", '#' :: e.id.map replaceNull), ("class", "heading")], false⟩

theorem tokens_entryLink {e : OutlineEntry} (h : IsFit e) (ht : isMarkup t = true) :
    isMarkup (entryLink e ++ t) = true ∧
      tokens (entryLink e ++ t) = .opens (entryTag e) :: .opens (linkTag e) ::
        (tokens (written (numberPieces e.number) ++ e.title) ++ (.closes "a" :: .text "\n" :: tokens t)) := by
  have hfragment := isFragment_numbered h
  obtain ⟨found, hfound⟩ := Option.isSome_iff_exists.mp hfragment.isNested
  have heq : entryLink e ++ t = (Piece.opens false (entryTag e)).write ++
      ((Piece.opens false ⟨"a", [("href", '#' :: e.id), ("class", "heading")], false⟩).write ++
        ((written (numberPieces e.number) ++ e.title) ++ ((Piece.closes "a").write ++ '\n' :: t))) := by
    rw [entryLink_eq, entryTag]
    simp
  have hformed : (Piece.opens false (entryTag e)).isFormed = true ∧ (entryTag e).read = entryTag e := by
    unfold entryTag
    cases e.level <;> decide
  obtain ⟨hitem, hmarkup⟩ := tokens_opens hformed.1
    ((Piece.opens false ⟨"a", [("href", '#' :: e.id), ("class", "heading")], false⟩).write ++
      ((written (numberPieces e.number) ++ e.title) ++ ((Piece.closes "a").write ++ '\n' :: t)))
  have hlinkFormed : (Piece.opens false ⟨"a", [("href", '#' :: e.id), ("class", "heading")], false⟩).isFormed = true :=
    isFormed_of_sublist (by decide) ["href", "class"] (List.Sublist.refl _) (by decide)
  rw [heq]
  refine ⟨hmarkup, ?_⟩
  obtain ⟨hend, hendMarkup⟩ := tokens_closes (show isName "a" = true by decide) ('\n' :: t)
  rw [hitem, hformed.2, (tokens_opens hlinkFormed _).1,
    tokens_append (nothing_notMem_of_located? hfound) hfragment.isWhole hendMarkup, hend, tokens_feed ht]
  rfl

/-- An entry is arranged in front of those that follow it. -/
theorem continues_entryLink {e : OutlineEntry} (hfit : IsFit e) (h : ListsAround frameTag depth around)
    (hdepth : e.depth = depth + 1) (hrest : Continues (entryTag e :: listTag :: around) expected t) :
    Continues (listTag :: around) (signs e ++ expected) (entryLink e ++ t) := by
  have hfragment := isFragment_numbered hfit
  have hlists (token : Token) (rest : List Tag) (hrest : rest = [] ∨ rest = [entryTag e]) :
      lists ⟨rest ++ listTag :: around, token⟩ = e.depth := by
    have hcount := h.countP_eq
    rw [hdepth, ← hcount, lists, List.countP_append, List.countP_cons_of_pos (by decide)]
    rcases hrest with rfl | rfl
    · exact Nat.zero_add _
    · rw [List.countP_singleton, if_neg (by simp [entryTag, itemTag]), Nat.zero_add]
  obtain ⟨hmarkup, htokens⟩ := tokens_entryLink hfit hrest.1
  refine ⟨hmarkup, ?_⟩
  rw [htokens]
  have hlink : Reads (linkTag e :: entryTag e :: listTag :: around) expected
      (tokens (written (numberPieces e.number) ++ e.title) ++ (.closes "a" :: .text "\n" :: tokens t)) :=
    hrest.2.feed.closes.fragment ⟨by simp [linkTag], by simp [linkTag]⟩ hfragment.isNested hfragment.hasNoLists
  have hitem : Reads (entryTag e :: listTag :: around) ([.link e.depth ('#' :: e.id.map replaceNull)] ++ expected)
      (.opens (linkTag e) :: (tokens (written (numberPieces e.number) ++ e.title) ++
        (.closes "a" :: .text "\n" :: tokens t))) := by
    refine hlink.cons (some (.link e.depth _)) rfl rfl ?_
    rw [← hlists (.opens (linkTag e)) [entryTag e] (.inr rfl)]
    rfl
  refine hitem.cons (some (.item e.depth e.level.name)) rfl rfl ?_
  rw [← hlists (.opens (entryTag e)) [] (.inl rfl)]
  rfl

/-- All entries are arranged, and then all lists end. -/
theorem continues_items {o : Outline} (ho : ∀ e ∈ o, IsFit e) (h : ListsAround frameTag depth around) :
    Continues around (o.flatMap signs) (items depth o ++ "</div>") := by
  induction o generalizing depth around with
  | nil =>
      apply continues_closeLists h (Nat.le_refl depth)
      rw [Nat.sub_self]
      intro inner hinner
      cases hinner with
      | outside =>
          have htokens := (tokens_closes (show isName "div" = true by decide) []).1
          refine ⟨rfl, [⟨[frameTag], .closes "div"⟩], ?_, ?_, rfl⟩
          · rw [List.append_nil, tokens_nil] at htokens
            change located? [frameTag] (tokens (Piece.closes "div").write) = _
            rw [htokens]
            rfl
          · exact fun l hl => by rw [List.mem_singleton.mp hl]; rfl
  | cons e rest ih =>
      obtain ⟨hfit, hrest⟩ := List.forall_mem_cons.mp ho
      obtain ⟨next, hnext⟩ := Nat.exists_eq_succ_of_ne_zero (Nat.ne_of_gt hfit.depth_pos)
      rw [items, List.append_assoc, List.append_assoc, hnext]
      apply continues_between h
      intro inner hinner
      apply continues_entryLink hfit hinner hnext
      exact ih hrest (hinner.item _)

/-- The outline is well nested, and its lists are arranged by the depths of the entries. -/
theorem reads_html {o : Outline} (ho : ∀ e ∈ o, IsFit e) : Reads [] (o.flatMap signs) (tokens o.html) := by
  have hitems := continues_items ho (.outside : ListsAround frameTag 0 [frameTag])
  have hframe : Continues [] (o.flatMap signs)
      ((Piece.opens false frameTag).write ++ '\n' :: (items 0 o ++ "</div>")) :=
    hitems.opens frameTag (by decide) rfl rfl rfl
  exact hframe.2

/-! The headings of a document -/

/-- Is the node a heading that an outline shows?  An article has no chapters there. -/
def isShown (isArticle : Bool) (n : Node) : Bool :=
  n.kind = .heading .chapter && !isArticle || n.kind = .heading .sect || n.kind = .heading .subsect

/-- An entry for a heading. -/
structure IsEntryOf (isArticle : Bool) (n : Node) (e : OutlineEntry) : Prop where
  kind_eq : n.kind = .heading e.level
  id_eq : n.attrs.id = some e.id
  number_eq : n.number = e.number
  depth?_eq : depth? isArticle e.level = some e.depth
  title_eq : headingTitle n.children = e.title

theorem forall₂_filter_filterMap {α β : Type} {R : α → β → Prop} {p : α → Bool} {f : α → Option β} {l : List α}
    (hsome : ∀ a ∈ l, p a = true → ∃ b, f a = some b ∧ R a b) (hnone : ∀ a ∈ l, p a = false → f a = none) :
    List.Forall₂ R (l.filter p) (l.filterMap f) := by
  induction l with
  | nil => exact .nil
  | cons a l ih =>
      rw [List.forall_mem_cons] at hsome hnone
      have hrest := ih hsome.2 hnone.2
      cases hp : p a with
      | true =>
          obtain ⟨b, hb, hab⟩ := hsome.1 hp
          rw [List.filter_cons_of_pos hp, List.filterMap_cons_some hb]
          exact .cons hab hrest
      | false =>
          rw [List.filter_cons_of_neg (by simp [hp]), List.filterMap_cons_none (hnone.1 hp)]
          exact hrest

theorem isShown_iff {isArticle : Bool} {n : Node} : isShown isArticle n = true ↔
    ∃ level depth, n.kind = .heading level ∧ depth? isArticle level = some depth := by
  simp only [isShown, Bool.or_eq_true, Bool.and_eq_true, decide_eq_true_eq, Bool.not_eq_true']
  constructor
  · rintro ((⟨hkind, rfl⟩ | hkind) | hkind)
    · exact ⟨.chapter, 1, hkind, rfl⟩
    · exact ⟨.sect, _, hkind, rfl⟩
    · exact ⟨.subsect, _, hkind, rfl⟩
  · rintro ⟨level, depth, hkind, hdepth⟩
    cases level with
    | chapter =>
        cases isArticle with
        | true => cases hdepth
        | false => exact .inl (.inl ⟨hkind, rfl⟩)
    | sect => exact .inl (.inr hkind)
    | subsect => exact .inr hkind
    | subsubsect => cases hdepth

/-- Numbering gives an id to every heading. -/
theorem exists_id_of_heading {d : Document} {cache : Cache} {isArticle : Bool} {n : Node} {level : Level}
    (hn : n ∈ Forest.preorder (d.number cache isArticle).1.children) (hkind : n.kind = .heading level) :
    ∃ id, n.attrs.id = some id := by
  obtain ⟨i, hi⟩ := List.mem_iff_getElem?.mp hn
  obtain ⟨p, hp⟩ := Document.exists_position hi
  have hbare := Document.bare_eq_visit hp hi
  generalize (Numbering.visits cache (.start isArticle) (d.positions.take i)).2 = s at hbare
  have hvisit : (Numbering.visit cache s p).1.kind = .heading level := (congrArg Node.kind hbare).symm.trans hkind
  change ∃ id, n.bare.attrs.id = some id
  rw [hbare]
  rcases p.series?_cases s.counters.isArticle with ⟨series, hseries⟩ | ⟨level, hheading, hseries⟩ | ⟨hother, -⟩
  · rw [Numbering.visit_of_series hseries]
    exact ⟨_, rfl⟩
  · rw [Numbering.visit_of_heading hheading hseries]
    exact ⟨_, rfl⟩
  · -- Only a heading is made into one.
    exfalso
    by_cases htext : ∃ t, p.node.kind = .text t
    · obtain ⟨t, ht⟩ := htext
      simp only [Numbering.visit, ht] at hvisit
      cases hvisit
    · rw [Numbering.kind_visit cache s fun t ht => htext ⟨t, ht⟩] at hvisit
      exact hother level hvisit

/-- The outline of a numbered document has an entry for each heading down to subsections, in the order of the document
and with its id and number, and any outline is well nested, with lists arranged by the depths of its entries. -/
theorem isComplete_and_nests (d : Document) (cache : Cache) (isArticle : Bool) {o : Outline} (ho : ∀ e ∈ o, IsFit e) :
    List.Forall₂ (IsEntryOf isArticle)
        ((Forest.preorder (d.number cache isArticle).1.children).filter (isShown isArticle))
        ((d.number cache isArticle).1.outline isArticle) ∧
      ∃ found, located? [] (tokens o.html) = some found ∧ Arranges (o.flatMap signs) found := by
  refine ⟨?_, reads_html ho⟩
  have hentries : (d.number cache isArticle).1.outline isArticle =
      (Forest.preorder (d.number cache isArticle).1.children).filterMap fun n =>
        ofHeading? isArticle n.kind n.attrs n.number n.children := by
    rw [Document.outline, ofNodes_eq, headings, List.map_filterMap]
    simp [Function.comp_def]
  rw [hentries]
  apply forall₂_filter_filterMap
  · intro n hn hshown
    obtain ⟨level, depth, hkind, hdepth⟩ := isShown_iff.mp hshown
    obtain ⟨id, hid⟩ := exists_id_of_heading hn hkind
    refine ⟨⟨depth, level, id, n.number, headingTitle n.children⟩, ?_, hkind, hid, rfl, hdepth, rfl⟩
    simp [ofHeading?, hkind, hdepth, hid]
  · intro n hn hshown
    cases hentry : ofHeading? isArticle n.kind n.attrs n.number n.children with
    | none => rfl
    | some e =>
        obtain ⟨level, depth, id, hkind, hdepth, -, -⟩ := exists_of_ofHeading? hentry
        rw [isShown_iff.mpr ⟨level, depth, hkind, hdepth⟩] at hshown
        cases hshown

end Outline

namespace SkippedLevels

/-- A chapter with a starred subsection right inside it, and another chapter. -/
def source : Text :=
  "<document><chapter label='a\"b'><title>On <em>a</em></title><subsection starred='true'><title>B</title></subsection>" ++
    "</chapter><chapter><section><title>C</title></section></chapter></document>"

def parsed : Document := (Document.parse? source).get (by decide +kernel)

def outline : Outline := (parsed.number (.empty "s") false).1.outline false

/-- Levels are skipped on the way down and on the way up, too. -/
def deep : Outline :=
  [⟨3, .subsect, "a", some "1.1.1", "<br/> A <b>bold</b> &lt; b"⟩, ⟨5, .sect, "b", none, ""⟩, ⟨1, .chapter, "c\"", none, "C"⟩,
    ⟨1, .chapter, "d", some "2", "D"⟩, ⟨4, .subsect, "e", none, "<a href=\"x\">E</a>"⟩, ⟨2, .sect, "f", none, "F"⟩]

/-- The subsection is in a list of an item without a heading. -/
theorem isComplete_and_nests_deep : (∀ e ∈ deep, Outline.IsFit e) ∧
    List.Forall₂ (Outline.IsEntryOf false)
        ((Forest.preorder (parsed.number (.empty "s") false).1.children).filter (Outline.isShown false)) outline ∧
      ∃ found, Html.located? [] (Html.tokens deep.html) = some found ∧
        Outline.Arranges (deep.flatMap Outline.signs) found := by
  have hfit : ∀ e ∈ deep, Outline.IsFit e := by decide +kernel
  exact ⟨hfit, Outline.isComplete_and_nests parsed (.empty "s") false hfit⟩

end SkippedLevels

end Manuscript
