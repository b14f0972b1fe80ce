import Manuscript.Proofs.Html.Escaping

/-!
The nesting of elements in the HTML of a document.

Main statement: the elements of a document without markup in its texts are nested, and in the link of a heading or of an
item of the outline there is no other link (`isNested`).
-/

namespace Manuscript

namespace Html

/-- An element that is open. -/
structure OpenElement where
  name : Text
  /-- It is the heading of a chapter or section or an item of the outline, of which each has a link to itself. -/
  hasOwnLink : Bool
  deriving DecidableEq

/-- The element that a tag opens. -/
def Tag.element (tag : Tag) : OpenElement :=
  ⟨tag.name, tag.name ∈ (["h1", "h2", "h3", "h4"] : List Text) ||
    tag.name = "li" && tag.attributes.any fun a => a.1 = "class"⟩

/-- Is one of the open elements, innermost first, the link of a heading or of an item of the outline to itself? -/
def isInOwnLink : List OpenElement → Bool
  | [] => false
  | e :: around => e.name = "a" && around.head?.any OpenElement.hasOwnLink || isInOwnLink around

/-- The elements that are empty and have no closing tags. -/
def voidNames : List Text := ["br", "img"]

/-- The open elements after a token, if it nests. -/
def nestToken (stack : List OpenElement) : Token → Option (List OpenElement)
  | .text _ => some stack
  | .opens tag =>
    if tag.name ∈ voidNames then if tag.isClosed then some stack else none
    else if tag.isClosed ∨ tag.name = "a" ∧ isInOwnLink stack then none
    else some (tag.element :: stack)
  | .closes name =>
    match stack with
    | e :: around => if e.name = name then some around else none
    | [] => none
  | .verbatim _ | .nothing => none

/-- The open elements after some tokens, if they nest. -/
def nest (stack : List OpenElement) : List Token → Option (List OpenElement)
  | [] => some stack
  | token :: rest => (nestToken stack token).bind fun stack => nest stack rest

/-- In the link of a heading there is no other link. -/
example : nest [] [.opens ⟨"h1", [], false⟩, .opens ⟨"a", [], false⟩, .opens ⟨"a", [], false⟩] = none := by decide

theorem nest_append (stack : List OpenElement) (l more : List Token) :
    nest stack (l ++ more) = (nest stack l).bind fun stack => nest stack more := by
  induction l generalizing stack with
  | nil => rfl
  | cons token l ih =>
      rw [List.cons_append, nest, nest, Option.bind_assoc]
      exact congrArg _ (funext fun stack => ih stack)

/-! Tags without values -/

/-- What a piece adds to the nesting. -/
def Piece.bone? : Piece → Option Token
  | .opens _ tag => some (.opens { tag with attributes := tag.attributes.map fun a => (a.1, []) })
  | .closes name => some (.closes name)
  | .char _ _ => none

/-- The tags among some pieces, without the values of attributes. -/
def bones (ps : List Piece) : List Token := ps.filterMap Piece.bone?

theorem bones_append (ps qs : List Piece) : bones (ps ++ qs) = bones ps ++ bones qs := List.filterMap_append

theorem bones_shown (t : Text) : bones (shown t) = [] := filterMap_shown (fun _ _ => rfl) t

theorem bones_raw (t : Text) : bones (raw t) = [] := filterMap_raw (fun _ _ => rfl) t

theorem bones_trimPieces (ps : List Piece) : bones (trimPieces ps) = bones ps :=
  filterMap_trimPieces (fun _ _ => rfl) ps

theorem bones_relayPieces (indent : Nat) (ps : List Piece) : bones (relayPieces indent ps) = bones ps := by
  induction ps with
  | nil => rfl
  | cons p ps ih =>
      have hcons : ∀ (p : Piece) (rest : List Piece), bones (p :: rest) = p.bone?.toList ++ bones rest := by
        intro p rest
        rw [bones, List.filterMap_cons]
        cases p.bone? <;> rfl
      cases p with
      | opens isRaw tag =>
          rw [relayPieces, hcons, hcons, ih]
          simp [Piece.bone?]
      | closes name => rw [relayPieces, hcons, hcons, ih]
      | char isRaw c =>
          have hchar : ∀ (c : Char) (rest : List Piece), bones (.char isRaw c :: rest) = bones rest := fun _ _ => rfl
          rw [relayPieces, hchar]
          split
          · rw [hchar, bones_append, bones_shown, ih, List.nil_append]
          · split
            · exact ih
            · rw [hchar, ih]

theorem nestToken_map (stack : List OpenElement) (tag : Tag) (f : Text → Text) :
    nestToken stack (.opens { tag with attributes := tag.attributes.map fun a => (a.1, f a.2) }) =
      nestToken stack (.opens tag) := by
  have helement : Tag.element { tag with attributes := tag.attributes.map fun a => (a.1, f a.2) } = tag.element := by
    rw [Tag.element, Tag.element, List.any_map]
    rfl
  rw [nestToken, nestToken, helement]

/-- Texts and the values of attributes do not count. -/
theorem nest_grouped (stack : List OpenElement) (ps : List Piece) :
    nest stack (grouped ps) = nest stack (bones ps) := by
  induction ps generalizing stack with
  | nil => rfl
  | cons p ps ih =>
      have ih : (fun stack => nest stack (grouped ps)) = fun stack => nest stack (bones ps) := funext ih
      cases p with
      | opens isRaw tag =>
          have hcons : bones (.opens isRaw tag :: ps) =
              .opens { tag with attributes := tag.attributes.map fun a => (a.1, []) } :: bones ps := rfl
          have hmap := nestToken_map stack tag fun _ => []
          rw [grouped, hcons, nest, nest, ih, Tag.read, nestToken_map, hmap]
      | closes name =>
          have hcons : bones (.closes name :: ps) = .closes name :: bones ps := rfl
          rw [grouped, hcons, nest, nest, ih]
      | char isRaw c =>
          change nest stack (grouped (.char isRaw c :: ps)) = nest stack (bones ps)
          rw [← congrFun ih stack, grouped]
          split
          · rename_i t more hgrouped
            rw [hgrouped]
            rfl
          · rfl

/-! Pieces put together -/

/-- May a link be opened inside the open elements? -/
def allowsLinks (stack : List OpenElement) : Bool := !isInOwnLink stack && !stack.head?.any OpenElement.hasOwnLink

/-- The pieces nest where they stand: in the link of a heading, or where links are allowed. -/
def Nests (place : Place) (ps : List Piece) : Prop :=
  ∀ stack, (place = .body → allowsLinks stack = true) → nest stack (bones ps) = some stack

theorem nest_wrap {stack : List OpenElement} {name : Text} {attributes : List (Text × Text)} {content : List Piece}
    (hvoid : name ∉ voidNames) (hlink : name = "a" → isInOwnLink stack = false)
    (hcontent : nest ((⟨name, attributes, false⟩ : Tag).element :: stack) (bones content) =
      some ((⟨name, attributes, false⟩ : Tag).element :: stack)) :
    nest stack (bones (wrap name attributes content)) = some stack := by
  have hopens : nestToken stack (.opens ⟨name, attributes, false⟩) =
      some ((⟨name, attributes, false⟩ : Tag).element :: stack) := by
    rw [nestToken, if_neg hvoid, if_neg]
    rintro (hclosed | ⟨hname, hinside⟩)
    · cases hclosed
    · rw [hlink hname] at hinside
      cases hinside
  have hcloses : nestToken ((⟨name, attributes, false⟩ : Tag).element :: stack) (.closes name) = some stack :=
    if_pos rfl
  have hbones : bones (wrap name attributes content) =
      .opens ⟨name, attributes.map fun a => (a.1, []), false⟩ :: (bones content ++ [.closes name]) := by
    change _ :: bones (content ++ [.closes name]) = _
    rw [bones_append]
    rfl
  have hmap := nestToken_map stack ⟨name, attributes, false⟩ fun _ => []
  rw [hbones, nest, hmap, hopens, Option.bind_some, nest_append, hcontent, Option.bind_some, nest, hcloses]
  rfl

theorem isInOwnLink_cons_of_ne {e : OpenElement} (h : e.name ≠ "a") (stack : List OpenElement) :
    isInOwnLink (e :: stack) = isInOwnLink stack := by
  rw [isInOwnLink, decide_eq_false h, Bool.false_and, Bool.false_or]

theorem allowsLinks_iff {stack : List OpenElement} :
    allowsLinks stack = true ↔ isInOwnLink stack = false ∧ stack.head?.any OpenElement.hasOwnLink = false := by
  simp [allowsLinks]

theorem allowsLinks_cons {e : OpenElement} {stack : List OpenElement} (he : e.hasOwnLink = false)
    (h : allowsLinks stack = true) : allowsLinks (e :: stack) = true := by
  obtain ⟨hinside, hhead⟩ := allowsLinks_iff.mp h
  refine allowsLinks_iff.mpr ⟨?_, he⟩
  rw [isInOwnLink, hhead, Bool.and_false, hinside, Bool.false_or]

theorem IsWrapper.hasOwnLink {place : Place} {name : Text} {attributes : List (Text × Text)}
    (h : IsWrapper place name attributes) :
    name ∉ voidNames ∧ (name = "a" → place = .body) ∧ (⟨name, attributes, false⟩ : Tag).element.hasOwnLink = false := by
  have hnames : ∀ name ∈ plainNames, name ∉ voidNames ∧ name ≠ "a" ∧
      name ∉ (["h1", "h2", "h3", "h4"] : List Text) ∧ name ≠ "li" := by
    decide
  cases h with
  | plain h _ =>
      obtain ⟨hvoid, hlink, hheading, hitem⟩ := hnames name h
      refine ⟨hvoid, fun heq => absurd heq hlink, ?_⟩
      change (decide (name ∈ _) || decide (name = _) && _) = false
      rw [decide_eq_false hheading, decide_eq_false hitem]
      rfl
  | link _ => exact ⟨by decide, fun _ => rfl, rfl⟩
  | item | sup => exact ⟨by decide, fun heq => absurd heq (by decide), by decide⟩

namespace Nests

variable {place : Place} {ps qs : List Piece}

theorem of_bones (h : bones ps = []) : Nests place ps := by
  intro stack _
  rw [h]
  rfl

theorem append (hps : Nests place ps) (hqs : Nests place qs) : Nests place (ps ++ qs) := by
  intro stack hstack
  rw [bones_append, nest_append, hps stack hstack, Option.bind_some, hqs stack hstack]

theorem wrap {name : Text} {attributes : List (Text × Text)} (hvoid : name ∉ voidNames)
    (hlink : name = "a" → place = .body) (hown : (⟨name, attributes, false⟩ : Tag).element.hasOwnLink = false)
    (h : Nests place ps) : Nests place (wrap name attributes ps) := by
  intro stack hstack
  exact nest_wrap hvoid (fun hname => (allowsLinks_iff.mp (hstack (hlink hname))).1)
    (h _ fun hplace => allowsLinks_cons hown (hstack hplace))

theorem wrapper {name : Text} {attributes : List (Text × Text)} (hwrapper : IsWrapper place name attributes)
    (h : Nests place ps) : Nests place (Html.wrap name attributes ps) :=
  have hplain := hwrapper.hasOwnLink
  h.wrap hplain.1 hplain.2.1 hplain.2.2

/-- A link in the body. -/
theorem link {attributes : List (Text × Text)} (h : Nests .body ps) : Nests .body (Html.wrap "a" attributes ps) :=
  h.wrap (by decide) (fun _ => rfl) rfl

end Nests

theorem composes_nests : Composes fun place _ ps => Nests place ps where
  shown _ t := .of_bones (bones_shown t)
  append hps hqs := hps.append hqs
  trim hps := fun stack hstack => by rw [bones_trimPieces, hps stack hstack]
  blank _ _ := .of_bones rfl
  wrap hwrapper hcontent := hcontent.wrapper hwrapper
  heading level id content hcontent := by
    intro stack hstack
    obtain ⟨hinside, -⟩ := allowsLinks_iff.mp (hstack rfl)
    have hname : headingTag level ∉ voidNames ∧ headingTag level ≠ "a" := by cases level <;> decide
    refine nest_wrap hname.1 (fun heq => absurd heq hname.2) (nest_wrap (by decide) (fun _ => ?_) ?_)
    · rwa [isInOwnLink_cons_of_ne hname.2]
    · exact hcontent _ fun hplace => nomatch hplace
  lineBreak _ := fun _ _ => rfl
  graphic _ _ := fun _ _ => rfl
  origin mark :=
    .wrap (by decide) (fun heq => absurd heq (by decide)) (by rfl) (.link (.of_bones (bones_shown mark.display)))
  note _ _ _ _ hcontent :=
    .wrap (by decide) (fun heq => absurd heq (by decide)) (by rfl) (hcontent.append (.link (.of_bones rfl)))

/-! The outline -/

/-- The elements that are open in lists inside each other: each list and an item of it. -/
inductive InLists (outer : List OpenElement) : (depth : Nat) → List OpenElement → Prop
  | outside : InLists outer 0 outer
  | item {depth : Nat} {stack : List OpenElement} (hasOwnLink : Bool) (h : InLists outer depth stack) :
    InLists outer (depth + 1) (⟨"li", hasOwnLink⟩ :: ⟨"ul", false⟩ :: stack)

variable {outer stack : List OpenElement} {depth : Nat}

theorem InLists.isInOwnLink_eq (h : InLists outer depth stack) : isInOwnLink stack = isInOwnLink outer := by
  induction h with
  | outside => rfl
  | item hasOwnLink _ ih =>
      have hitem : ("li" : Text) ≠ "a" := by decide
      rw [isInOwnLink_cons_of_ne hitem, isInOwnLink_cons_of_ne (by decide), ih]

theorem nest_closePieces (h : InLists outer depth stack) {levels : Nat} (hlevels : levels ≤ depth) :
    ∃ inner, InLists outer (depth - levels) inner ∧ nest stack (bones (Outline.closePieces levels)) = some inner := by
  induction levels generalizing depth stack with
  | zero => exact ⟨stack, h, rfl⟩
  | succ levels ih =>
      cases h with
      | outside => exact absurd hlevels (Nat.not_succ_le_zero levels)
      | item hasOwnLink h =>
          obtain ⟨inner, hinner, hnest⟩ := ih h (Nat.le_of_succ_le_succ hlevels)
          refine ⟨inner, by rwa [Nat.add_sub_add_right], ?_⟩
          exact hnest

theorem nest_openPieces (h : InLists outer depth stack) (levels : Nat) :
    ∃ inner, InLists outer (depth + levels) inner ∧
      nest stack (bones (Outline.openPieces (levels + 1))) = some (⟨"ul", false⟩ :: inner) := by
  induction levels generalizing depth stack with
  | zero => exact ⟨stack, h, rfl⟩
  | succ levels ih =>
      obtain ⟨inner, hinner, hnest⟩ := ih (h.item false)
      exact ⟨inner, by rwa [Nat.add_right_comm, Nat.add_assoc] at hinner, hnest⟩

theorem nest_betweenPieces (h : InLists outer depth stack) (next : Nat) :
    ∃ inner, InLists outer next inner ∧
      nest stack (bones (Outline.betweenPieces depth (next + 1))) = some (⟨"ul", false⟩ :: inner) := by
  rw [Outline.betweenPieces, bones_append, bones_append, nest_append, nest_append]
  by_cases hle : next + 1 ≤ depth
  · obtain ⟨inner, hinner, hnest⟩ := nest_closePieces h (Nat.sub_le depth (next + 1))
    rw [Nat.sub_sub_self hle] at hinner
    rw [hnest, if_pos ⟨hle, Nat.succ_pos next⟩, Nat.sub_eq_zero_of_le hle]
    cases hinner with
    | item hasOwnLink hinner => exact ⟨_, hinner, rfl⟩
  · obtain ⟨levels, rfl⟩ := Nat.exists_eq_add_of_le (Nat.le_of_lt_succ (Nat.lt_of_not_le hle))
    obtain ⟨inner, hinner, hnest⟩ := nest_openPieces h levels
    rw [Nat.sub_eq_zero_of_le (by omega), if_neg fun hboth => hle hboth.1]
    refine ⟨inner, hinner, ?_⟩
    rw [← hnest]
    have hlevels : depth + levels + 1 - depth = levels + 1 := by omega
    rw [hlevels]
    rfl

theorem nest_entryPieces {e : OutlineEntry} {title : List Piece} (htitle : Nests .heading title)
    (h : isInOwnLink stack = false) :
    nest stack (bones (Outline.entryPieces e title)) = some (⟨"li", true⟩ :: stack) := by
  have hnumber : Nests .heading (Outline.numberPieces e.number) := by
    cases e.number with
    | none => exact .of_bones rfl
    | some number => exact .append (.wrapper (.plain (by decide) (by decide)) (.of_bones (bones_raw number))) (.of_bones rfl)
  have hlink : nest (⟨"li", true⟩ :: stack) (bones (wrap "a" [("href", '#' :: e.id), ("class", "heading")]
      (Outline.numberPieces e.number ++ title))) = some (⟨"li", true⟩ :: stack) := by
    refine nest_wrap (by decide) (fun _ => ?_) (hnumber.append htitle _ fun hplace => nomatch hplace)
    rwa [isInOwnLink_cons_of_ne (by decide)]
  have hfeed : bones [.char false '\n'] = [] := rfl
  have hitem : bones (Outline.entryPieces e title) =
      .opens ⟨"li", [("class", [])], false⟩ ::
        bones (wrap "a" [("href", '#' :: e.id), ("class", "heading")] (Outline.numberPieces e.number ++ title)) := by
    change _ :: bones (wrap _ _ _ ++ _) = _
    rw [bones_append, hfeed, List.append_nil]
    rfl
  rw [hitem, nest, ← hlink]
  rfl

theorem nest_itemsPieces (houter : isInOwnLink outer = false) {entries : List (OutlineEntry × List Piece)}
    (hentries : ∀ e ∈ entries, 0 < e.1.depth ∧ Nests .heading e.2) (h : InLists outer depth stack) :
    nest stack (bones (Outline.itemsPieces depth entries)) = some outer := by
  induction entries generalizing depth stack with
  | nil =>
      obtain ⟨inner, hinner, hnest⟩ := nest_closePieces h (Nat.le_refl depth)
      rw [Nat.sub_self] at hinner
      cases hinner with
      | outside => exact hnest
  | cons e rest ih =>
      obtain ⟨⟨hdepth, htitle⟩, hrest⟩ := List.forall_mem_cons.mp hentries
      obtain ⟨next, hnext⟩ := Nat.exists_eq_succ_of_ne_zero (Nat.ne_of_gt hdepth)
      obtain ⟨inner, hinner, hnest⟩ := nest_betweenPieces h next
      have hlist : isInOwnLink (⟨"ul", false⟩ :: inner) = false := by
        rw [isInOwnLink_cons_of_ne (by decide), hinner.isInOwnLink_eq, houter]
      rw [Outline.itemsPieces, hnext, bones_append, bones_append, nest_append, nest_append, hnest, Option.bind_some,
        nest_entryPieces htitle hlist, Option.bind_some]
      exact ih hrest (hinner.item true)

theorem nests_outlinePieces {entries : List (OutlineEntry × List Piece)}
    (hentries : ∀ e ∈ entries, 0 < e.1.depth ∧ Nests .heading e.2) : Nests .body (Outline.pieces entries) := by
  intro stack hstack
  obtain ⟨hinside, -⟩ := allowsLinks_iff.mp (hstack rfl)
  refine nest_wrap (by decide) (fun heq => absurd heq (by decide)) ?_
  refine nest_itemsPieces ?_ hentries .outside
  rwa [isInOwnLink_cons_of_ne (by decide)]

theorem nests_urlPieces (place : Place) (t : Text) : Nests place (urlPieces place t) := by
  cases place with
  | heading => exact .wrapper (.plain (by decide) (by decide)) (.of_bones (bones_raw t))
  | body =>
      -- The tag is the one of a link, but for its escapes.
      have hlink : bones (urlPieces .body t) = bones (wrap "a" [("href", t), ("class", "url")] (raw t)) := rfl
      rw [Nests, hlink]
      exact Nests.link (.of_bones (bones_raw t))

theorem bones_pieces (d : Document) (w : Sheet) : bones (d.pieces w) = bones (laidOut 0 (d.steps w)) :=
  d.filterMap_pieces (fun _ _ => rfl) w

end Html

open Forest Html

namespace Document

/-- The HTML of a document is well nested. -/
structure IsNested (d : Document) (words : Words) (outline : Option Bool) : Prop where
  /-- Lines are indented by how far in their steps are, -/
  html_eq : d.html (d.setting words outline) = written (laidOut 0 (d.steps (d.sheet words outline .raw))).dropLast
  /-- which never leads out further than it began and comes back there, -/
  indentAfter_eq : indentAfter 0 (d.steps (d.sheet words outline .raw)) = some 0
  /-- and a reader finds elements inside each other, none of them a link in a heading's or an item's own link. -/
  nest_eq : nest [] (tokens (d.html (d.setting words outline))) = some []

/-- A document without markup in its texts and numbers is well nested. -/
theorem isNested {d : Document} (htext : ∀ t ∈ Node.textsIn d.children, t.any isSpecial = false)
    (hnumber : HaveNumbers (fun t => t.any isSpecial = false) d.children) (words : Words) (outline : Option Bool) :
    d.IsNested words outline := by
  have hcode : ∀ n ∈ preorder d.children, n.kind = .codeBlock →
      ∀ p ∈ Code.raw.pieces (codeText n), p.isFormed = true ∧ p.unescaped = [] := by
    intro n hn _ p hp
    refine ⟨isFormed_raw _ p hp, List.eq_nil_iff_forall_not_mem.mpr fun c hc => ?_⟩
    have hplain := List.any_eq_false.mp (any_isSpecial_codeText htext hn) c (unescaped_raw _ p hp c hc)
    exact hplain (isSpecial_of_mem_unescaped hc)
  have hescaped := isEscaped_of_plain words outline hnumber hcode
  have hall := hescaped.escapesAll fun n hn _ => any_isSpecial_address htext hn
  have hraw : AllowsRaw (fun place _ ps => Nests place ps) (d.sheet words outline .raw) d.children := by
    refine ⟨fun n _ _ place => nests_urlPieces place _, fun n _ _ => .of_bones (bones_raw _),
      fun n _ number _ => .of_bones (bones_raw number), fun entries hentries indent => ?_⟩
    obtain ⟨isArticle, -, rfl⟩ := Option.map_eq_some_iff.mp hentries
    rw [Nests, bones_relayPieces]
    refine nests_outlinePieces fun e he => ?_
    obtain ⟨n, -, hpair⟩ := List.mem_filterMap.mp he
    obtain ⟨entry, hentry, rfl⟩ := Option.map_eq_some_iff.mp hpair
    obtain ⟨level, depth, id, -, hdepth, -, rfl⟩ := Outline.exists_of_ofHeading? hentry
    exact ⟨Outline.depth?_pos hdepth, composes_nests.headingTitlePieces fun m _ _ => nests_urlPieces .heading _⟩
  have hnests := (composes_nests.laid_blocksSteps hraw).1.laidOut 0 [] fun _ => rfl
  refine ⟨hescaped.html_eq, (writes_blocksSteps (fits_sheet d words outline .raw) d.children).1.isLevel 0, ?_⟩
  rw [hall.tokens_eq, nest_grouped, bones_pieces]
  exact hnests

end Document

namespace LinkedTitle

/-- An outline, and a chapter with a link in its title. -/
def source : Text :=
  "<document><tableofcontents/><chapter><title>On <link href='#b'>b</link></title></chapter></document>"

def parsed : Document := (Document.parse? source).get (by decide +kernel)

def numbered : Document := (parsed.number (.empty "s") false).1

/-- The link is left out twice. -/
theorem isNested_numbered : numbered.IsNested .default (some false) ∧
    numbered.html (numbered.setting .default (some false)) = Text.unlines
      ["<div id=\"table_of_contents\">", "<ul>",
        "<li class=\"chapter\"><a href=\"#chapter-1\" class=\"heading\"><span class=\"number\">1</span> On b</a>",
        "</li>", "</ul>", "</div>", "<div id=\"chapter-1\" class=\"chapter\">",
        "  <h1><a href=\"#chapter-1\" class=\"heading\"><span class=\"number\">Chapter 1</span> On b</a></h1>",
        "</div>"] := by
  have htext : (Node.textsIn numbered.children).all (fun t => !t.any isSpecial) = true := by decide +kernel
  have hnumber : (preorder numbered.children).all (fun n => n.number.all fun t => !t.any isSpecial) = true := by
    decide +kernel
  refine ⟨Document.isNested (fun t ht => ?_) (fun n hn t ht => ?_) .default (some false), by decide +kernel⟩
  · simpa using List.all_eq_true.mp htext t ht
  · have hplain := List.all_eq_true.mp hnumber n hn
    rw [ht, Option.all_some] at hplain
    simpa using hplain

end LinkedTitle

end Manuscript
