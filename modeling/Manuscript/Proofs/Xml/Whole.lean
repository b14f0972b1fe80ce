import Manuscript.Proofs.Xml.Steps

/-!
What is written in an XML text: a tree of elements and texts, with the comments and the processing instructions in their
places.  The tree that is read has no places for these, but they part texts all the same.

Main statement: a text is read exactly if its tokens spell a tree, and what is read is that tree without its comments and
processing instructions (`parse?_eq_some_iff`).
-/

namespace Manuscript.Xml

/-- What is written in an XML text. -/
inductive Item where
  | text (t : Text)
  /-- A comment or a processing instruction. -/
  | aside
  | element (name : Text) (attributes : List (Text × Text)) (children : List Item)

namespace Item

/-- What holds of some items if it holds of the items inside of the first and of those after it. -/
theorem induction {motive : List Item → Prop} (nil : motive []) (text : ∀ t rest, motive rest → motive (.text t :: rest))
    (aside : ∀ rest, motive rest → motive (.aside :: rest))
    (element : ∀ name attributes children rest, motive children → motive rest →
      motive (.element name attributes children :: rest)) (items : List Item) : motive items :=
  @Item.rec_1 (fun item => ∀ rest, motive rest → motive (item :: rest)) motive text aside
    (fun name attributes children hchildren rest hrest => element name attributes children rest hchildren hrest) nil
    (fun _ rest hitem hrest => hitem rest hrest) items

/-- Puts text before some items; a text that comes first goes on with it. -/
def consText (s : Text) : List Item → List Item
  | .text t :: items => .text (s ++ t) :: items
  | items => .text s :: items

/-- Is the item a text? -/
def isText : Item → Bool
  | .text _ => true
  | _ => false

/-- No text is followed by another. -/
def Apart : List Item → Prop
  | [] => True
  | item :: rest => (item.isText = true → ∀ next ∈ rest.head?, next.isText = false) ∧ Apart rest

mutual

/-- An item without the comments and the processing instructions in it. -/
def bare : Item → List Xml
  | .text t => [.text t]
  | .aside => []
  | .element name attributes children => [.element name attributes (bares children)]

/-- Items without the comments and the processing instructions in them. -/
def bares : List Item → List Xml
  | [] => []
  | item :: rest => bare item ++ bares rest

end

mutual

/-- All the text in an item. -/
def allText : Item → Text
  | .text t => t
  | .aside => []
  | .element _ _ children => allTexts children

/-- All the text in some items. -/
def allTexts : List Item → Text
  | [] => []
  | item :: rest => allText item ++ allTexts rest

end

/-- Comments and processing instructions have no text. -/
theorem allTexts_bares (items : List Item) : Xml.allTexts (bares items) = allTexts items := by
  induction items using induction with
  | nil => rfl
  | text t rest ih => rw [bares, bare, List.singleton_append, Xml.allTexts, Xml.allText, ih, allTexts, allText]
  | aside rest ih => rw [bares, bare, List.nil_append, ih, allTexts, allText, List.nil_append]
  | element name attributes children rest ihChildren ihRest =>
      rw [bares, bare, List.singleton_append, Xml.allTexts, Xml.allText, ihChildren, ihRest, allTexts, allText]

end Item

open Item

/-- The tokens that a text begins with, and the text after them. -/
inductive Tokenizes : Text → List Token → Text → Prop
  | nil (t : Text) : Tokenizes t [] t
  | cons {t rest after : Text} {token : Token} {tokens : List Token} (hfirst : token? t = some (token, rest))
      (hshorter : rest.length < t.length) (hrest : Tokenizes rest tokens after) : Tokenizes t (token :: tokens) after

/-- The tokens of items, in the scope of some prefixes. -/
inductive Spells : Scope → List Token → List Item → Prop
  | nil (scope : Scope) : Spells scope [] []
  | text {scope : Scope} {tokens : List Token} {items : List Item} (s : Text) (hrest : Spells scope tokens items) :
      Spells scope (.text s :: tokens) (consText s items)
  | aside {scope : Scope} {tokens : List Token} {items : List Item} (hrest : Spells scope tokens items) :
      Spells scope (.aside :: tokens) (.aside :: items)
  | empty {scope : Scope} {tokens : List Token} {items : List Item} {name : QName} {attributes : List Attribute} {o : Open}
      (hopen : Open.new? scope name attributes = some o) (hrest : Spells scope tokens items) :
      Spells scope (.opens name attributes true :: tokens) (.element name.name o.attributes [] :: items)
  | element {scope : Scope} {inner tokens : List Token} {children items : List Item} {name : QName}
      {attributes : List Attribute} {o : Open} (hopen : Open.new? scope name attributes = some o)
      (hinner : Spells o.scope inner children) (hrest : Spells scope tokens items) :
      Spells scope (.opens name attributes false :: (inner ++ .closes name :: tokens))
        (.element name.name o.attributes children :: items)

/-- The root element of a text, with all that is written in it. -/
def IsRootOf (t : Text) (root : Item) : Prop :=
  ∃ start rest last name attributes isEmpty tokens, prolog? t = some start ∧
    token? start = some (.opens name attributes isEmpty, rest) ∧ Tokenizes rest tokens last ∧
      Spells [] (.opens name attributes isEmpty :: tokens) [root] ∧ asides? last = some []

section Tokens

variable {t after last : Text} {tokens more : List Token}

theorem Tokenizes.append_iff : Tokenizes t (tokens ++ more) last ↔
    ∃ after, Tokenizes t tokens after ∧ Tokenizes after more last := by
  constructor
  · intro h
    induction tokens generalizing t with
    | nil => exact ⟨t, .nil t, h⟩
    | cons token tokens ih =>
        cases h with
        | cons hfirst hshorter hrest =>
            obtain ⟨after, htokens, hmore⟩ := ih hrest
            exact ⟨after, .cons hfirst hshorter htokens, hmore⟩
  · rintro ⟨after, htokens, hmore⟩
    induction htokens with
    | nil => exact hmore
    | cons hfirst hshorter _ ih => exact .cons hfirst hshorter (ih hmore)

/-- No name begins with a character that no name has. -/
theorem opening?_eq_none {c : Char} (hc : isNameCharacter c = false) (t : Text) : opening? (c :: t) = none := by
  have hlexeme : (c :: t).takeWhile isNameCharacter = [] := List.takeWhile_cons_of_neg (by simp [hc])
  have hname : qname? (c :: t) = none := by
    rw [qname?, hlexeme]
    rfl
  rw [opening?, hname]
  rfl

/-- An element opens with an angle bracket and what follows it in its tag. -/
theorem token?_eq_opens_iff {name : QName} {attributes : List Attribute} {isEmpty : Bool} {rest : Text} :
    token? t = some (.opens name attributes isEmpty, rest) ↔
      ∃ tag, t = '<' :: tag ∧ opening? tag = some (.opens name attributes isEmpty, rest) := by
  constructor
  · intro h
    have hmap {read : Option Text} : read.map (fun rest => (Token.aside, rest)) ≠ some (.opens name attributes isEmpty, rest) := by
      cases read <;> simp
    unfold token? at h
    split at h
    · cases h
    · split at h
      · exact absurd h hmap
      · simp only [section?, Option.bind_eq_bind, Option.bind_eq_some_iff] at h
        obtain ⟨⟨body, rest'⟩, -, h⟩ := h
        split at h <;> cases h
      · cases h
    · exact absurd h hmap
    · simp only [closing?, Option.bind_eq_bind, Option.bind_eq_some_iff] at h
      obtain ⟨⟨name', rest'⟩, -, rest'', -, h⟩ := h
      cases h
    · exact ⟨_, rfl, h⟩
    · simp only [charData?, Option.bind_eq_bind, Option.bind_eq_some_iff] at h
      obtain ⟨s, -, h⟩ := h
      split at h <;> cases h
  · rintro ⟨tag, rfl, h⟩
    cases tag with
    | nil => cases h
    | cons c tag =>
        have hother : c ≠ '!' ∧ c ≠ '?' ∧ c ≠ '/' := by
          refine ⟨?_, ?_, ?_⟩ <;>
          · rintro rfl
            rw [opening?_eq_none (by decide +kernel)] at h
            cases h
        rw [token?_opening hother, h]

end Tokens

namespace Open

variable {o child : Open} {scope : Scope} {name : QName} {attributes : List Attribute} {items : List Item}

/-- Adds an item to an element that is still open. -/
def take (o : Open) : Item → Open
  | .text s => o.addText s
  | .aside => o.pause
  | .element name attributes children => o.addElement (.element name attributes (bares children))

/-- Adds items to an element that is still open. -/
def takes (o : Open) (items : List Item) : Open := items.foldl take o

theorem addText_eq (o : Open) (s : Text) : (o.addText s).name = o.name ∧ (o.addText s).attributes = o.attributes ∧
    (o.addText s).scope = o.scope ∧ (o.addText s).isInText = true := by
  unfold addText
  split <;> simp_all

/-- Texts one after the other are one text. -/
theorem addText_addText (o : Open) (s t : Text) : (o.addText s).addText t = o.addText (s ++ t) := by
  obtain ⟨name, attributes, scope, children, isInText⟩ := o
  cases isInText with
  | false => rfl
  | true =>
      cases children with
      | nil => rfl
      | cons x before =>
          cases x with
          | text r => simp [addText]
          | element => rfl

theorem takes_consText (o : Open) (s : Text) (items : List Item) : o.takes (consText s items) = (o.addText s).takes items := by
  cases items with
  | nil => rfl
  | cons item items =>
      cases item with
      | text t => simp only [consText, takes, List.foldl_cons, take, addText_addText]
      | _ => rfl

theorem of_new? (h : new? scope name attributes = some o) : o.name = name ∧ o.children = [] ∧ o.isInText = false := by
  simp only [new?, Option.bind_eq_bind, Option.bind_eq_some_iff] at h
  obtain ⟨⟨declared, others⟩, -, spaces, -, h⟩ := h
  split at h
  · cases h
  · rw [← Option.some.inj h]
    exact ⟨rfl, rfl, rfl⟩

theorem take_eq (o : Open) (item : Item) :
    (o.take item).name = o.name ∧ (o.take item).attributes = o.attributes ∧ (o.take item).scope = o.scope := by
  cases item with
  | text s => exact ⟨(o.addText_eq s).1, (o.addText_eq s).2.1, (o.addText_eq s).2.2.1⟩
  | _ => exact ⟨rfl, rfl, rfl⟩

theorem takes_eq (o : Open) (items : List Item) :
    (o.takes items).name = o.name ∧ (o.takes items).attributes = o.attributes ∧ (o.takes items).scope = o.scope := by
  induction items generalizing o with
  | nil => exact ⟨rfl, rfl, rfl⟩
  | cons item items ih =>
      obtain ⟨hname, hattributes, hscope⟩ := ih (o.take item)
      obtain ⟨hname', hattributes', hscope'⟩ := o.take_eq item
      exact ⟨hname.trans hname', hattributes.trans hattributes', hscope.trans hscope'⟩

/-- The items of an element become its children, unless a text goes on with the one before it. -/
theorem children_takes (hitems : Apart items) (hfirst : o.isInText = true → ∀ item ∈ items.head?, item.isText = false) :
    (o.takes items).children = (bares items).reverse ++ o.children := by
  induction items generalizing o with
  | nil => rfl
  | cons item items ih =>
      obtain ⟨hnext, hitems⟩ := hitems
      cases item with
      | text s =>
          have hbegun : o.isInText = false := by
            cases hisInText : o.isInText with
            | false => rfl
            | true => cases hfirst hisInText _ rfl
          have hchildren : (o.addText s).children = .text s :: o.children := by
            rw [addText, hbegun]
          have hrest := ih (o := o.addText s) hitems fun _ => hnext rfl
          rw [takes, List.foldl_cons, ← takes, take, hrest, hchildren, bares, bare]
          simp
      | aside =>
          have hrest := ih (o := o.pause) hitems nofun
          rw [takes, List.foldl_cons, ← takes, take, hrest, bares, bare]
          rfl
      | element name attributes children =>
          have hrest := ih (o := o.take (.element name attributes children)) hitems nofun
          rw [takes, List.foldl_cons, ← takes, hrest, bares, bare]
          simp [take, addElement]

end Open

theorem Item.Apart.consText {items : List Item} (h : Apart items) (s : Text) : Apart (consText s items) := by
  cases items with
  | nil => exact ⟨nofun, trivial⟩
  | cons item items =>
      cases item with
      | text t => exact ⟨h.1, h.2⟩
      | _ => exact ⟨fun _ next hnext => by obtain rfl := Option.some.inj hnext; rfl, h⟩

/-- Texts that are spelled one after the other are one text. -/
theorem Spells.apart {scope : Scope} {tokens : List Token} {items : List Item} (h : Spells scope tokens items) :
    Apart items := by
  induction h with
  | nil => trivial
  | text s _ ih => exact ih.consText s
  | aside _ ih => exact ⟨nofun, ih⟩
  | empty _ _ ih => exact ⟨nofun, ih⟩
  | element _ _ _ _ ih => exact ⟨nofun, ih⟩

/-- An element is closed with the items in it as its children. -/
theorem close_takes {scope : Scope} {name : QName} {attributes : List Attribute} {o : Open} {tokens : List Token}
    {items : List Item} (hopen : Open.new? scope name attributes = some o) (h : Spells o.scope tokens items) :
    (o.takes items).close = .element name.name o.attributes (bares items) := by
  obtain ⟨hname, hchildren, hisInText⟩ := Open.of_new? hopen
  obtain ⟨hname', hattributes', -⟩ := o.takes_eq items
  have hall := Open.children_takes (o := o) h.apart (fun htext => by rw [hisInText] at htext; cases htext)
  rw [Open.close, hname', hname, hattributes', hall, hchildren, List.append_nil, List.reverse_reverse]

/-- An element that has been closed is added to the one around it. -/
theorem takes_element {scope : Scope} {name : QName} {attributes : List Attribute} {o : Open} {tokens : List Token}
    {children : List Item} (hopen : Open.new? scope name attributes = some o) (h : Spells o.scope tokens children) (top : Open)
    (items : List Item) : top.takes (.element name.name o.attributes children :: items) =
      (top.addElement (o.takes children).close).takes items := by
  rw [Open.takes, List.foldl_cons, ← Open.takes, Open.take, close_takes hopen h]

/-- Goes on after the innermost of the elements that are open has been closed. -/
def Open.leave (top : Open) (outer : List Open) (t : Text) : Option (Xml × Text) :=
  match outer with
  | [] => some (top.close, t)
  | parent :: outer => content? (parent.addElement top.close) outer t

/-- What is read inside of an element is spelled by tokens, and goes on after its end. -/
theorem exists_spells_of_content? {top : Open} {outer : List Open} {t rest : Text} {x : Xml}
    (h : content? top outer t = some (x, rest)) :
    ∃ items tokens after, Tokenizes t (tokens ++ [.closes top.name]) after ∧ Spells top.scope tokens items ∧
      after.length < t.length ∧ (top.takes items).leave outer after = some (x, rest) := by
  induction hn : t.length using Nat.strongRecOn generalizing t top outer with
  | _ n ih =>
      subst hn
      rw [content?_eq] at h
      obtain ⟨⟨token, next⟩, hfirst, h⟩ := Option.bind_eq_some_iff.mp h
      split at h
      · rename_i hshorter
        cases token with
        | text s =>
            obtain ⟨items, tokens, after, htokens, hspells, hafter, hleave⟩ := ih _ hshorter h rfl
            obtain ⟨hname, -, hscope, -⟩ := top.addText_eq s
            rw [hname] at htokens
            rw [hscope] at hspells
            refine ⟨consText s items, .text s :: tokens, after, .cons hfirst hshorter htokens, .text s hspells,
              Nat.lt_trans hafter hshorter, ?_⟩
            rw [Open.takes_consText, hleave]
        | aside =>
            obtain ⟨items, tokens, after, htokens, hspells, hafter, hleave⟩ := ih _ hshorter h rfl
            exact ⟨.aside :: items, .aside :: tokens, after, .cons hfirst hshorter htokens, .aside hspells,
              Nat.lt_trans hafter hshorter, hleave⟩
        | opens name attributes isEmpty =>
            obtain ⟨child, hopen, h⟩ := Option.bind_eq_some_iff.mp h
            cases isEmpty with
            | true =>
                obtain ⟨items, tokens, after, htokens, hspells, hafter, hleave⟩ := ih _ hshorter h rfl
                refine ⟨.element name.name child.attributes [] :: items, _, after, .cons hfirst hshorter htokens,
                  .empty hopen hspells, Nat.lt_trans hafter hshorter, ?_⟩
                rw [takes_element hopen (.nil child.scope)]
                exact hleave
            | false =>
                obtain ⟨children, inner, middle, hinner, hspells, hmiddle, hleave⟩ := ih _ hshorter h rfl
                obtain ⟨items, tokens, after, htokens, hspells', hafter, hleave'⟩ :=
                  ih _ (Nat.lt_trans hmiddle hshorter) hleave rfl
                rw [(Open.of_new? hopen).1] at hinner
                have hall : Tokenizes next ((inner ++ .closes name :: tokens) ++ [.closes top.name]) after := by
                  rw [List.append_assoc, List.cons_append, List.append_cons]
                  exact Tokenizes.append_iff.mpr ⟨middle, hinner, htokens⟩
                refine ⟨.element name.name child.attributes children :: items, _, after, .cons hfirst hshorter hall,
                  .element hopen hspells hspells', Nat.lt_trans hafter (Nat.lt_trans hmiddle hshorter), ?_⟩
                rw [takes_element hopen hspells]
                exact hleave'
        | closes name =>
            dsimp only at h
            split at h
            · cases h
            · rename_i hname
              obtain rfl := Decidable.not_not.mp hname
              exact ⟨[], [], next, .cons hfirst hshorter (.nil next), .nil top.scope, hshorter, h⟩
      · cases h

/-- The tag that closes an element ends it. -/
theorem content?_closes {top : Open} {t after : Text} {name : QName} (ht : Tokenizes t [.closes name] after)
    (hname : top.name = name) (outer : List Open) : content? top outer t = top.leave outer after := by
  cases ht with
  | cons hclose hshorter hrest =>
      cases hrest
      rw [content?_eq, hclose, Option.bind_some, if_pos hshorter]
      simp only [hname, ne_eq, not_true_eq_false, if_false]
      rfl

/-- Tokens that spell items are read as these. -/
theorem Spells.content?_eq {scope : Scope} {tokens : List Token} {items : List Item} (h : Spells scope tokens items)
    (top : Open) (htop : top.scope = scope) {t after : Text} (ht : Tokenizes t tokens after) (outer : List Open) :
    content? top outer t = content? (top.takes items) outer after := by
  induction h generalizing top outer t after with
  | nil =>
      cases ht
      rfl
  | text s _ ih =>
      cases ht with
      | cons hfirst hshorter hrest =>
          rw [Xml.content?_eq, hfirst, Option.bind_some, if_pos hshorter, Open.takes_consText]
          exact ih (top.addText s) ((top.addText_eq s).2.2.1.trans htop) hrest outer
  | aside _ ih =>
      cases ht with
      | cons hfirst hshorter hrest =>
          rw [Xml.content?_eq, hfirst, Option.bind_some, if_pos hshorter]
          exact ih top.pause htop hrest outer
  | empty hopen _ ih =>
      cases ht with
      | cons hfirst hshorter hrest =>
          rw [Xml.content?_eq, hfirst, Option.bind_some, if_pos hshorter]
          simp only [htop, hopen, Option.bind_some, if_true]
          rw [takes_element hopen (.nil _)]
          exact ih (top.addElement _) htop hrest outer
  | @element _ _ _ children _ name _ o hopen hinner _ ihInner ihRest =>
      cases ht with
      | cons hfirst hshorter hrest =>
          rw [List.append_cons, Tokenizes.append_iff] at hrest
          obtain ⟨outside, hinside, hafter⟩ := hrest
          obtain ⟨middle, hmiddle, hclose⟩ := Tokenizes.append_iff.mp hinside
          have hname : (o.takes children).name = name := (o.takes_eq children).1.trans (Open.of_new? hopen).1
          rw [Xml.content?_eq, hfirst, Option.bind_some, if_pos hshorter]
          simp only [htop, hopen, Option.bind_some]
          rw [if_neg (by simp), ihInner o rfl hmiddle, content?_closes hclose hname, takes_element hopen hinner]
          exact ihRest (top.addElement _) htop hafter outer

theorem Spells.eq_nil {scope : Scope} {tokens : List Token} (h : Spells scope tokens []) : tokens = [] := by
  generalize hitems : ([] : List Item) = items at h
  cases h with
  | nil => rfl
  | @text _ _ items s _ =>
      cases items with
      | nil => cases hitems
      | cons item _ => cases item <;> cases hitems
  | _ => cases hitems

/-- The root is an element. -/
theorem IsRootOf.exists_element {t : Text} {root : Item} (h : IsRootOf t root) :
    ∃ name attributes children, root = .element name attributes children := by
  obtain ⟨_, _, _, _, _, _, _, -, -, -, hspells, -⟩ := h
  cases hspells <;> exact ⟨_, _, _, rfl⟩

/-- What is read is the element whose tokens stand at the start. -/
theorem element?_eq_some_iff {t rest : Text} {x : Xml} : element? t = some (x, rest) ↔
    ∃ name attributes isEmpty next tokens root, token? t = some (.opens name attributes isEmpty, next) ∧
      Tokenizes next tokens rest ∧ Spells [] (.opens name attributes isEmpty :: tokens) [root] ∧ bare root = [x] := by
  constructor
  · intro h
    obtain ⟨tag, htag, h⟩ := Option.bind_eq_some_iff.mp h
    obtain ⟨⟨token, next⟩, hopening, h⟩ := Option.bind_eq_some_iff.mp h
    cases token with
    | opens name attributes isEmpty =>
        obtain ⟨root, hopen, h⟩ := Option.bind_eq_some_iff.mp h
        have htoken : token? t = some (.opens name attributes isEmpty, next) :=
          token?_eq_opens_iff.mpr ⟨tag, Text.eq_append_of_after? htag, hopening⟩
        cases isEmpty with
        | true =>
            obtain ⟨rfl, rfl⟩ := Prod.mk.inj (Option.some.inj h)
            refine ⟨name, attributes, true, next, [], _, htoken, .nil next, .empty hopen (.nil []), ?_⟩
            rw [bare, ← close_takes hopen (.nil root.scope)]
            rfl
        | false =>
            obtain ⟨items, tokens, after, htokens, hspells, -, hleave⟩ := exists_spells_of_content? h
            obtain ⟨rfl, rfl⟩ := Prod.mk.inj (Option.some.inj hleave)
            rw [(Open.of_new? hopen).1] at htokens
            refine ⟨name, attributes, false, next, _, _, htoken, htokens, .element hopen hspells (.nil []), ?_⟩
            rw [bare, close_takes hopen hspells]
    | _ => cases h
  · rintro ⟨name, attributes, isEmpty, next, tokens, root, htoken, htokens, hspells, hbare⟩
    obtain ⟨tag, rfl, hopening⟩ := token?_eq_opens_iff.mp htoken
    have htag : Text.after? "<" ('<' :: tag) = some tag := rfl
    cases hspells with
    | empty hopen hrest =>
        obtain rfl := hrest.eq_nil
        cases htokens
        rw [bare, ← close_takes hopen (.nil _)] at hbare
        obtain rfl := List.singleton_inj.mp hbare
        simp only [element?, htag, hopening, hopen, Option.bind_eq_bind, Option.bind_some, if_true]
        rfl
    | @element _ _ _ children _ _ _ o hopen hinner hrest =>
        obtain rfl := hrest.eq_nil
        obtain ⟨middle, hmiddle, hclose⟩ := Tokenizes.append_iff.mp htokens
        have hname : (o.takes children).name = name := (o.takes_eq children).1.trans (Open.of_new? hopen).1
        rw [bare, ← close_takes hopen hinner] at hbare
        obtain rfl := List.singleton_inj.mp hbare
        simp only [element?, htag, hopening, hopen, Option.bind_eq_bind, Option.bind_some, Bool.false_eq_true, if_false]
        rw [hinner.content?_eq o rfl hmiddle, content?_closes hclose hname]
        rfl

/-- A text is read exactly if its tokens spell an element, which is read without the comments and the processing
instructions in it. -/
theorem parse?_eq_some_iff {t : Text} {x : Xml} : parse? t = some x ↔ ∃ root, IsRootOf t root ∧ bare root = [x] := by
  constructor
  · intro h
    obtain ⟨start, hstart, h⟩ := Option.bind_eq_some_iff.mp h
    obtain ⟨⟨x', rest⟩, hroot, h⟩ := Option.bind_eq_some_iff.mp h
    obtain ⟨last, hlast, h⟩ := Option.bind_eq_some_iff.mp h
    obtain ⟨name, attributes, isEmpty, next, tokens, root, htoken, htokens, hspells, hbare⟩ := element?_eq_some_iff.mp hroot
    split at h
    · rename_i hend
      subst hend
      obtain rfl := Option.some.inj h
      exact ⟨root, ⟨start, next, rest, name, attributes, isEmpty, tokens, hstart, htoken, htokens, hspells, hlast⟩, hbare⟩
    · cases h
  · rintro ⟨root, ⟨start, next, rest, name, attributes, isEmpty, tokens, hstart, htoken, htokens, hspells, hlast⟩, hbare⟩
    have hroot := element?_eq_some_iff.mpr
      ⟨name, attributes, isEmpty, next, tokens, root, htoken, htokens, hspells, hbare⟩
    simp only [parse?, Option.bind_eq_bind, hstart, hroot, hlast, Option.bind_some, if_true]

end Manuscript.Xml
