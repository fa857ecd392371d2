import MarkdownLayout.Proofs.Planting
import MarkdownLayout.Reformat

/-!
# Trees that are read from tokens

Reading tokens fails only over the level of a heading or the first number of a list, and only if
such a token is reached: tokens of unknown kinds, and what is inside them, are passed over. What is
read otherwise is a document in good order, and one thing alone can keep a document in good order
from being laid out: an item that has to show a number with too many digits. The main statement is
`parse_orderly`.

Blocks and items are read by mutual recursion, and so are the statements about them. `Yields`
carries the induction: it says when a reading fails and what it gives when it does not, and it is
kept when readings follow each other.
-/

namespace MarkdownLayout

/-- A token is reached when blocks are read from some tokens: it is one of them, or it is reached
in a quotation or in an item of a list that is one of them. -/
inductive Token.Reached : Token → List Token → Prop
  /-- The token is one of them. -/
  | here {token : Token} {tokens : List Token} : token ∈ tokens → Reached token tokens
  /-- The token is reached in a quotation. -/
  | quoted {token : Token} {tokens children : List Token} {raw : String}
    {attributes : Attributes} :
    .mk .blockQuote raw attributes children ∈ tokens → Reached token children →
      Reached token tokens
  /-- The token is reached in an item of a list. -/
  | listed {token : Token} {tokens items children : List Token} {raw text : String}
    {attributes other : Attributes} :
    .mk .list raw attributes items ∈ tokens → .mk .listItem text other children ∈ items →
      Reached token children → Reached token tokens

/-- What is wrong with a token: the level of a heading is outside one to six, or a numbered list
starts below zero. -/
def Token.fault? : Token → Option BuildError
  | .mk .heading _ attributes _ =>
    let level := attributes.level.getD 1
    if 1 ≤ level ∧ level ≤ 6 then none else some (.headingLevel level)
  | .mk .list _ attributes _ =>
    if attributes.ordered then
      match attributes.start with
      | some start => if start < 0 then some (.listStart start) else none
      | none => none
    else none
  | _ => none

/-- Something is wrong with a token that is reached, and the error says what. There may be several
such tokens, with different errors. -/
def Token.Faulty (tokens : List Token) (error : BuildError) : Prop :=
  ∃ token, Token.Reached token tokens ∧ token.fault? = some error

namespace Token

/-- Where there are no tokens, none is reached and nothing is wrong. -/
theorem not_faulty_nil (error : BuildError) : ¬ Faulty [] error := by
  rintro ⟨token, hreached, -⟩
  cases hreached with
  | here hm => cases hm
  | quoted hm _ => cases hm
  | listed hm _ _ => cases hm

/-- What is reached from some tokens is reached from more tokens. What lies between the tokens
plays no part, and neither does their order. -/
theorem Reached.mono {token : Token} {tokens more : List Token} (h : Reached token tokens)
    (hm : ∀ t ∈ tokens, t ∈ more) : Reached token more := by
  cases h with
  | here hin => exact .here (hm _ hin)
  | quoted hin hr => exact .quoted (hm _ hin) hr
  | listed hin hitem hr => exact .listed (hm _ hin) hitem hr

/-- What is wrong with a list of tokens is wrong with the first one, or with the others. Blocks
are read in this order. -/
theorem faulty_cons {token : Token} {rest : List Token} {error : BuildError} :
    Faulty (token :: rest) error ↔ Faulty [token] error ∨ Faulty rest error := by
  have hsplit : ∀ {t : Token}, t ∈ token :: rest → t ∈ [token] ∨ t ∈ rest := by
    intro t ht
    rwa [← List.mem_append, List.singleton_append]
  constructor
  · rintro ⟨t, hreached, hfault⟩
    cases hreached with
    | here hm => exact (hsplit hm).imp (⟨t, .here ·, hfault⟩) (⟨t, .here ·, hfault⟩)
    | quoted hm hr =>
      exact (hsplit hm).imp (⟨t, .quoted · hr, hfault⟩) (⟨t, .quoted · hr, hfault⟩)
    | listed hm hi hr =>
      exact (hsplit hm).imp (⟨t, .listed · hi hr, hfault⟩) (⟨t, .listed · hi hr, hfault⟩)
  · rintro (⟨t, hreached, hfault⟩ | ⟨t, hreached, hfault⟩)
    · exact ⟨t, hreached.mono (by simp), hfault⟩
    · exact ⟨t, hreached.mono (by simp +contextual), hfault⟩

/-- Something is wrong with a token that is reached in an item of a list. What is in a list but is
no item does not count. -/
def FaultyItem (items : List Token) (error : BuildError) : Prop :=
  ∃ raw attributes children,
    Token.mk .listItem raw attributes children ∈ items ∧ Faulty children error

/-- What is wrong with a list of items is wrong in the first item, or in the others. -/
theorem faultyItem_cons {raw : String} {attributes : Attributes} {children rest : List Token}
    {error : BuildError} :
    FaultyItem (.mk .listItem raw attributes children :: rest) error ↔
      Faulty children error ∨ FaultyItem rest error := by
  constructor
  · rintro ⟨_, _, _, hm, hfaulty⟩
    rcases List.mem_cons.mp hm with he | hm
    · cases he
      exact .inl hfaulty
    · exact .inr ⟨_, _, _, hm, hfaulty⟩
  · rintro (hfaulty | ⟨_, _, _, hm, hfaulty⟩)
    · exact ⟨_, _, _, List.mem_cons_self, hfaulty⟩
    · exact ⟨_, _, _, List.mem_cons_of_mem _ hm, hfaulty⟩

/-- What is no item is left out, with all that is inside it. -/
theorem faultyItem_cons_of_ne {kind : TokenKind} (h : kind ≠ .listItem) {raw : String}
    {attributes : Attributes} {children rest : List Token} {error : BuildError} :
    FaultyItem (.mk kind raw attributes children :: rest) error ↔ FaultyItem rest error := by
  constructor
  · rintro ⟨_, _, _, hm, hfaulty⟩
    rcases List.mem_cons.mp hm with he | hm
    · cases he
      exact absurd rfl h
    · exact ⟨_, _, _, hm, hfaulty⟩
  · rintro ⟨_, _, _, hm, hfaulty⟩
    exact ⟨_, _, _, List.mem_cons_of_mem _ hm, hfaulty⟩

/-- What is wrong with one token is wrong with the token itself or with one inside it. Only
quotations and lists are looked into for blocks. -/
theorem faulty_singleton {kind : TokenKind} {raw : String} {attributes : Attributes}
    {children : List Token} {error : BuildError} :
    Faulty [.mk kind raw attributes children] error ↔
      (kind = .blockQuote ∧ Faulty children error) ∨ (kind = .list ∧ FaultyItem children error) ∨
        (Token.mk kind raw attributes children).fault? = some error := by
  constructor
  · rintro ⟨t, hreached, hfault⟩
    cases hreached with
    | here hm =>
      cases List.mem_singleton.mp hm
      exact .inr (.inr hfault)
    | quoted hm hr =>
      cases List.mem_singleton.mp hm
      exact .inl ⟨rfl, t, hr, hfault⟩
    | listed hm hi hr =>
      cases List.mem_singleton.mp hm
      exact .inr (.inl ⟨rfl, _, _, _, hi, t, hr, hfault⟩)
  · rintro (⟨rfl, t, hr, hfault⟩ | ⟨rfl, _, _, _, hi, t, hr, hfault⟩ | hfault)
    · exact ⟨t, .quoted List.mem_cons_self hr, hfault⟩
    · exact ⟨t, .listed List.mem_cons_self hi hr, hfault⟩
    · exact ⟨_, .here List.mem_cons_self, hfault⟩

end Token

namespace Reading

/-- A reading fails with one of the errors, or there is none of them and it gives something good.
What has been noted before the reading plays no part. -/
def Yields {α : Type} (reading : Reading α) (faulty : BuildError → Prop) (good : α → Prop) :
    Prop :=
  ∀ notes, (∃ error notes', reading notes = .error error notes' ∧ faulty error) ∨
    ∃ a notes', reading notes = .ok a notes' ∧ (∀ error, ¬ faulty error) ∧ good a

variable {α β : Type} {reading : Reading α} {faulty other : BuildError → Prop} {good : α → Prop}

/-- A reading that has nothing to read does not fail. -/
theorem Yields.pure {a : α} (h : good a) : Yields (pure a) (fun _ => False) good :=
  fun notes => .inr ⟨a, notes, rfl, fun _ => id, h⟩

/-- One reading follows another: the errors are those of both, and what the second one gives may
rest on what the first one has given. -/
theorem Yields.bind {next : α → Reading β} {better : β → Prop} (h : reading.Yields faulty good)
    (hnext : ∀ a, good a → (next a).Yields other better) :
    (reading >>= next).Yields (fun error => faulty error ∨ other error) better := by
  intro notes
  rcases h notes with ⟨error, notes', hr, hfaulty⟩ | ⟨a, notes', hr, hnone, hgood⟩
  · exact .inl ⟨error, notes', bind_of_error hr, .inl hfaulty⟩
  · rw [bind_of_ok hr]
    rcases hnext a hgood notes' with
      ⟨error, last, hn, hother⟩ | ⟨b, last, hn, hnone', hbetter⟩
    · exact .inl ⟨error, last, hn, .inr hother⟩
    · exact .inr ⟨b, last, hn, fun error => not_or.mpr ⟨hnone error, hnone' error⟩, hbetter⟩

/-- The errors may be described in other words, and what is good may be called good for less. -/
theorem Yields.congr {better : α → Prop} (h : reading.Yields faulty good)
    (hf : ∀ error, faulty error ↔ other error) (hg : ∀ a, good a → better a) :
    reading.Yields other better := by
  intro notes
  rcases h notes with ⟨error, notes', hr, hfaulty⟩ | ⟨a, notes', hr, hnone, hgood⟩
  · exact .inl ⟨error, notes', hr, (hf error).mp hfaulty⟩
  · exact .inr ⟨a, notes', hr, fun error => mt (hf error).mpr (hnone error), hg a hgood⟩

/-- A reading that never fails may be said to fail with errors of which there are none. -/
theorem Yields.clean (h : reading.Yields (fun _ => False) good) (hnone : ∀ error, ¬ other error) :
    reading.Yields other good :=
  h.congr (fun error => ⟨False.elim, hnone error⟩) fun _ => id

/-- What is made of the result is good as well, and it fails no more often. -/
theorem Yields.map {f : α → β} {better : β → Prop} (h : reading.Yields faulty good)
    (hf : ∀ a, good a → better (f a)) :
    (reading >>= fun a => Pure.pure (f a)).Yields faulty better :=
  (h.bind fun a ha => Yields.pure (hf a ha)).congr (fun _ => or_iff_left id) fun _ => id

/-- Passing over a token never fails and gives no node. -/
theorem yields_skip (note : Skipped) : (skip note).Yields (fun _ => False) (· = none) :=
  fun notes => .inr ⟨none, notes.push note, rfl, fun _ => id, rfl⟩

/-- Making a container fails with what is wrong with it, and otherwise gives the container over
the children that were read. -/
theorem yields_make (container : Container) (children : List Node) :
    (make container children).Yields (fun error => container.defect? = some error)
      (fun node => container.defect? = none ∧ node = .branch container children) := by
  intro notes
  rw [make, Node.build]
  cases hdefect : container.defect? with
  | some defect => exact .inl ⟨defect, notes, rfl, rfl⟩
  | none =>
    refine .inr ⟨.branch container children, notes, rfl, ?_, rfl, rfl⟩
    intro error h
    cases h

end Reading

/-- A node that is in order where it stands: it can be made, and nothing is wrong with where it
stands or with what its fields say. -/
structure Site.Orderly (site : Site) : Prop where
  /-- It can be laid out there, if items need not show their numbers. -/
  laidOut : site.defect? .fixed = none
  /-- It can be made. -/
  made : ∀ container, site.element = .container container → container.defect? = none
  /-- There are only items in a list. -/
  item_of_list : ∀ ordered start, site.parent = some (.list ordered start) →
    site.element = .container .listItem
  /-- An item stands in a list. -/
  list_of_item : site.element = .container .listItem →
    ∃ ordered start, site.parent = some (.list ordered start)
  /-- The info string of a code block is not empty and has no blanks around it. -/
  info : ∀ content info, site.element = .leaf (.codeBlock content (some info)) →
    info ≠ "" ∧ Text.strip info = info
  /-- The title of a link or an image is not empty. -/
  title : ∀ url title, site.element = .container (.link url (some title)) ∨
    site.element = .container (.image url (some title)) → title ≠ ""

/-- A leaf that is in order by itself: its kind is known, and an info string is not empty and has
no blanks around it. -/
def Leaf.IsPlain : Leaf → Prop
  | .foreign _ => False
  | .codeBlock _ (some info) => info ≠ "" ∧ Text.strip info = info
  | _ => True

/-- A container that is in order by itself and is no item: it can be made, its kind is known, and a
title is not empty. -/
def Container.IsPlain (container : Container) : Prop :=
  container.defect? = none ∧
    match container with
    | .listItem | .foreign _ => False
    | .link _ (some title) | .image _ (some title) => title ≠ ""
    | _ => True

namespace Site

variable {parent : Option Container} {position : Nat}

/-- A leaf that is in order by itself is in order wherever it stands outside a list. -/
theorem orderly_leaf (hparent : ∀ ordered start, parent ≠ some (.list ordered start))
    {leaf : Leaf} (h : leaf.IsPlain) : Site.Orderly ⟨parent, position, .leaf leaf⟩ where
  laidOut := by
    cases leaf with
    | foreign kind => cases h
    | _ => rfl
  made _ he := by cases he
  item_of_list ordered start hp := absurd hp (hparent ordered start)
  list_of_item he := by cases he
  info content info he := by
    cases he
    exact h
  title _ _ he := by rcases he with he | he <;> cases he

/-- So is a container that is no item. -/
theorem orderly_container (hparent : ∀ ordered start, parent ≠ some (.list ordered start))
    {container : Container} (h : container.IsPlain) :
    Site.Orderly ⟨parent, position, .container container⟩ where
  laidOut := by
    obtain ⟨-, h⟩ := h
    cases container with
    | listItem | foreign kind => cases h
    | _ => rfl
  made other he := by
    cases he
    exact h.1
  item_of_list ordered start hp := absurd hp (hparent ordered start)
  list_of_item he := by
    cases he
    cases h.2
  info _ _ he := by cases he
  title url title he := by
    rcases he with he | he <;>
      cases he <;>
      exact h.2

/-- An item in a list is in order, whatever its number is. -/
theorem orderly_item (ordered : Bool) (start : Int) :
    Site.Orderly ⟨some (.list ordered start), position, .container .listItem⟩ where
  laidOut := by cases ordered <;> rfl
  made other he := by
    cases he
    rfl
  item_of_list _ _ _ := rfl
  list_of_item _ := ⟨ordered, start, rfl⟩
  info _ _ he := by cases he
  title _ _ he := by rcases he with he | he <;> cases he

/-- A number with too many digits is all that can keep a node in order from being laid out. -/
theorem Orderly.defect?_eq {site : Site} (h : site.Orderly) (markers : MarkerStyle) :
    site.defect? markers = if site.isOverlong markers then some .longNumeral else none := by
  have hfixed := h.laidOut
  obtain ⟨parent, position, element⟩ := site
  unfold Site.defect? at hfixed ⊢
  split at hfixed
  · cases hfixed
  · cases hfixed
  · rfl
  · cases hfixed
  · rename_i hitem _
    -- What is no item in a list has no number to show.
    have hshort : isOverlong markers ⟨parent, position, element⟩ = false := by
      unfold isOverlong
      split
      · rename_i he
        exact (hitem he).elim
      · rfl
    rw [hshort]
    rfl

end Site

/-- A tree all of whose nodes are in order where it stands, at whatever position of the container
around it. -/
def Node.Orderly (parent : Option Container) (node : Node) : Prop :=
  ∀ position, ∀ site ∈ node.sites parent position, site.Orderly

/-- A tree all of whose nodes are in order wherever it stands outside a list. Trees are read before
it is known where they will stand. -/
def Node.Sorted (node : Node) : Prop :=
  ∀ parent, (∀ ordered start, parent ≠ some (.list ordered start)) → node.Orderly parent

namespace Node

/-- The nodes below a container belong to the trees of its children. -/
theorem exists_of_mem_sitesOf {parent : Container} {position : Nat} {nodes : List Node}
    {site : Site} (h : site ∈ sitesOf parent position nodes) :
    ∃ node ∈ nodes, ∃ place, site ∈ node.sites (some parent) place := by
  induction nodes generalizing position with
  | nil => cases h
  | cons node rest ih =>
    rw [sitesOf] at h
    rcases List.mem_append.mp h with hfirst | hrest
    · exact ⟨node, List.mem_cons_self, position, hfirst⟩
    · obtain ⟨other, hm, hplace⟩ := ih hrest
      exact ⟨other, List.mem_cons_of_mem _ hm, hplace⟩

/-- A tree is in order when its root is, and the trees of the children are in order below it. -/
theorem orderly_branch {parent : Option Container} {container : Container} {children : List Node}
    (hc : ∀ position, Site.Orderly ⟨parent, position, .container container⟩)
    (hchildren : ∀ child ∈ children, child.Orderly (some container)) :
    (branch container children).Orderly parent := by
  intro position site hsite
  rw [sites] at hsite
  rcases List.mem_cons.mp hsite with rfl | hbelow
  · exact hc position
  · obtain ⟨child, hm, place, hin⟩ := exists_of_mem_sitesOf hbelow
    exact hchildren child hm place site hin

/-- A leaf that is in order by itself is a tree in order. -/
theorem sorted_leaf {l : Leaf} (h : l.IsPlain) : (leaf l).Sorted := by
  intro parent hparent position site hsite
  rw [sites, List.mem_singleton] at hsite
  rw [hsite]
  exact Site.orderly_leaf hparent h

/-- Trees in order are in order below a container that is neither an item nor a list. -/
theorem sorted_branch {container : Container} {children : List Node} (hc : container.IsPlain)
    (hlist : ∀ ordered start, container ≠ .list ordered start)
    (hchildren : ∀ child ∈ children, child.Sorted) : (branch container children).Sorted := by
  intro parent hparent
  refine orderly_branch (fun _ => Site.orderly_container hparent hc) fun child hm => ?_
  exact hchildren child hm _ fun ordered start => mt Option.some.inj (hlist ordered start)

/-- A list that can be made and holds nothing but items is in order when what is in the items is. -/
theorem sorted_list {ordered : Bool} {start : Int} {items : List Node}
    (hc : (Container.list ordered start).defect? = none)
    (hitems : ∀ item ∈ items, ∃ children, item = branch .listItem children ∧
      ∀ child ∈ children, child.Sorted) : (branch (.list ordered start) items).Sorted := by
  intro parent hparent
  refine orderly_branch (fun _ => Site.orderly_container hparent ⟨hc, trivial⟩) fun item hm => ?_
  obtain ⟨children, rfl, hchildren⟩ := hitems item hm
  refine orderly_branch (fun _ => Site.orderly_item ordered start) fun child hchild => ?_
  exact hchildren child hchild _ fun _ _ he => by cases he

end Node

/-- A text that is written is not empty. Empty texts are passed over as if they were not there. -/
theorem ne_empty_of_written? {text : Option String} {s : String} (h : written? text = some s) :
    s ≠ "" := by
  have hkept := (Option.filter_eq_some_iff.mp h).2
  rintro rfl
  cases hkept

/-- An info string has its blanks taken off before it is looked at, so one that is kept has none
around it and is not empty. -/
theorem Attributes.isPlain_codeBlock (raw : String) (attributes : Attributes) :
    (Leaf.codeBlock raw attributes.cleanInfo).IsPlain := by
  cases hinfo : attributes.cleanInfo with
  | none => trivial
  | some info =>
    refine ⟨ne_empty_of_written? hinfo, ?_⟩
    have hkept := (Option.filter_eq_some_iff.mp hinfo).1
    obtain ⟨text, -, rfl⟩ := Option.map_eq_some_iff.mp hkept
    exact Text.strip_strip text

/-- A link and an image keep a title only if it is written. -/
theorem isPlain_titled (url : String) (title : Option String) :
    (Container.link url (written? title)).IsPlain ∧
      (Container.image url (written? title)).IsPlain := by
  cases htitle : written? title with
  | none => exact ⟨⟨rfl, trivial⟩, rfl, trivial⟩
  | some text =>
    have hne := ne_empty_of_written? htitle
    exact ⟨⟨rfl, hne⟩, rfl, hne⟩

namespace Token

open Reading (Yields)

/-- Nodes that are all in order wherever they stand outside a list. -/
def AllSorted (nodes : List Node) : Prop :=
  ∀ node ∈ nodes, node.Sorted

/-- There may be no nodes. -/
theorem allSorted_nil : AllSorted [] :=
  fun _ hm => by cases hm

/-- A token that is passed over gives no node, so nothing is out of order. -/
theorem allSorted_of_eq_none (node : Option Node) (h : node = none) : AllSorted node.toList := by
  rw [h]
  exact allSorted_nil

/-- Nodes that are read one after the other are in order when each of them is. -/
theorem allSorted_append {nodes more : List Node} (h : AllSorted nodes) (hm : AllSorted more) :
    AllSorted (nodes ++ more) :=
  fun node hin => (List.mem_append.mp hin).elim (h node) (hm node)

/-- A token that gives one node. -/
theorem allSorted_singleton {node : Node} (h : node.Sorted) : AllSorted [node] :=
  fun _ hin => List.mem_singleton.mp hin ▸ h

/-- A token that gives a leaf. -/
theorem allSorted_leaf {l : Leaf} (h : l.IsPlain) : AllSorted (some (Node.leaf l)).toList :=
  allSorted_singleton (Node.sorted_leaf h)

/-- A token that gives a container over what was read inside it. -/
theorem allSorted_branch {container : Container} (hc : container.IsPlain)
    (hlist : ∀ ordered start, container ≠ .list ordered start) (inner : List Node)
    (h : AllSorted inner) : AllSorted (some (Node.branch container inner)).toList :=
  allSorted_singleton (Node.sorted_branch hc hlist h)

mutual

/-- Reading what stands within a line does not fail, and gives nodes in order. No number is read
from such a token, so there is nothing to check. -/
theorem toInline_yields (s : ParseSettings) (token : Token) :
    (token.toInline s).Yields (fun _ => False) (fun node => AllSorted node.toList) := by
  match token with
  | .mk kind raw attributes children =>
    have hinner := toInlines_yields s children
    cases kind with
    | text | codeSpan | lineBreak | softBreak =>
      rw [toInline]
      exact .pure (allSorted_leaf trivial)
    | inlineHtml =>
      rw [toInline]
      refine .pure ?_
      split
      · exact allSorted_leaf trivial
      · exact allSorted_nil
    | emphasis | strong =>
      rw [toInline]
      exact hinner.map (allSorted_branch ⟨rfl, trivial⟩ fun _ _ he => by cases he)
    | link =>
      rw [toInline]
      exact hinner.map (allSorted_branch (isPlain_titled _ _).1 fun _ _ he => by cases he)
    | image =>
      rw [toInline]
      exact hinner.map (allSorted_branch (isPlain_titled _ _).2 fun _ _ he => by cases he)
    | _ => exact (Reading.yields_skip _).congr (fun _ => Iff.rfl) allSorted_of_eq_none

/-- The same for the tokens within a line, one after the other. -/
theorem toInlines_yields (s : ParseSettings) (tokens : List Token) :
    (toInlines s tokens).Yields (fun _ => False) AllSorted := by
  match tokens with
  | [] =>
    rw [toInlines]
    exact .pure allSorted_nil
  | token :: rest =>
    rw [toInlines]
    refine ((toInline_yields s token).bind fun node hnode =>
      (toInlines_yields s rest).map fun nodes hnodes =>
        allSorted_append hnode hnodes).congr ?_ ?_
    · simp
    · exact fun _ => id

end

/-- What is wrong with a heading by itself is what is wrong with the container that is made of
it. -/
theorem fault?_heading (raw : String) (attributes : Attributes) (children : List Token) :
    (Token.mk .heading raw attributes children).fault? =
      (Container.heading (attributes.level.getD 1)).defect? := rfl

/-- So it is with a list. One without numbers starts at one, whatever its token says. -/
theorem fault?_list (raw : String) (attributes : Attributes) (children : List Token) :
    (Token.mk .list raw attributes children).fault? = attributes.toList.defect? := by
  rw [fault?, Attributes.toList, Container.defect?]
  cases attributes.ordered with
  | false => rfl
  | true => cases attributes.start <;> rfl

/-- Nothing is wrong with a token by itself unless it is a heading or a list. -/
theorem fault?_eq_none {kind : TokenKind} (hh : kind ≠ .heading) (hl : kind ≠ .list) (raw : String)
    (attributes : Attributes) (children : List Token) :
    (Token.mk kind raw attributes children).fault? = none := by
  cases kind with
  | heading => exact absurd rfl hh
  | list => exact absurd rfl hl
  | _ => rfl

/-- Nothing is wrong with a token that is no heading, no list and no quotation, whatever is inside
it. -/
theorem not_faulty_singleton {kind : TokenKind} (hh : kind ≠ .heading) (hl : kind ≠ .list)
    (hq : kind ≠ .blockQuote) {raw : String} {attributes : Attributes} {children : List Token}
    (error : BuildError) : ¬ Faulty [.mk kind raw attributes children] error := by
  rw [faulty_singleton, fault?_eq_none hh hl]
  rintro (⟨h, _⟩ | ⟨h, _⟩ | h)
  · exact hq h
  · exact hl h
  · cases h

mutual

/-- Reading a block fails when something is wrong with a token that is reached in it, and only
then. Otherwise it gives a node in order, or none. -/
theorem toBlock_yields (s : ParseSettings) (token : Token) :
    (token.toBlock s).Yields (Faulty [token]) (fun node => AllSorted node.toList) := by
  match token with
  | .mk kind raw attributes children =>
    have hinner := toInlines_yields s children
    cases kind with
    | heading =>
      rw [toBlock]
      refine (hinner.bind fun inner hin => (Reading.yields_make _ inner).map fun node hnode =>
        ?_).congr (fun error => ?_) fun _ => id
      · rw [hnode.2]
        exact allSorted_branch ⟨hnode.1, trivial⟩ (fun _ _ he => by cases he) inner hin
      · rw [faulty_singleton, fault?_heading]
        simp
    | list =>
      rw [toBlock]
      refine ((toItems_yields s children).bind fun items hitems =>
        (Reading.yields_make _ items).map fun node hnode => ?_).congr
          (fun error => ?_) fun _ => id
      · rw [hnode.2]
        exact allSorted_singleton (Node.sorted_list hnode.1 hitems)
      · rw [faulty_singleton, fault?_list]
        simp
    | blockQuote =>
      rw [toBlock]
      refine Reading.Yields.congr ((toBlocks_yields s children).map fun inner hin => ?_)
        (fun error => ?_) fun _ => id
      · exact allSorted_branch ⟨rfl, trivial⟩ (fun _ _ he => by cases he) inner hin
      · rw [faulty_singleton, fault?_eq_none (by decide) (by decide)]
        simp
    | paragraph | blockText =>
      rw [toBlock]
      refine .clean ?_ (not_faulty_singleton (by decide) (by decide) (by decide))
      exact hinner.map (allSorted_branch ⟨rfl, trivial⟩ fun _ _ he => by cases he)
    | blockCode =>
      rw [toBlock]
      refine .clean ?_ (not_faulty_singleton (by decide) (by decide) (by decide))
      exact .pure (allSorted_leaf (attributes.isPlain_codeBlock raw))
    | thematicBreak =>
      rw [toBlock]
      refine .clean ?_ (not_faulty_singleton (by decide) (by decide) (by decide))
      exact .pure (allSorted_leaf trivial)
    | blockHtml =>
      rw [toBlock]
      refine .clean (.pure ?_) (not_faulty_singleton (by decide) (by decide) (by decide))
      split
      · exact allSorted_leaf trivial
      · exact allSorted_nil
    | blankLine =>
      rw [toBlock]
      refine .clean ?_ (not_faulty_singleton (by decide) (by decide) (by decide))
      exact .pure allSorted_nil
    | _ =>
      refine .clean ?_ (not_faulty_singleton (fun he => by cases he) (fun he => by cases he)
        (fun he => by cases he))
      exact (Reading.yields_skip _).congr (fun _ => Iff.rfl) allSorted_of_eq_none

/-- The same for blocks, one after the other. The first one that fails ends the reading. -/
theorem toBlocks_yields (s : ParseSettings) (tokens : List Token) :
    (toBlocks s tokens).Yields (Faulty tokens) AllSorted := by
  match tokens with
  | [] =>
    rw [toBlocks]
    exact (Reading.Yields.pure allSorted_nil).clean not_faulty_nil
  | token :: rest =>
    rw [toBlocks]
    exact ((toBlock_yields s token).bind fun node hnode =>
      (toBlocks_yields s rest).map fun nodes hnodes =>
        allSorted_append hnode hnodes).congr (fun _ => faulty_cons.symm) fun _ => id

/-- The same for the items of a list, where what is no item is passed over. -/
theorem toItems_yields (s : ParseSettings) (items : List Token) :
    (toItems s items).Yields (FaultyItem items) (fun nodes => ∀ item ∈ nodes,
      ∃ children, item = .branch .listItem children ∧ AllSorted children) := by
  match items with
  | [] =>
    rw [toItems]
    refine (Reading.Yields.pure fun _ hm => by cases hm).clean ?_
    rintro error ⟨_, _, _, hm, _⟩
    cases hm
  | .mk kind raw attributes children :: rest =>
    by_cases hkind : kind = .listItem
    · subst hkind
      rw [toItems]
      refine ((toBlocks_yields s children).bind fun inner hin =>
        (toItems_yields s rest).map fun nodes hnodes => ?_).congr
          (fun error => ?_) fun _ => id
      · intro item hm
        rcases List.mem_cons.mp hm with rfl | hm
        · exact ⟨inner, rfl, hin⟩
        · exact hnodes item hm
      · exact faultyItem_cons.symm
    · rw [toItems]
      · refine (toItems_yields s rest).congr (fun error => ?_) fun _ => id
        exact (faultyItem_cons_of_ne hkind).symm
      · intro _ _ _ he
        exact hkind (Token.mk.inj he).1

end

end Token

/-- What is read from tokens is a document in order, unless something is wrong with a token that is
reached. -/
theorem Node.ofTokens_yields (s : ParseSettings) (tokens : List Token) :
    (Node.ofTokens s tokens).Yields (Token.Faulty tokens)
      (fun root => ∃ blocks, root = .branch .document blocks ∧ root.Orderly none) := by
  rw [Node.ofTokens]
  refine (Token.toBlocks_yields s tokens).map fun blocks hblocks => ⟨blocks, rfl, ?_⟩
  exact Node.sorted_branch ⟨rfl, trivial⟩ (fun _ _ he => by cases he) hblocks none
    fun _ _ he => by cases he

/-- A tree in order has no draft when it has an item whose number cannot be written. Whatever else
stands before the item, this is the first error. -/
theorem Node.Orderly.draft_eq_error {root : Node} (h : root.Orderly none)
    {settings : RenderSettings}
    (hlong : ∃ site ∈ root.sites none 0, site.isOverlong settings.markers) :
    root.draft settings = .error .longNumeral := by
  obtain ⟨site, hm, hlong⟩ := hlong
  have hdefect : root.defect? settings.markers = some .longNumeral := by
    cases hfirst : root.defect? settings.markers with
    | none =>
      have hnone := List.findSome?_eq_none_iff.mp hfirst site hm
      rw [(h 0 site hm).defect?_eq, if_pos hlong] at hnone
      cases hnone
    | some error =>
      obtain ⟨first, hin, herror⟩ := List.exists_of_findSome?_eq_some hfirst
      rw [(h 0 first hin).defect?_eq] at herror
      split at herror
      · exact herror.symm
      · cases herror
  have hsettles := Node.settles_draft settings root
  rw [hdefect] at hsettles
  exact hsettles

/-- A tree in order can be laid out unless it has an item whose number cannot be written, and then
that is the error. -/
theorem Node.Orderly.render {root : Node} (h : root.Orderly none) (settings : RenderSettings) :
    ((∃ site ∈ root.sites none 0, site.isOverlong settings.markers) →
      root.render settings = .error .longNumeral) ∧
    ((∀ site ∈ root.sites none 0, site.isOverlong settings.markers = false) →
      ∃ text, root.render settings = .ok text) := by
  refine ⟨fun hlong => ?_, fun hshort => ?_⟩
  · rw [Node.render_eq, h.draft_eq_error hlong]
    rfl
  · have hdefect : root.defect? settings.markers = none := by
      refine List.findSome?_eq_none_iff.mpr fun site hm => ?_
      rw [(h 0 site hm).defect?_eq, hshort site hm]
      rfl
    have hsettles := Node.settles_draft settings root
    rw [hdefect] at hsettles
    obtain ⟨d, hdraft, hs⟩ := hsettles
    exact ⟨String.ofList d.text,
      Node.render_eq_ok_iff.mpr ⟨d, hdraft, hs, String.toList_ofList.symm⟩⟩

/-- With a tokenizer at hand and a source that can be read, all depends on the tokens. The text is
kept in the record of what has been given to the tokenizer. -/
theorem parseSource_eq {host : Host} {settings : ParseSettings} {source : Source} {s : Session}
    {text : String} {tokens : List Token}
    (hdemand : host.demandTokenizer = .ok ())
    (hread : source.read s.disk = .ok text) (htokens : host.tokenizer text = .list tokens) :
    parseSource host settings source s = readTokens host settings tokens
      (Session.finished host parseLogger "Parsing (markdown)"
        { s with tokenized := s.tokenized ++ [text] }) := by
  have hget : (host.tokenizer text).get = .ok tokens := by
    rw [htokens]
    rfl
  unfold parseSource
  rw [hdemand]
  have hsource : Run.ofExcept (source.read s.disk) s = .ok text s := by
    rw [hread]
    rfl
  have hlist (s' : Session) : Run.ofExcept (host.tokenizer text).get s' = .ok tokens s' := by
    rw [hget]
    rfl
  refine (bind_of_ok hsource).trans ?_
  exact bind_of_ok (hlist _)

/-- Reading a document from tokens fails over the level of a heading outside one to six, or over the
first number of a numbered list below zero, and only if a token with it is reached. Otherwise it
gives a document in good order: there are items in lists and nowhere else, info strings and titles
are not empty, and, put down node by node, every node names the node that holds it as its parent.
Such a document can be laid out with any settings, unless an item has to show a number with too many
digits to be written; then that is the error. -/
theorem parse_orderly {host : Host} {settings : ParseSettings} {source : Source} {s : Session}
    {text : String} {tokens : List Token}
    (hdemand : host.demandTokenizer = .ok ())
    (hread : source.read s.disk = .ok text) (htokens : host.tokenizer text = .list tokens) :
    (∃ error s', parseSource host settings source s = .error (.build error) s' ∧
      ∃ token, Token.Reached token tokens ∧ token.fault? = some error) ∨
    ∃ blocks s', parseSource host settings source s = .ok (.branch .document blocks) s' ∧
      (∀ token, Token.Reached token tokens → token.fault? = none) ∧
      (∀ site ∈ (Node.branch .document blocks).sites none 0, site.Orderly) ∧
      (∃ id f, (Node.branch .document blocks).plant {} = .ok (id, f) ∧
        f.tree? id = some (.branch .document blocks) ∧ f.parent? id = none ∧
        ∀ holder, ∀ child ∈ f.children holder, f.parent? child = some holder) ∧
      ∀ render : RenderSettings,
        ((∃ site ∈ (Node.branch .document blocks).sites none 0,
            site.isOverlong render.markers) →
          (Node.branch .document blocks).render render = .error .longNumeral) ∧
        ((∀ site ∈ (Node.branch .document blocks).sites none 0,
            site.isOverlong render.markers = false) →
          ∃ rendered, (Node.branch .document blocks).render render = .ok rendered) := by
  rw [parseSource_eq hdemand hread htokens, readTokens]
  rcases Node.ofTokens_yields settings tokens #[] with
    ⟨error, notes, hr, hfaulty⟩ | ⟨root, notes, hr, hnone, blocks, rfl, horderly⟩
  · rw [hr]
    exact .inl ⟨error, _, rfl, hfaulty⟩
  · rw [hr]
    refine .inr ⟨blocks, _, rfl, fun token hreached => ?_, horderly 0, ?_, horderly.render⟩
    · cases hfault : token.fault? with
      | none => rfl
      | some error => exact absurd ⟨token, hreached, hfault⟩ (hnone error)
    · exact Node.exists_plant_empty fun site hm => (horderly 0 site hm).made

/-- A numbered list without a first number, with an item and a token that is none, a heading in a
quotation, a link with an empty title, and an info string that is nothing but blanks. -/
theorem parse_orderly_nested :
    ∃ (host : Host) (tokens : List Token),
      tokens = [.mk .list "" { ordered := true } [.mk .listItem "" {} [.mk .blockText "" {}
          [.mk .text "a" {} [], .mk .link "" { url := some "u", title := some "" } []]],
          .mk (.other "task") "" {} []],
        .mk .blockQuote "" {} [.mk .heading "" { level := some 6 } [.mk .softBreak "" {} []]],
        .mk .blockCode "b" { info := some " " } []] ∧
      host.demandTokenizer = .ok () ∧
      (Source.textStream "a").read {} = .ok "a" ∧ host.tokenizer "a" = .list tokens ∧
      ((∃ error s', parseSource host {} (.textStream "a") {} = .error (.build error) s' ∧
        ∃ token, Token.Reached token tokens ∧ token.fault? = some error) ∨
      ∃ blocks s', parseSource host {} (.textStream "a") {} = .ok (.branch .document blocks) s' ∧
        (∀ token, Token.Reached token tokens → token.fault? = none) ∧
        (∀ site ∈ (Node.branch .document blocks).sites none 0, site.Orderly) ∧
        (∃ id f, (Node.branch .document blocks).plant {} = .ok (id, f) ∧
          f.tree? id = some (.branch .document blocks) ∧ f.parent? id = none ∧
          ∀ holder, ∀ child ∈ f.children holder, f.parent? child = some holder) ∧
        ∀ render : RenderSettings,
          ((∃ site ∈ (Node.branch .document blocks).sites none 0,
              site.isOverlong render.markers) →
            (Node.branch .document blocks).render render = .error .longNumeral) ∧
          ((∀ site ∈ (Node.branch .document blocks).sites none 0,
              site.isOverlong render.markers = false) →
            ∃ rendered, (Node.branch .document blocks).render render = .ok rendered)) := by
  refine ⟨
    { tokenizer := fun _ => .list _
      inventory := ⟨[("mistune", "3.4.0")], ["mistune"]⟩
      accepts := fun _ _ => true }, _, rfl, rfl, rfl, rfl, ?_⟩
  exact parse_orderly rfl rfl rfl

end MarkdownLayout
