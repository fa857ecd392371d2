import Mathlib.Data.List.Lattice
import Mathlib.Data.List.Nodup
import Mathlib.Data.List.Pairwise
import Mathlib.Data.List.Perm.Subperm
import MarkdownLayout.Proofs.Planting
import MarkdownLayout.Proofs.Walk
import MarkdownLayout.Render.Basic

/-!
# Parents, siblings and numbers

A node names its parent, and its parent lists it among the children: the same fact is kept twice.
Siblings are looked up by way of the parent, and the number of an item by going back over siblings
one by one, each of them looked up anew. `Kinship` says that all these answers agree, with each
other and with what a layout of the tree writes.

A forest arises by making nodes and by putting nodes under others. Two things can go wrong on the
way. A node may become a child more than once, which also happens when nodes are made over one list
and a child is put under one of them; and a node may be told a parent that never takes it. The main
statement is `raised_kinship_iff`: the answers agree exactly when neither has happened. Nodes are
told apart by their numbers in the forest, so equal siblings are no exception.

Nothing is asked about what stands below what. A node that is put below itself has no tree, but its
siblings and its number are what they would be anywhere else.
-/

namespace MarkdownLayout

open Writer (literal)

/-- A layout that shows a number. -/
structure ItemLayout.Numbers (item : ItemLayout) (number : Nat) : Prop where
  /-- The mark is the number, a dot, and blanks. -/
  mark : ∃ gap, 1 ≤ gap ∧
    item.marker.toList = Nat.toDigits 10 number ++ '.' :: List.replicate gap ' '
  /-- The mark takes four columns at least. -/
  wide : 4 ≤ item.marker.length
  /-- The margin is blank and as wide as the mark. -/
  margin : item.margin.toList = List.replicate item.marker.length ' '

/-- The layout of an item with a numeral shows the number that the numeral stands for. -/
theorem ItemLayout.numbers_ofNumeral (number : Nat) :
    (ItemLayout.ofNumeral (toString (number : Int))).Numbers number := by
  have hnumeral : (toString (number : Int)).toList = Nat.toDigits 10 number := Nat.toList_repr
  have hlength : (toString (number : Int) ++ ".").length =
      (Nat.toDigits 10 number).length + 1 := by
    rw [String.length_append, ← String.length_toList, hnumeral]
    rfl
  have hmark : (ItemLayout.ofNumeral (toString (number : Int))).marker.toList =
      Nat.toDigits 10 number ++ '.' :: List.replicate
        (max 4 ((Nat.toDigits 10 number).length + 1 + 1) -
          ((Nat.toDigits 10 number).length + 1)) ' ' := by
    simp only [ItemLayout.ofNumeral, hlength, String.toList_append, hnumeral, blanks,
      String.toList_ofList, List.append_assoc]
    rfl
  have hwidth : (ItemLayout.ofNumeral (toString (number : Int))).marker.length =
      max 4 ((Nat.toDigits 10 number).length + 1 + 1) := by
    rw [← String.length_toList, hmark, List.length_append, List.length_cons, List.length_replicate]
    omega
  refine ⟨⟨_, ?_, hmark⟩, ?_, ?_⟩
  · omega
  · omega
  · rw [hwidth]
    simp only [ItemLayout.ofNumeral, hlength, blanks, String.toList_ofList]

/-- What the two visits of an item write when it has to show a number. The mark is written as it is
and the margin put down until the item is left, unless the number has too many digits. -/
def WritesNumber (settings : RenderSettings) (entered left : Visit) (number : Nat) : Prop :=
  if (Nat.toDigits 10 number).length ≤ Text.maxDigits then
    ∃ item : ItemLayout, item.Numbers number ∧
      entered.write settings = (do
        literal item.marker
        modify (Writer.pushMargin item.margin)) ∧
      left.write settings = (do
        let _ ← Writer.popMargin (some item.margin)
        modify Writer.oweLineEnd)
  else entered.write settings = throw .longNumeral ∧ left.write settings = throw .longNumeral

/-- An item that is visited in the slot of a number writes the number. -/
theorem writesNumber_listItem {settings : RenderSettings} (h : settings.markers = .sequential)
    (number : Nat) :
    WritesNumber settings ⟨.enter, .container .listItem, .numbered number⟩
      ⟨.exit, .container .listItem, .numbered number⟩ number := by
  have hdigits : (toString (number : Int).natAbs).length = (Nat.toDigits 10 number).length := by
    rw [← String.length_toList]
    exact congrArg List.length Nat.toList_repr
  rw [WritesNumber]
  split
  · rename_i hle
    have hnumeral : Text.numeral? number = some (toString (number : Int)) :=
      Text.numeral?_eq_some_iff.mpr ⟨hdigits ▸ hle, rfl⟩
    refine ⟨_, ItemLayout.numbers_ofNumeral number, ?_, ?_⟩
    · simp only [Visit.write, Container.enter, Slot.layout, h, hnumeral]
    · simp only [Visit.write, Container.leave, Slot.layout, h, hnumeral]
  · rename_i hlong
    have hnumeral : Text.numeral? number = none :=
      Text.numeral?_eq_none_iff.mpr (hdigits ▸ Nat.lt_of_not_le hlong)
    constructor
    · simp only [Visit.write, Container.enter, Slot.layout, h, hnumeral]
    · simp only [Visit.write, Container.leave, Slot.layout, h, hnumeral]

namespace Forest

variable {f g : Forest} {id p : NodeId} {i : Nat}

/-- Going back from a node over its siblings ends after some steps. -/
inductive BackSteps (f : Forest) : NodeId → Nat → Prop
  /-- There is no sibling before the node. -/
  | first {id : NodeId} : f.previous? id = none → BackSteps f id 0
  /-- There is one more step than from the sibling before the node. -/
  | back {id sibling : NodeId} {steps : Nat} : f.previous? id = some sibling →
    BackSteps f sibling steps → BackSteps f id (steps + 1)

/-- The siblings before a node are counted rightly by every bound that is not too low. -/
theorem BackSteps.countBefore_eq {steps bound : Nat} (h : f.BackSteps id steps)
    (hle : steps ≤ bound) : f.countBefore bound id = steps := by
  induction h generalizing bound with
  | first hnone =>
    cases bound with
    | zero => rfl
    | succ bound => rw [countBefore, hnone]
  | back hsome _ ih =>
    obtain ⟨bound, rfl⟩ := Nat.exists_eq_succ_of_ne_zero (by omega : bound ≠ 0)
    rw [countBefore, hsome]
    exact congrArg (· + 1) (ih (by omega))

/-- Parents, siblings and numbers are those that the lists of children give, and a layout of the
forest writes what a layout of its trees does. -/
structure Kinship (f : Forest) : Prop where
  /-- A node names another as its parent exactly when it is once among its children. -/
  parent_iff : ∀ id p, f.parent? id = some p ↔ (f.children p).count id = 1
  /-- No node is more than once among the children of another. -/
  once : ∀ p, (f.children p).Nodup
  /-- The sibling before the child at a position is the child at the position before. -/
  previous_eq : ∀ (p : NodeId) (i : Nat) (id : NodeId), (f.children p)[i]? = some id →
    f.previous? id = if i = 0 then none else (f.children p)[i - 1]?
  /-- The sibling after the child at a position is the child at the position after. -/
  next_eq : ∀ (p : NodeId) (i : Nat) (id : NodeId), (f.children p)[i]? = some id →
    f.next? id = (f.children p)[i + 1]?
  /-- A node without a parent has no siblings, and stands in no list. -/
  orphan : ∀ id, f.parent? id = none →
    f.previous? id = none ∧ f.next? id = none ∧ f.slot id = .stray
  /-- The sibling after a node is one that has the node before it, and the other way round. -/
  undo : ∀ a b, f.next? a = some b ↔ f.previous? b = some a
  /-- Counting the siblings before the child at a position of a list ends, and gives its number. -/
  ordinal : ∀ (p : NodeId) (ordered : Bool) (start : Int) (i : Nat) (id : NodeId),
    f.element? p = some (.container (.list ordered start)) → (f.children p)[i]? = some id →
    f.BackSteps id i ∧ f.ordinal? id = some (start + i)
  /-- A cursor below a node comes to the visits from which the tree there is laid out, with every
  item in its slot. -/
  visits : ∀ id root, f.tree? id = some root → ∃ events : List (Event × NodeId),
    (∀ steps, (cursor id).take f.children? steps = events.take steps) ∧
      f.visits? id = some (events.map f.visitOf) ∧
      events.map f.visitOf = root.visitsIn (f.slot id)
  /-- The item at a position of a numbered list writes its number, when numbers are shown. -/
  marks : ∀ (p : NodeId) (start : Int) (i : Nat) (id : NodeId) (settings : RenderSettings),
    f.element? p = some (.container (.list true start)) → (f.children p)[i]? = some id →
    f.element? id = some (.container .listItem) → settings.markers = .sequential →
    ∃ number : Nat, (number : Int) = start + i ∧
      WritesNumber settings (f.visitOf (.enter, id)) (f.visitOf (.exit, id)) number

/-- Parents and children agree, and every node has passed its check. -/
structure Agrees (f : Forest) : Prop where
  /-- A node names another as its parent exactly when it is among its children. -/
  parent_iff : ∀ id p, f.parent? id = some p ↔ id ∈ f.children p
  /-- No node is more than once among the children of another. -/
  nodup : ∀ p, (f.children p).Nodup
  /-- Nothing is wrong with any node. -/
  checked : ∀ id element, f.element? id = some element → element.defect? = none

theorem place?_of_orphan (h : f.parent? id = none) : f.place? id = none := by
  rw [place?, h]
  rfl

theorem previous?_of_orphan (h : f.parent? id = none) : f.previous? id = none := by
  rw [previous?, place?_of_orphan h]

theorem next?_of_orphan (h : f.parent? id = none) : f.next? id = none := by
  rw [next?, place?_of_orphan h]

theorem slot_of_orphan (h : f.parent? id = none) : f.slot id = .stray := by
  rw [slot, parentList?, h]
  rfl

/-- The list of a node is looked up by the parent that the node names. -/
theorem parentList?_of_parent? {entry : Entry} (h : f.parent? id = some p)
    (hp : f.get? p = some entry) :
    f.parentList? id = match entry.element with
      | .container (.list ordered start) => some (p, ordered, start)
      | _ => none := by
  rw [parentList?, h]
  simp only [Option.bind_eq_bind, Option.bind_some, hp]
  rfl

namespace Agrees

/-- The child at a position finds itself there. -/
theorem place?_eq (h : f.Agrees) (hid : (f.children p)[i]? = some id) :
    f.place? id = some (f.children p, i) := by
  have hparent := (h.parent_iff id p).mpr (List.mem_of_getElem? hid)
  have hfirst : (f.children p).idxOf? id = some i := by
    obtain ⟨hlt, hi⟩ := List.getElem?_eq_some_iff.mp hid
    refine List.idxOf?_eq_some_iff.mpr ⟨hlt, hi, fun j hj hsame => ?_⟩
    exact Nat.ne_of_lt hj ((h.nodup p).getElem_inj_iff.mp (hsame.trans hi.symm))
  rw [place?, hparent]
  simp only [Option.bind_eq_bind, Option.bind_some, hfirst]
  rfl

theorem previous?_eq (h : f.Agrees) (hid : (f.children p)[i]? = some id) :
    f.previous? id = if i = 0 then none else (f.children p)[i - 1]? := by
  rw [previous?, h.place?_eq hid]
  cases i <;> rfl

theorem next?_eq (h : f.Agrees) (hid : (f.children p)[i]? = some id) :
    f.next? id = (f.children p)[i + 1]? := by
  rw [next?, h.place?_eq hid]

/-- A node has no parent, or it stands somewhere among the children of one. -/
theorem orphan_or_exists_position (h : f.Agrees) (id : NodeId) :
    f.parent? id = none ∨ ∃ (p : NodeId) (i : Nat), (f.children p)[i]? = some id := by
  cases hp : f.parent? id with
  | none => exact .inl rfl
  | some p => exact .inr ⟨p, List.mem_iff_getElem?.mp ((h.parent_iff id p).mp hp)⟩

/-- A node that has another before it stands right behind it. -/
theorem previous?_eq_some_iff (h : f.Agrees) {a b : NodeId} :
    f.previous? b = some a ↔
      ∃ (p : NodeId) (i : Nat), (f.children p)[i]? = some a ∧ (f.children p)[i + 1]? = some b := by
  constructor
  · intro hb
    obtain hp | ⟨p, i, hi⟩ := h.orphan_or_exists_position b
    · rw [previous?_of_orphan hp] at hb
      cases hb
    · rw [h.previous?_eq hi] at hb
      cases i with
      | zero => cases hb
      | succ i => exact ⟨p, i, hb, hi⟩
  · rintro ⟨p, i, ha, hb⟩
    rw [h.previous?_eq hb, if_neg (Nat.succ_ne_zero i)]
    exact ha

/-- A node that has another after it stands right before it. -/
theorem next?_eq_some_iff (h : f.Agrees) {a b : NodeId} :
    f.next? a = some b ↔
      ∃ (p : NodeId) (i : Nat), (f.children p)[i]? = some a ∧ (f.children p)[i + 1]? = some b := by
  constructor
  · intro ha
    obtain hp | ⟨p, i, hi⟩ := h.orphan_or_exists_position a
    · rw [next?_of_orphan hp] at ha
      cases ha
    · rw [h.next?_eq hi] at ha
      exact ⟨p, i, hi, ha⟩
  · rintro ⟨p, i, ha, hb⟩
    rw [h.next?_eq ha, hb]

/-- The walk back from the child at a position takes a step for each child before it. -/
theorem backSteps (h : f.Agrees) (hid : (f.children p)[i]? = some id) : f.BackSteps id i := by
  induction i generalizing id with
  | zero => exact .first (by rw [h.previous?_eq hid, if_pos rfl])
  | succ i ih =>
    have hlt : i < (f.children p).length :=
      Nat.lt_of_succ_lt (List.getElem?_eq_some_iff.mp hid).1
    have hbefore : (f.children p)[i]? = some (f.children p)[i] := List.getElem?_eq_getElem hlt
    refine .back ?_ (ih hbefore)
    rw [h.previous?_eq hid, if_neg (Nat.succ_ne_zero i)]
    exact hbefore

/-- A node has no more children than there are nodes. -/
theorem length_children_le (h : f.Agrees) (p : NodeId) :
    (f.children p).length ≤ f.entries.size := by
  have hsub : f.children p ⊆ List.range f.entries.size := by
    intro id hid
    exact List.mem_range.mpr (lt_of_parent? ((h.parent_iff id p).mpr hid))
  have hle := ((h.nodup p).subperm hsub).length_le
  rwa [List.length_range] at hle

/-- The bound of the count is never too low. -/
theorem countBefore_eq (h : f.Agrees) (hid : (f.children p)[i]? = some id) :
    f.countBefore f.entries.size id = i := by
  have hlt := (List.getElem?_eq_some_iff.mp hid).1
  exact (h.backSteps hid).countBefore_eq
    (Nat.le_trans (Nat.le_of_lt hlt) (h.length_children_le p))

/-- A child of a list has the list as its own. -/
theorem parentList?_eq (h : f.Agrees) {ordered : Bool} {start : Int}
    (hp : f.element? p = some (.container (.list ordered start)))
    (hid : (f.children p)[i]? = some id) : f.parentList? id = some (p, ordered, start) := by
  obtain ⟨entry, hget, helement⟩ := Option.map_eq_some_iff.mp hp
  have hparent := (h.parent_iff id p).mpr (List.mem_of_getElem? hid)
  rw [parentList?_of_parent? hparent hget, helement]

/-- The slot that a node finds by its parent and its siblings is the one that its position below a
container gives. -/
theorem slot_eq (h : f.Agrees) {container : Container}
    (hp : f.element? p = some (.container container)) (hid : (f.children p)[i]? = some id) :
    f.slot id = container.slot i := by
  obtain ⟨entry, hget, helement⟩ := Option.map_eq_some_iff.mp hp
  have hparent := (h.parent_iff id p).mpr (List.mem_of_getElem? hid)
  rw [slot, parentList?_of_parent? hparent hget, helement]
  cases container with
  | list ordered start =>
    cases ordered with
    | false => rfl
    | true => rw [h.countBefore_eq hid, Container.slot]
  | _ => rfl

/-- A list starts at zero or above. -/
theorem start_nonneg (h : f.Agrees) {ordered : Bool} {start : Int}
    (hp : f.element? p = some (.container (.list ordered start))) : 0 ≤ start := by
  have hcheck := h.checked p _ hp
  rw [Element.defect?, Container.defect?] at hcheck
  split at hcheck
  · cases hcheck
  · omega

end Agrees

/-- The visits of children are collected one after the other. Each child has to stand in the slot
of its position. -/
theorem exists_visits_under {answer : NodeId → Option (List Visit)} (container : Container)
    {children : List NodeId} {trees : List Node}
    (h : List.Forall₂ (fun child tree => answer child = some (tree.visitsIn (f.slot child)))
      children trees) {position : Nat}
    (hslots : ∀ (i : Nat) (child : NodeId), children[i]? = some child →
      f.slot child = container.slot (position + i)) :
    ∃ inner, collect answer children = some inner ∧
      inner.flatten = Node.visitsUnder container position trees := by
  induction h generalizing position with
  | nil => exact ⟨[], rfl, rfl⟩
  | @cons child tree children trees hfirst _ ih =>
    obtain ⟨inner, hinner, hflatten⟩ := @ih (position + 1) fun i other hother => by
      rw [hslots (i + 1) other hother, Nat.add_assoc, Nat.add_comm 1]
    refine ⟨tree.visitsIn (f.slot child) :: inner, ?_, ?_⟩
    · rw [collect, hfirst, hinner]
    · rw [List.flatten_cons, hflatten, Node.visitsUnder, hslots 0 child rfl, Nat.add_zero]

namespace Agrees

/-- A layout of the forest visits what a layout of the tree visits. The induction is on the bound,
since a tree in a forest has no other measure. -/
theorem visitsWithin_eq (h : f.Agrees) {bound : Nat} {root : Node}
    (ht : f.treeWithin bound id = some root) :
    f.visitsWithin bound id = some (root.visitsIn (f.slot id)) := by
  induction bound generalizing id root with
  | zero => cases ht
  | succ bound ih =>
    rw [treeWithin] at ht
    rw [visitsWithin]
    cases hget : f.get? id with
    | none =>
      rw [hget] at ht
      cases ht
    | some entry =>
      rw [hget] at ht
      dsimp only at ht ⊢
      cases hel : entry.element with
      | leaf leaf =>
        rw [hel] at ht
        cases ht
        rfl
      | container container =>
        rw [hel] at ht
        obtain ⟨trees, htrees, rfl⟩ := Option.map_eq_some_iff.mp ht
        have hel? : f.element? id = some (.container container) := by
          rw [element?, hget, Option.map_some, hel]
        have hchildren : f.children id = f.members entry.row := by
          rw [children, children?_of_container hget hel, Option.getD_some]
        have hall := (forall₂_of_collect htrees).imp fun child tree hchild => ih hchild
        obtain ⟨inner, hinner, hflatten⟩ := exists_visits_under container hall
          fun i child hchild => by
            rw [Nat.zero_add]
            exact h.slot_eq hel? (hchildren ▸ hchild)
        dsimp only
        rw [hinner, Option.map_some, hflatten, Node.visitsIn]

/-- All answers agree where parents and children do. -/
theorem kinship (h : f.Agrees) : f.Kinship where
  parent_iff id p := by
    rw [h.parent_iff, (h.nodup p).count]
    split <;> simp_all
  once := h.nodup
  previous_eq _ _ _ hid := h.previous?_eq hid
  next_eq _ _ _ hid := h.next?_eq hid
  orphan _ hnone := ⟨previous?_of_orphan hnone, next?_of_orphan hnone, slot_of_orphan hnone⟩
  undo _ _ := h.next?_eq_some_iff.trans h.previous?_eq_some_iff.symm
  ordinal p ordered start i id hp hid := by
    refine ⟨h.backSteps hid, ?_⟩
    rw [ordinal?, h.parentList?_eq hp hid, Option.map_some, h.countBefore_eq hid]
  visits id root ht := by
    obtain ⟨events, -, hvisits, hahead⟩ := exists_events_ahead ht
    refine ⟨events, hahead.take_eq, hvisits, Option.some.inj ?_⟩
    rw [← hvisits]
    exact h.visitsWithin_eq ht
  marks p start i id settings hp hid hitem hmarkers := by
    obtain ⟨first, rfl⟩ := Int.eq_ofNat_of_zero_le (h.start_nonneg hp)
    have hslot : f.slot id = .numbered (first + i : Nat) := by
      rw [h.slot_eq hp hid, Container.slot, Int.natCast_add]
    refine ⟨first + i, Int.natCast_add first i, ?_⟩
    rw [visitOf, visitOf, hitem, hslot]
    exact writesNumber_listItem hmarkers (first + i)

end Agrees

/-- The nodes that have the list of children of a node, the node itself among them. -/
def sharers (f : Forest) (id : NodeId) : List NodeId :=
  (List.range f.entries.size).filter fun other => f.row? other = f.row? id

/-- A forest that arises from nothing, together with the nodes that have become children on the way,
as often as they have, and those that have been told a parent when they were made. -/
inductive Raised : List NodeId → List NodeId → Forest → Prop
  /-- There are no nodes. -/
  | empty : Raised [] [] {}
  /-- A list of nodes is made, for nodes to be made over it. -/
  | hold {held named : List NodeId} {f : Forest} {children : List NodeId} :
    Raised held named f → (∀ child ∈ children, child < f.entries.size) →
    Raised held named (f.hold children).2
  /-- A node is made over a list, whoever else has it. What is in the list becomes a child. -/
  | make {held named : List NodeId} {f g : Forest} {element : Element} {row : RowId}
    {parent : Option NodeId} {id : NodeId} :
    Raised held named f → (element.isContainer → row < f.rows.size) →
    (∀ p ∈ parent, p < f.entries.size) → f.make element row parent = .ok (id, g) →
    Raised (held ++ f.adopted element row) (named ++ (parent.map fun _ => id).toList) g
  /-- A node cannot be made, and what is in the list stays as it is. -/
  | refuse {held named : List NodeId} {f : Forest} {element : Element} {row : RowId}
    {parent : Option NodeId} {defect : BuildError} :
    Raised held named f → f.make element row parent = .error defect → Raised held named f
  /-- A node is put behind the children of a container, and becomes a child of every container that
  has the same list. -/
  | append {held named : List NodeId} {f : Forest} {parent child : NodeId} :
    Raised held named f → f.isContainer parent → child < f.entries.size →
    Raised (held ++ (f.sharers parent).map fun _ => child) named (f.append parent child)

/-- There are no children below what is no node. -/
theorem children_eq_nil (h : f.entries.size ≤ p) : f.children p = [] := by
  have hnone : f.get? p = none := Array.getElem?_eq_none h
  rw [children, children?, row?, hnone]
  rfl

theorem lt_of_mem_children (h : id ∈ f.children p) : p < f.entries.size := by
  refine Nat.lt_of_not_le fun hle => ?_
  rw [children_eq_nil hle] at h
  cases h

theorem parent?_eq_none (h : f.entries.size ≤ id) : f.parent? id = none := by
  have hnone : f.get? id = none := Array.getElem?_eq_none h
  rw [parent?, hnone]
  rfl

/-- What can be seen of a forest after a node has been made: it has its own part and its children,
these name it as their parent, and nothing else has changed. -/
theorem of_make_eq_ok {element : Element} {row : RowId} {parent : Option NodeId}
    (hsound : ∀ child ∈ f.members row, child < f.entries.size)
    (h : f.make element row parent = .ok (id, g)) :
    element.defect? = none ∧ id = f.entries.size ∧ g.entries.size = f.entries.size + 1 ∧
      g.rows = f.rows ∧
      (∀ place, g.row? place =
        if place = f.entries.size then (if element.isContainer then some row else none)
        else f.row? place) ∧
      (∀ place, g.parent? place =
        if place ∈ f.adopted element row then some f.entries.size
        else if place = f.entries.size then parent else f.parent? place) ∧
      ∀ place, g.element? place =
        if place = f.entries.size then some element else f.element? place := by
  have hdefect : element.defect? = none := by
    cases hd : element.defect? with
    | none => rfl
    | some defect => rw [make, hd] at h; cases h
  have hadopted : f.entries.size ∉ f.adopted element row := by
    rw [adopted]
    split
    · exact fun hm => Nat.lt_irrefl _ (hsound _ hm)
    · exact List.not_mem_nil
  obtain ⟨grown, hgrown, hsize, hrows, hget⟩ := exists_make hdefect f row parent
  rw [h] at hgrown
  cases hgrown
  refine ⟨hdefect, rfl, hsize, hrows, fun place => ?_, fun place => ?_, fun place => ?_⟩
  · rw [row?, hget]
    by_cases hp : place = f.entries.size
    · simp [hp, hadopted]
    · rw [if_neg hp, if_neg hp, row?]
      cases f.get? place with
      | none => rfl
      | some entry => by_cases hm : place ∈ f.adopted element row <;> simp [hm]
  · rw [parent?, hget, parent?]
    by_cases hm : place ∈ f.adopted element row
    · have hlt : place < f.entries.size := by
        rw [adopted] at hm
        split at hm
        · exact hsound place hm
        · cases hm
      have hentry : f.get? place = some f.entries[place] := Array.getElem?_eq_getElem hlt
      simp [hm, Nat.ne_of_lt hlt, hentry]
    · by_cases hp : place = f.entries.size
      · simp [hp, hadopted]
      · cases f.get? place <;> simp [hm, hp]
  · rw [element?, hget, element?]
    by_cases hp : place = f.entries.size
    · simp [hp, hadopted]
    · cases f.get? place <;> simp [hp, apply_ite Entry.element]

/-- What can be seen of a forest after a node has been put under a container: the node names the
container as its parent, and is the last child of all that have the container's list. -/
theorem of_append {parent child : NodeId} {row : RowId} (hrow : f.row? parent = some row)
    (hchild : child < f.entries.size) :
    (f.append parent child).entries.size = f.entries.size ∧
      (f.append parent child).rows = f.rows.modify row (· ++ [child]) ∧
      (∀ place, (f.append parent child).row? place = f.row? place) ∧
      (∀ place, (f.append parent child).parent? place =
        if place = child then some parent else f.parent? place) ∧
      ∀ place, (f.append parent child).element? place = f.element? place := by
  have hget : ∀ place, (f.setParent child (some parent)).get? place =
      (f.get? place).map fun entry =>
        { entry with parent := if place = child then some parent else entry.parent } := by
    intro place
    rw [setParent, get?_change]
    by_cases hp : place = child
    · simp [hp]
    · cases f.get? place <;> simp [hp, Ne.symm hp]
  have hrows : ∀ place, (f.setParent child (some parent)).row? place = f.row? place := by
    intro place
    rw [row?, hget, row?]
    cases f.get? place <;> rfl
  -- Only the parents have changed before the child is put into the list.
  have happend : f.append parent child =
      { f.setParent child (some parent) with rows := f.rows.modify row (· ++ [child]) } := by
    rw [append, setChildren, hrows, hrow]
    rfl
  rw [happend]
  refine ⟨size_change f child _, rfl, hrows, fun place => ?_, fun place => ?_⟩
  · show ((f.setParent child (some parent)).get? place).bind _ = _
    rw [hget, parent?]
    by_cases hp : place = child
    · have hentry : f.get? child = some f.entries[child] := Array.getElem?_eq_getElem hchild
      simp [hp, hentry]
    · cases f.get? place <;> simp [hp]
  · show ((f.setParent child (some parent)).get? place).map _ = _
    rw [hget, element?]
    cases f.get? place <;> rfl

/-- What the history of a forest says about it. No node has become a child without a list that
holds it, and every node that has become one names a node that has such a list. -/
structure Accounts (held named : List NodeId) (f : Forest) : Prop where
  /-- Nothing is wrong with any node. -/
  checked : ∀ id element, f.element? id = some element → element.defect? = none
  /-- Lists hold nodes. -/
  sound : ∀ row, ∀ child ∈ f.members row, child < f.entries.size
  /-- Containers have lists. -/
  rowed : ∀ id row, f.row? id = some row → row < f.rows.size
  /-- The nodes that have become children are those in the lists of all containers. -/
  held_perm : held.Perm ((List.range f.entries.size).flatMap f.children)
  /-- What has become a child names a node that has it as a child. -/
  names_holder : ∀ id ∈ held, ∃ p, f.parent? id = some p ∧ id ∈ f.children p
  /-- Anything else has a parent only if it has been told one. -/
  orphan_iff : ∀ id, id ∉ held → (f.parent? id = none ↔ id ∉ named)

namespace Accounts

variable {held named : List NodeId}

/-- What has become a child is among the children of some node. -/
theorem mem_held_iff (h : Accounts held named f) : id ∈ held ↔ ∃ p, id ∈ f.children p := by
  rw [h.held_perm.mem_iff, List.mem_flatMap]
  constructor
  · rintro ⟨p, -, hm⟩
    exact ⟨p, hm⟩
  · rintro ⟨p, hm⟩
    exact ⟨p, List.mem_range.mpr (lt_of_mem_children hm), hm⟩

/-- What has become a child is a node. -/
theorem lt_of_mem_held (h : Accounts held named f) (hm : id ∈ held) : id < f.entries.size := by
  obtain ⟨p, hparent, -⟩ := h.names_holder id hm
  exact lt_of_parent? hparent

theorem empty : Accounts [] [] {} where
  checked _ _ h := by cases h
  sound _ _ hm := by cases hm
  rowed _ _ h := by cases h
  held_perm := .nil
  names_holder _ hm := by cases hm
  orphan_iff _ _ := ⟨fun _ => List.not_mem_nil, fun _ => rfl⟩

/-- A list of nodes is made. No container has it yet. -/
theorem hold (h : Accounts held named f) {children : List NodeId}
    (hnodes : ∀ child ∈ children, child < f.entries.size) :
    Accounts held named (f.hold children).2 := by
  have hmembers : ∀ row, (f.hold children).2.members row =
      if row = f.rows.size then children else f.members row := by
    intro row
    rw [members, Forest.hold, Array.getElem?_push]
    split <;> rfl
  have hchildren : ∀ p, (f.hold children).2.children p = f.children p := by
    intro p
    show ((f.row? p).map (f.hold children).2.members).getD [] = ((f.row? p).map f.members).getD []
    cases hrow : f.row? p with
    | none => rfl
    | some row =>
      rw [Option.map_some, hmembers, if_neg (Nat.ne_of_lt (h.rowed p row hrow))]
      rfl
  refine ⟨h.checked, fun row child hm => ?_, fun id row hrow => ?_, ?_, fun id hm => ?_,
    h.orphan_iff⟩
  · rw [hmembers] at hm
    split at hm
    · exact hnodes child hm
    · exact h.sound row child hm
  · show row < (f.rows.push children).size
    rw [Array.size_push]
    exact Nat.lt_succ_of_lt (h.rowed id row hrow)
  · rw [show (f.hold children).2.children = f.children from funext hchildren]
    exact h.held_perm
  · rw [show (f.hold children).2.children = f.children from funext hchildren]
    exact h.names_holder id hm

/-- A node is made. It is in no list, so nothing has it as a child. -/
theorem make (h : Accounts held named f) {element : Element} {row : RowId}
    {parent : Option NodeId} (hrow : element.isContainer → row < f.rows.size)
    (hmake : f.make element row parent = .ok (id, g)) :
    Accounts (held ++ f.adopted element row) (named ++ (parent.map fun _ => id).toList) g := by
  obtain ⟨hdefect, rfl, hsize, hrows, hrow?, hparent, helement⟩ := of_make_eq_ok (h.sound row) hmake
  have hmembers : g.members = f.members := by
    funext other
    rw [members, hrows, members]
  have hchildren : ∀ p, g.children p =
      if p = f.entries.size then f.adopted element row else f.children p := by
    intro p
    rw [children, children?, hrow?, hmembers]
    split
    · rw [adopted]
      split <;> rfl
    · rfl
  have hnew : f.entries.size ∉ held := fun hm => Nat.lt_irrefl _ (h.lt_of_mem_held hm)
  refine ⟨fun place found hfound => ?_, fun other child hm => ?_, fun place other hother => ?_, ?_,
    fun place hm => ?_, fun place hm => ?_⟩
  · rw [helement] at hfound
    split at hfound
    · cases hfound
      exact hdefect
    · exact h.checked place found hfound
  · rw [hmembers] at hm
    rw [hsize]
    exact Nat.lt_succ_of_lt (h.sound other child hm)
  · rw [hrow?] at hother
    rw [hrows]
    split at hother
    · split at hother
      · rename_i hc
        cases hother
        exact hrow hc
      · cases hother
    · exact h.rowed place other hother
  · have hbefore : (List.range f.entries.size).flatMap g.children =
        (List.range f.entries.size).flatMap f.children := by
      refine List.flatMap_congr fun p hp => ?_
      rw [hchildren, if_neg (Nat.ne_of_lt (List.mem_range.mp hp))]
    rw [hsize, List.range_succ, List.flatMap_append, hbefore, List.flatMap_singleton, hchildren,
      if_pos rfl]
    exact h.held_perm.append_right _
  · by_cases hadopted : place ∈ f.adopted element row
    · refine ⟨f.entries.size, ?_, ?_⟩
      · rw [hparent, if_pos hadopted]
      · rwa [hchildren, if_pos rfl]
    · have hheld := (List.mem_append.mp hm).resolve_right hadopted
      obtain ⟨p, hnames, hin⟩ := h.names_holder place hheld
      refine ⟨p, ?_, ?_⟩
      · rw [hparent, if_neg hadopted, if_neg (Nat.ne_of_lt (h.lt_of_mem_held hheld)), hnames]
      · rwa [hchildren, if_neg (Nat.ne_of_lt (lt_of_mem_children hin))]
  · obtain ⟨hheld, hadopted⟩ := not_or.mp (mt List.mem_append.mpr hm)
    rw [hparent, if_neg hadopted, List.mem_append, not_or]
    have hold := h.orphan_iff place hheld
    by_cases hp : place = f.entries.size
    · subst hp
      have hnone := hold.mp (parent?_eq_none (Nat.le_refl _))
      rw [if_pos rfl]
      cases parent <;> simp [hnone]
    · rw [if_neg hp, hold]
      cases parent <;> simp [hp]

/-- A node is put under a container. It is then in the list of every container that shares the
list. -/
theorem append (h : Accounts held named f) {parent child : NodeId}
    (hparent : f.isContainer parent) (hchild : child < f.entries.size) :
    Accounts (held ++ (f.sharers parent).map fun _ => child) named (f.append parent child) := by
  obtain ⟨row, hrow⟩ := Option.isSome_iff_exists.mp hparent
  have hlt := h.rowed parent row hrow
  obtain ⟨hsize, hrows, hrow?, hparents, helement⟩ := of_append hrow hchild
  have hmembers : ∀ other, (f.append parent child).members other =
      if other = row then f.members other ++ [child] else f.members other := by
    intro other
    rw [members, hrows, Array.getElem?_modify, members]
    by_cases ho : other = row
    · have hentry : f.rows[row]? = some f.rows[row] := Array.getElem?_eq_getElem hlt
      simp [ho, hentry]
    · simp [ho, Ne.symm ho]
  have hchildren : ∀ p, (f.append parent child).children p =
      f.children p ++ if f.row? p = f.row? parent then [child] else [] := by
    intro p
    rw [children, children?, hrow?, children, children?, hrow]
    cases f.row? p with
    | none => rfl
    | some other =>
      rw [Option.map_some, Option.map_some, Option.getD_some, Option.getD_some, hmembers]
      by_cases ho : other = row <;> simp [ho]
  -- The container itself shares its list, so the child has become one at least once.
  have hshared : parent ∈ f.sharers parent := by
    rw [sharers, List.mem_filter, List.mem_range]
    refine ⟨Nat.lt_of_not_le fun hle => ?_, by simp⟩
    have hnone : f.get? parent = none := Array.getElem?_eq_none hle
    rw [row?, hnone] at hrow
    cases hrow
  refine ⟨fun place found hfound => ?_, fun other node hm => ?_, fun place other hother => ?_, ?_,
    fun place hm => ?_, fun place hm => ?_⟩
  · rw [helement] at hfound
    exact h.checked place found hfound
  · rw [hmembers] at hm
    rw [hsize]
    split at hm
    · rcases List.mem_append.mp hm with hm | hm
      · exact h.sound other node hm
      · rwa [List.mem_singleton.mp hm]
    · exact h.sound other node hm
  · rw [hrow?] at hother
    rw [hrows, Array.size_modify]
    exact h.rowed place other hother
  · have hnew : (List.range f.entries.size).flatMap
        (fun p => if f.row? p = f.row? parent then [child] else []) =
          (f.sharers parent).map fun _ => child := by
      rw [sharers]
      generalize List.range f.entries.size = ids
      induction ids with
      | nil => rfl
      | cons other ids ih =>
        by_cases ho : f.row? other = f.row? parent <;> simp [ho, ih]
    rw [hsize, show (f.append parent child).children = _ from funext hchildren]
    refine .trans ?_ (List.flatMap_append_perm _ _ _)
    rw [hnew]
    exact h.held_perm.append_right _
  · by_cases hp : place = child
    · refine ⟨parent, ?_, ?_⟩
      · rw [hparents, if_pos hp]
      · rw [hchildren, if_pos rfl, hp]
        exact List.mem_append_right _ List.mem_cons_self
    · have hheld : place ∈ held := by
        rcases List.mem_append.mp hm with hm | hm
        · exact hm
        · obtain ⟨-, -, hsame⟩ := List.mem_map.mp hm
          exact absurd hsame.symm hp
      obtain ⟨p, hnames, hin⟩ := h.names_holder place hheld
      refine ⟨p, ?_, ?_⟩
      · rw [hparents, if_neg hp, hnames]
      · rw [hchildren]
        exact List.mem_append_left _ hin
  · obtain ⟨hheld, hnew⟩ := not_or.mp (mt List.mem_append.mpr hm)
    have hp : place ≠ child := by
      rintro rfl
      exact hnew (List.mem_map.mpr ⟨parent, hshared, rfl⟩)
    rw [hparents, if_neg hp]
    exact h.orphan_iff place hheld

/-- Parents and children agree when nothing has become a child twice, and whatever has been told a
parent has become a child. -/
theorem agrees (h : Accounts held named f) (honce : held.Nodup) (hnamed : ∀ id ∈ named, id ∈ held) :
    f.Agrees := by
  obtain ⟨hnodup, hapart⟩ := List.nodup_flatMap.mp (h.held_perm.nodup_iff.mp honce)
  have : Std.Symm (Function.onFun List.Disjoint f.children) := ⟨fun _ _ hd => hd.symm⟩
  -- No node is among the children of two.
  have hone : ∀ {id p q : NodeId}, id ∈ f.children p → id ∈ f.children q → p = q := by
    intro id p q hp hq
    by_contra hne
    have hp' := List.mem_range.mpr (lt_of_mem_children hp)
    have hq' := List.mem_range.mpr (lt_of_mem_children hq)
    exact hapart.forall hp' hq' hne hp hq
  refine ⟨fun id p => ⟨fun hp => ?_, fun hm => ?_⟩, fun p => ?_, h.checked⟩
  · have hheld : id ∈ held := by
      by_contra hnot
      have hnone := (h.orphan_iff id hnot).mpr (mt (hnamed id) hnot)
      rw [hp] at hnone
      cases hnone
    obtain ⟨q, hq, hin⟩ := h.names_holder id hheld
    rw [hp] at hq
    cases hq
    exact hin
  · obtain ⟨q, hq, hin⟩ := h.names_holder id (h.mem_held_iff.mpr ⟨p, hm⟩)
    rw [hone hm hin, hq]
  · by_cases hlt : p < f.entries.size
    · exact hnodup p (List.mem_range.mpr hlt)
    · rw [children_eq_nil (Nat.le_of_not_lt hlt)]
      exact List.nodup_nil

end Accounts

/-- The history of a forest that has arisen accounts for it. -/
theorem Raised.accounts {held named : List NodeId} (h : Raised held named f) :
    Accounts held named f := by
  induction h with
  | empty => exact .empty
  | hold _ hnodes ih => exact ih.hold hnodes
  | make _ hrow _ hmake ih => exact ih.make hrow hmake
  | refuse _ _ ih => exact ih
  | append _ hparent hchild ih => exact ih.append hparent hchild

/-- In a forest that has arisen by making nodes and by putting nodes under others, parents,
siblings, numbers and what is written agree exactly when no node has become a child twice, and every
node that has been told a parent has become a child. -/
theorem raised_kinship_iff {held named : List NodeId} (h : Raised held named f) :
    f.Kinship ↔ held.Nodup ∧ ∀ id ∈ named, id ∈ held := by
  have haccounts := h.accounts
  constructor
  · intro hkin
    have hmem : ∀ {id p : NodeId}, id ∈ f.children p → f.parent? id = some p := fun hm =>
      (hkin.parent_iff _ _).mpr (List.count_eq_one_of_mem (hkin.once _) hm)
    refine ⟨haccounts.held_perm.nodup_iff.mpr (List.nodup_flatMap.mpr ⟨fun p _ => hkin.once p, ?_⟩),
      fun id hm => ?_⟩
    · refine List.nodup_range.imp fun {p q} hne id hp hq => hne ?_
      have hsame := (hmem hp).symm.trans (hmem hq)
      exact Option.some.inj hsame
    · by_contra hnot
      cases hp : f.parent? id with
      | none => exact (haccounts.orphan_iff id hnot).mp hp hm
      | some p =>
        have hin := List.count_pos_iff.mp (((hkin.parent_iff id p).mp hp).symm ▸ Nat.one_pos)
        exact hnot (haccounts.mem_held_iff.mpr ⟨p, hin⟩)
  · rintro ⟨honce, hnamed⟩
    exact (haccounts.agrees honce hnamed).kinship

/-- Two items that are equal are made into a list that starts far off, a list that starts below zero
is not made, and a third item is told its parent before it is put there: all answers agree. Then a
quotation is made over the empty list of the first item, and a text that is put under the item
becomes a child of both: the answers no longer agree. -/
theorem raised_kinship_iff_twins :
    (∃ (held named : List NodeId) (f : Forest), Raised held named f ∧ named = [3] ∧
      f.element? 2 = some (.container (.list true 99999999999999999999)) ∧
      f.children 2 = [0, 1, 3] ∧ f.tree? 0 = f.tree? 1 ∧ f.Kinship) ∧
    ∃ (held named : List NodeId) (f : Forest), Raised held named f ∧
      f.children 0 = [5] ∧ f.children 4 = [5] ∧ f.parent? 5 = some 0 ∧ ¬ f.Kinship := by
  have hnothing : ∀ f : Forest, ∀ child ∈ ([] : List NodeId), child < f.entries.size :=
    fun _ _ hm => absurd hm List.not_mem_nil
  have hnobody : ∀ f : Forest, ∀ p ∈ (none : Option NodeId), p < f.entries.size :=
    fun _ _ hm => absurd hm (Option.not_mem_none _)
  have hitem : Raised _ _ _ := .make (.hold .empty (hnothing _)) (fun _ => by decide) (hnobody _)
    (rfl : make _ (.container .listItem) 0 none = _)
  have hitems : Raised _ _ _ := .make (.hold hitem (hnothing _)) (fun _ => by decide) (hnobody _)
    (rfl : make _ (.container .listItem) 1 none = _)
  have hlist : Raised _ _ _ := .make (.hold hitems (by decide : ∀ child ∈ [0, 1], child < _))
    (fun _ => by decide) (hnobody _)
    (rfl : make _ (.container (.list true 99999999999999999999)) 2 none = _)
  have hrefused : Raised _ _ _ :=
    .refuse hlist (rfl : make _ (.container (.list true (-1))) 2 none = .error (.listStart (-1)))
  have htold : Raised _ _ _ := .make (.hold hrefused (hnothing _)) (fun _ => by decide)
    (by decide : ∀ p ∈ some 2, p < _) (rfl : make _ (.container .listItem) 3 (some 2) = _)
  have hraised : Raised _ _ _ := .append htold (by decide : isContainer _ 2) (by decide : 3 < _)
  have hshared : Raised _ _ _ := .make hraised (fun _ => by decide) (hnobody _)
    (rfl : make _ (.container .blockQuote) 0 none = _)
  have htext : Raised _ _ _ := .make hshared (fun h => by cases h) (hnobody _)
    (rfl : make _ (.leaf (.text "a")) 0 none = _)
  have hboth : Raised _ _ _ := .append htext (by decide : isContainer _ 0) (by decide : 5 < _)
  refine ⟨⟨_, _, _, hraised, rfl, rfl, rfl, rfl, (raised_kinship_iff hraised).mpr (by decide)⟩,
    _, _, _, hboth, rfl, rfl, rfl, mt (raised_kinship_iff hboth).mp (by decide)⟩

end Forest

end MarkdownLayout
