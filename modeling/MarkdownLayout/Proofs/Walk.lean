import Mathlib.Data.List.Forall2
import Mathlib.Logic.Function.Iterate
import MarkdownLayout.Forest.Basic

/-!
# Walks

A cursor keeps a stack of open containers and gives one event at a time. The main statement is
`walk_refines_events`: what it gives over a tree that ends is the list of events that recursion over
the tree gives, and then it is over for good. The nodes that it enters below the root are the
descendants, in order, and every container adds one event to those.

A step looks at the top of the stack only, so the induction is over the events that are still to
come: `Remains` says what they are for any stack, also one in the middle of a walk, and a step gives
the first of them.
-/

namespace MarkdownLayout

namespace Cursor

variable {ν : Type} {children? : ν → Option (List ν)}

/-- The events of walks over the trees below some nodes, one tree after the other. A leaf is
entered; a container is entered, then the trees below its children are walked over, then it is left.
A tree that does not end has no such events. -/
inductive Walks (children? : ν → Option (List ν)) : List ν → List (Event × ν) → Prop
  /-- There is nothing to walk over. -/
  | nil : Walks children? [] []
  /-- A leaf comes first. -/
  | leaf {node : ν} {rest : List ν} {events : List (Event × ν)} :
    children? node = none → Walks children? rest events →
      Walks children? (node :: rest) ((.enter, node) :: events)
  /-- A container comes first. -/
  | container {node : ν} {children rest : List ν} {inner events : List (Event × ν)} :
    children? node = some children → Walks children? children inner → Walks children? rest events →
      Walks children? (node :: rest) ((.enter, node) :: (inner ++ (.exit, node) :: events))

/-- The events that are still to come when these containers are open: those of the children that
have not been visited, and the exits. -/
inductive Remains (children? : ν → Option (List ν)) : List (ν × Nat) → List (Event × ν) → Prop
  /-- No container is open. -/
  | nil : Remains children? [] []
  /-- The innermost container is left before the others go on. -/
  | cons {node : ν} {position : Nat} {stack : List (ν × Nat)} {inner events : List (Event × ν)} :
    Walks children? (((children? node).getD []).drop position) inner →
      Remains children? stack events →
      Remains children? ((node, position) :: stack) (inner ++ (.exit, node) :: events)

/-- The events that a cursor has still to give. -/
inductive Ahead (children? : ν → Option (List ν)) : Cursor ν → List (Event × ν) → Prop
  /-- The root has not been entered. -/
  | unstarted {c : Cursor ν} {events : List (Event × ν)} :
    c.event ≠ some .done → c.started = false → c.stack = [] → Walks children? [c.root] events →
      Ahead children? c events
  /-- Some containers may be open. -/
  | underway {c : Cursor ν} {events : List (Event × ν)} :
    c.event ≠ some .done → c.started = true → Remains children? c.stack events →
      Ahead children? c events
  /-- The walk is over. -/
  | ended {c : Cursor ν} : c.event = some .done → c.node = none → Ahead children? c []

namespace Walks

/-- One walk after another. -/
theorem append {nodes more : List ν} {events others : List (Event × ν)}
    (h : Walks children? nodes events) (hm : Walks children? more others) :
    Walks children? (nodes ++ more) (events ++ others) := by
  induction h with
  | nil => exact hm
  | leaf hc _ ih => exact .leaf hc ih
  | container hc hi _ _ ih =>
    rw [List.cons_append, List.cons_append, List.append_assoc]
    exact .container hc hi ih

/-- The walks over single trees, put together. -/
theorem flatten {nodes : List ν} {inner : List (List (Event × ν))}
    (h : List.Forall₂ (fun node events => Walks children? [node] events) nodes inner) :
    Walks children? nodes inner.flatten := by
  induction h with
  | nil => exact .nil
  | cons hfirst _ ih => exact hfirst.append ih

/-- The first node is entered first. What comes before its siblings comes before all else once it
has been put on the stack. -/
theorem enter_first {node : ν} {siblings : List ν} {events : List (Event × ν)}
    (h : Walks children? (node :: siblings) events) :
    ∃ first others, events = (.enter, node) :: (first ++ others) ∧ Walks children? siblings others ∧
      ∀ c : Cursor ν, ∀ more, Remains children? c.stack more →
        Remains children? (c.enter children? node).stack (first ++ more) := by
  cases h with
  | leaf hc hs =>
    refine ⟨[], _, rfl, hs, fun c more hr => ?_⟩
    rw [enter, hc]
    exact hr
  | @container _ children _ inner others hc hi hs =>
    refine ⟨inner ++ [(.exit, node)], others, by simp, hs, fun c more hr => ?_⟩
    have hinner : Walks children? (((children? node).getD []).drop 0) inner := by
      rw [hc]
      exact hi
    have hstack : (c.enter children? node).stack = (node, 0) :: c.stack := by
      rw [enter, hc]
      rfl
    rw [hstack, List.append_assoc]
    exact .cons hinner hr

end Walks

/-- What is still to come when a container is open. -/
theorem Remains.exists_of_cons {node : ν} {position : Nat} {stack : List (ν × Nat)}
    {events : List (Event × ν)} (h : Remains children? ((node, position) :: stack) events) :
    ∃ inner more, events = inner ++ (.exit, node) :: more ∧
      Walks children? (((children? node).getD []).drop position) inner ∧
      Remains children? stack more := by
  cases h with
  | cons hw hr => exact ⟨_, _, rfl, hw, hr⟩

/-- A step gives the first of the events to come; when there is none, the walk is over. -/
theorem Ahead.next_cases {c : Cursor ν} {events : List (Event × ν)} (h : Ahead children? c events) :
    (events = [] ∧ (c.next children?).event = some .done ∧ (c.next children?).node = none) ∨
      ∃ event node rest, events = (event, node) :: rest ∧ event ≠ .done ∧
        (c.next children?).event = some event ∧ (c.next children?).node = some node ∧
        Ahead children? (c.next children?) rest := by
  have henter : Event.enter ≠ .done := by decide
  have hexit : Event.exit ≠ .done := by decide
  cases h with
  | ended hd hn =>
    rw [next_of_done hd]
    exact .inl ⟨rfl, hd, hn⟩
  | unstarted hd hs hstack hw =>
    obtain ⟨first, others, rfl, hothers, hfirst⟩ := hw.enter_first
    cases hothers
    have hnext : c.next children? = { c with started := true }.enter children? c.root := by
      rw [next, if_neg hd, if_pos hs]
    have hstart : Remains children? ({ c with started := true } : Cursor ν).stack [] := by
      show Remains children? c.stack []
      rw [hstack]
      exact .nil
    rw [hnext]
    exact .inr ⟨.enter, c.root, first ++ [], rfl, henter, rfl, rfl,
      .underway (mt Option.some.inj henter) rfl (hfirst _ [] hstart)⟩
  | underway hd hs hr =>
    have hstarted : ¬ c.started = false := by simp [hs]
    cases hstack : c.stack with
    | nil =>
      rw [hstack] at hr
      cases hr
      have hnext : c.next children? = { c with node := none, event := some .done } := by
        rw [next, if_neg hd, if_neg hstarted, hstack]
      rw [hnext]
      exact .inl ⟨rfl, rfl, rfl⟩
    | cons frame stack =>
      obtain ⟨parent, position⟩ := frame
      rw [hstack] at hr
      obtain ⟨inner, more, rfl, hinner, hmore⟩ := hr.exists_of_cons
      right
      cases hchild : ((children? parent).getD [])[position]? with
      | none =>
        -- All children have been visited.
        rw [List.drop_eq_nil_of_le (List.getElem?_eq_none_iff.mp hchild)] at hinner
        cases hinner
        have hnext : c.next children? =
            { c with stack, node := some parent, event := some .exit } := by
          rw [next, if_neg hd, if_neg hstarted, hstack]
          dsimp only
          rw [hchild]
        rw [hnext]
        exact ⟨.exit, parent, more, rfl, hexit, rfl, rfl,
          .underway (mt Option.some.inj hexit) hs hmore⟩
      | some child =>
        obtain ⟨hlt, hget⟩ := List.getElem?_eq_some_iff.mp hchild
        rw [List.drop_eq_getElem_cons hlt, hget] at hinner
        obtain ⟨first, others, rfl, hothers, hfirst⟩ := hinner.enter_first
        have hnext : c.next children? =
            { c with stack := (parent, position + 1) :: stack }.enter children? child := by
          rw [next, if_neg hd, if_neg hstarted, hstack]
          dsimp only
          rw [hchild]
        rw [hnext, List.cons_append, List.append_assoc]
        exact ⟨.enter, child, _, rfl, henter, rfl, rfl,
          .underway (mt Option.some.inj henter) hs (hfirst _ _ (.cons hothers hmore))⟩

/-- The events that a cursor gives are those that are to come. -/
theorem Ahead.take_eq {c : Cursor ν} {events : List (Event × ν)} (h : Ahead children? c events)
    (steps : Nat) : c.take children? steps = events.take steps := by
  induction steps generalizing c events with
  | zero => rfl
  | succ steps ih =>
    rw [take]
    rcases h.next_cases with ⟨rfl, hevent, _⟩ | ⟨event, node, rest, rfl, hne, hevent, hnode, hrest⟩
    · rw [hevent]
      rfl
    · rw [hevent, hnode, List.take_succ_cons, ← ih hrest]
      cases event with
      | done => exact absurd rfl hne
      | enter | exit => rfl

/-- After some steps so many events fewer are to come. -/
theorem Ahead.iterate {c : Cursor ν} {events : List (Event × ν)} (h : Ahead children? c events)
    (steps : Nat) : Ahead children? ((next children?)^[steps] c) (events.drop steps) := by
  induction steps generalizing c events with
  | zero => exact h
  | succ steps ih =>
    rw [Function.iterate_succ_apply]
    rcases h.next_cases with ⟨rfl, hevent, hnode⟩ | ⟨event, node, rest, rfl, _, _, _, hrest⟩
    · simpa using ih (.ended hevent hnode)
    · exact ih hrest

/-- Once all events have been given the walk is over for good. -/
theorem Ahead.done_of_length_lt {c : Cursor ν} {events : List (Event × ν)}
    (h : Ahead children? c events) {steps : Nat} (hs : events.length < steps) :
    ((next children?)^[steps] c).event = some .done ∧ ((next children?)^[steps] c).node = none := by
  obtain ⟨before, rfl⟩ : ∃ before, steps = before + 1 := ⟨steps - 1, by omega⟩
  have hbefore := h.iterate before
  rw [List.drop_eq_nil_of_le (by omega)] at hbefore
  rw [Function.iterate_succ_apply']
  rcases hbefore.next_cases with ⟨_, hdone⟩ | ⟨_, _, _, hnil, _⟩
  · exact hdone
  · cases hnil

/-- The nodes that are entered, in order. -/
def entered (events : List (Event × ν)) : List ν :=
  (events.filter (·.1 = .enter)).map Prod.snd

@[simp] theorem entered_nil : entered ([] : List (Event × ν)) = [] := rfl

@[simp] theorem entered_enter (node : ν) (events : List (Event × ν)) :
    entered ((.enter, node) :: events) = node :: entered events := rfl

@[simp] theorem entered_exit (node : ν) (events : List (Event × ν)) :
    entered ((.exit, node) :: events) = entered events := rfl

@[simp] theorem entered_append (events others : List (Event × ν)) :
    entered (events ++ others) = entered events ++ entered others := by
  rw [entered, List.filter_append, List.map_append]
  rfl

@[simp] theorem entered_flatten (inner : List (List (Event × ν))) :
    entered inner.flatten = (inner.map entered).flatten := by
  induction inner with
  | nil => rfl
  | cons first rest ih =>
    rw [List.flatten_cons, entered_append, ih, List.map_cons, List.flatten_cons]

/-- Every node is entered once, and the containers among them are left once. -/
theorem Walks.length_eq {nodes : List ν} {events : List (Event × ν)}
    (h : Walks children? nodes events) :
    events.length =
      (entered events).length + (entered events).countP fun node => (children? node).isSome := by
  induction h with
  | nil => rfl
  | leaf hc _ ih =>
    simp only [entered_enter, List.length_cons, List.countP_cons, hc, Option.isSome_none]
    simp only [Bool.false_eq_true, if_false]
    omega
  | container hc _ _ ihi ih =>
    simp only [entered_enter, entered_append, entered_exit, List.length_cons, List.length_append,
      List.countP_cons, List.countP_append, hc, Option.isSome_some, if_true]
    omega

end Cursor

namespace Forest

open Cursor (Walks entered)

/-- The events of a walk over the tree below a node, within a bound on the depth. -/
def eventsWithin (f : Forest) : Nat → NodeId → Option (List (Event × NodeId))
  | 0, _ => none
  | bound + 1, id =>
    match f.children? id with
    | none => some [(.enter, id)]
    | some children =>
      (collect (f.eventsWithin bound) children).map fun inner =>
        (.enter, id) :: (inner.flatten ++ [(.exit, id)])

/-- The events of a walk over the tree below a node: a leaf is entered; a container is entered, then
come the events of its children in order, then it is left. -/
def events? (f : Forest) (id : NodeId) : Option (List (Event × NodeId)) :=
  f.eventsWithin (f.entries.size + 1) id

/-- What is collected is one answer for each node. -/
theorem forall₂_of_collect {α : Type} {answer : NodeId → Option α} {ids : List NodeId}
    {answers : List α} (h : collect answer ids = some answers) :
    List.Forall₂ (fun id a => answer id = some a) ids answers := by
  induction ids generalizing answers with
  | nil =>
    cases h
    exact .nil
  | cons id rest ih =>
    rw [collect] at h
    split at h
    · rename_i a others ha hrest
      cases h
      exact .cons ha (ih hrest)
    · cases h

theorem collect_of_forall₂ {α : Type} {answer : NodeId → Option α} {ids : List NodeId}
    {answers : List α} (h : List.Forall₂ (fun id a => answer id = some a) ids answers) :
    collect answer ids = some answers := by
  induction h with
  | nil => rfl
  | cons ha _ ih => rw [collect, ha, ih]

/-- The events that recursion gives are those of a walk. -/
theorem walks_of_eventsWithin {f : Forest} {bound : Nat} {id : NodeId}
    {events : List (Event × NodeId)} (h : f.eventsWithin bound id = some events) :
    Walks f.children? [id] events := by
  induction bound generalizing id events with
  | zero => cases h
  | succ bound ih =>
    rw [eventsWithin] at h
    split at h
    · rename_i hc
      cases h
      exact .leaf hc .nil
    · rename_i children hc
      obtain ⟨inner, hinner, rfl⟩ := Option.map_eq_some_iff.mp h
      have hall := (forall₂_of_collect hinner).imp fun child events hchild => ih hchild
      exact .container hc (.flatten hall) .nil

/-- The nodes that are entered are the root and its descendants. -/
theorem entered_of_eventsWithin {f : Forest} {bound : Nat} {id : NodeId}
    {events : List (Event × NodeId)} (h : f.eventsWithin bound id = some events) :
    ∃ below, f.descendantsWithin bound id = some below ∧ entered events = id :: below := by
  induction bound generalizing id events with
  | zero => cases h
  | succ bound ih =>
    rw [eventsWithin] at h
    rw [descendantsWithin]
    split at h
    · rename_i hc
      cases h
      rw [hc]
      exact ⟨[], rfl, rfl⟩
    · rename_i children hc
      obtain ⟨inner, hinner, rfl⟩ := Option.map_eq_some_iff.mp h
      have hbelow : List.Forall₂ (fun child nodes =>
          (f.descendantsWithin bound child).map (child :: ·) = some nodes) children
            (inner.map entered) := by
        rw [List.forall₂_map_right_iff]
        refine (forall₂_of_collect hinner).imp fun child events hchild => ?_
        obtain ⟨below, hdescendants, hentered⟩ := ih hchild
        rw [hdescendants, hentered]
        rfl
      rw [hc]
      refine ⟨(inner.map entered).flatten, ?_, ?_⟩
      · rw [Option.getD_some, collect_of_forall₂ hbelow]
        rfl
      · rw [Cursor.entered_enter, Cursor.entered_append, Cursor.entered_flatten]
        exact congrArg (id :: ·) (List.append_nil _)

/-- One thing for each node, if there is one for each. -/
theorem exists_forall₂ {α β : Type} {answers : NodeId → β → Prop} {ids : List NodeId} {as : List α}
    (h : List.Forall₂ (fun id _ => ∃ b, answers id b) ids as) :
    ∃ bs, List.Forall₂ answers ids bs := by
  induction h with
  | nil => exact ⟨[], .nil⟩
  | cons hfirst _ ih =>
    obtain ⟨b, hb⟩ := hfirst
    obtain ⟨bs, hbs⟩ := ih
    exact ⟨b :: bs, .cons hb hbs⟩

/-- The node of a number, without its children and its parent. -/
def element? (f : Forest) (id : NodeId) : Option Element :=
  (f.get? id).map (·.element)

/-- The visit of a layout that an event stands for. -/
def visitOf (f : Forest) : Event × NodeId → Visit
  | (event, id) => ⟨event, (f.element? id).getD default, f.slot id⟩

/-- A tree that ends has events, and they are the visits of its layout. -/
theorem exists_events_of_treeWithin {f : Forest} {bound : Nat} {id : NodeId} {tree : Node}
    (h : f.treeWithin bound id = some tree) :
    ∃ events, f.eventsWithin bound id = some events ∧
      f.visitsWithin bound id = some (events.map f.visitOf) := by
  induction bound generalizing id tree with
  | zero => cases h
  | succ bound ih =>
    rw [treeWithin] at h
    rw [eventsWithin, visitsWithin]
    cases hget : f.get? id with
    | none =>
      rw [hget] at h
      cases h
    | some entry =>
      rw [hget] at h
      dsimp only at h ⊢
      cases hel : entry.element with
      | leaf leaf =>
        rw [children?_of_leaf hget hel]
        refine ⟨_, rfl, ?_⟩
        simp [visitOf, element?, hget, hel]
      | container container =>
        rw [hel] at h
        obtain ⟨trees, htrees, -⟩ := Option.map_eq_some_iff.mp h
        have hall := (forall₂_of_collect htrees).imp fun child tree hchild => ih hchild
        rw [children?_of_container hget hel]
        obtain ⟨inner, hinner⟩ := exists_forall₂ hall
        have hevents := collect_of_forall₂ (hinner.imp fun _ _ hboth => hboth.1)
        have hvisits : List.Forall₂ (fun child visits => f.visitsWithin bound child = some visits)
            (f.members entry.row) (inner.map (List.map f.visitOf)) :=
          List.forall₂_map_right_iff.mpr (hinner.imp fun _ _ hboth => hboth.2)
        refine ⟨_, congrArg (Option.map _) hevents, ?_⟩
        rw [collect_of_forall₂ hvisits]
        simp [visitOf, element?, hget, hel, List.map_flatten]

/-- Over a tree that ends, a cursor has the events that recursion gives ahead of it, and a layout
visits what the cursor comes to. -/
theorem exists_events_ahead {f : Forest} {id : NodeId} {tree : Node} (h : f.tree? id = some tree) :
    ∃ events, f.events? id = some events ∧ f.visits? id = some (events.map f.visitOf) ∧
      Cursor.Ahead f.children? (cursor id) events := by
  obtain ⟨events, hevents, hvisits⟩ := exists_events_of_treeWithin h
  exact ⟨events, hevents, hvisits,
    .unstarted (Option.some_ne_none Event.done).symm rfl rfl (walks_of_eventsWithin hevents)⟩

/-- Over a tree that ends, a cursor gives the events that recursion gives, one after the other, and
then it is over for good and at no node. The nodes that it enters are the root and, in order, its
descendants, of which a leaf has none; there is one event for each of them and one more for each
container. -/
theorem walk_refines_events {f : Forest} {id : NodeId} {tree : Node} (h : f.tree? id = some tree) :
    ∃ events below, f.events? id = some events ∧ f.descendants? id = some below ∧
      (∀ steps, (cursor id).take f.children? steps = events.take steps) ∧
      (∀ steps, events.length < steps →
        (f.advance^[steps] (cursor id)).event = some .done ∧
          (f.advance^[steps] (cursor id)).node = none) ∧
      entered events = id :: below ∧ (f.children? id = none → below = []) ∧
      events.length = (id :: below).length +
        (id :: below).countP fun node => (f.children? node).isSome := by
  obtain ⟨events, hevents, -, hahead⟩ := exists_events_ahead h
  obtain ⟨below, hbelow, hentered⟩ := entered_of_eventsWithin hevents
  have hwalks := walks_of_eventsWithin hevents
  refine ⟨events, below, hevents, hbelow, hahead.take_eq,
    fun steps hs => hahead.done_of_length_lt hs, hentered, fun hleaf => ?_, ?_⟩
  · cases hwalks with
    | leaf _ hrest =>
      cases hrest
      exact (List.cons.inj hentered).2.symm
    | container hc _ _ =>
      rw [hleaf] at hc
      cases hc
  · rw [← hentered]
    exact hwalks.length_eq

/-- Two leaves that look the same in one paragraph, and a paragraph without anything in it. -/
theorem walk_refines_events_twins :
    ∃ (f : Forest) (tree : Node),
      f = { entries := #[⟨.leaf (.text "a"), 0, some 2⟩, ⟨.leaf (.text "a"), 1, some 2⟩,
              ⟨.container .paragraph, 2, some 4⟩, ⟨.container .paragraph, 3, some 4⟩,
              ⟨.container .document, 4, none⟩]
            rows := #[[], [], [0, 1], [], [2, 3]] } ∧
      f.tree? 4 = some tree ∧
      f.events? 4 =
        some [(.enter, 4), (.enter, 2), (.enter, 0), (.enter, 1), (.exit, 2), (.enter, 3),
        (.exit, 3), (.exit, 4)] ∧
      ∃ events below, f.events? 4 = some events ∧ f.descendants? 4 = some below ∧
        (∀ steps, (cursor 4).take f.children? steps = events.take steps) ∧
        (∀ steps, events.length < steps →
          (f.advance^[steps] (cursor 4)).event = some .done ∧
            (f.advance^[steps] (cursor 4)).node = none) ∧
        entered events = 4 :: below ∧ (f.children? 4 = none → below = []) ∧
        events.length = (4 :: below).length +
          (4 :: below).countP fun node => (f.children? node).isSome := by
  have htree : Forest.tree?
      { entries := #[⟨.leaf (.text "a"), 0, some 2⟩, ⟨.leaf (.text "a"), 1, some 2⟩,
          ⟨.container .paragraph, 2, some 4⟩, ⟨.container .paragraph, 3, some 4⟩,
          ⟨.container .document, 4, none⟩]
        rows := #[[], [], [0, 1], [], [2, 3]] } 4 =
      some (.branch .document [.branch .paragraph [.leaf (.text "a"), .leaf (.text "a")],
        .branch .paragraph []]) := rfl
  exact ⟨_, _, rfl, htree, rfl, walk_refines_events htree⟩

end Forest

end MarkdownLayout
