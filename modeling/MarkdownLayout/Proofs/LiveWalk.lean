import Mathlib.Data.List.Induction
import MarkdownLayout.Forest.Basic

/-!
# Walks over trees that change

A cursor keeps positions in lists of children, and these lists may change between two of its steps:
a position may then stand behind the end of its list, or at a child that has been visited before.
The main statement is `watched_nested`: whatever is changed and whenever, what the cursor has
answered so far is well nested, and once it has answered that the walk is over it never answers
anything else.

Nothing is said about which nodes are visited while the tree changes, nor that a walk ever ends: a
container that grows as fast as it is walked over is never left.
-/

namespace MarkdownLayout

namespace Cursor

variable {ν : Type} [DecidableEq ν] {isContainer : ν → Bool} {events : List (Event × ν)}
  {opened : List ν}

/-- The open containers after one more event, the innermost first. Only the innermost one can be
left, and an end is no event of a node. -/
def afterEvent (isContainer : ν → Bool) (opened : List ν) : Event × ν → Option (List ν)
  | (.enter, node) => some (if isContainer node then node :: opened else opened)
  | (.exit, node) =>
    match opened with
    | innermost :: others => if innermost = node then some others else none
    | [] => none
  | (.done, _) => none

/-- The containers that are open after some events, the innermost first, if the events are well
nested. -/
def openAfter (isContainer : ν → Bool) (events : List (Event × ν)) : Option (List ν) :=
  events.foldlM (afterEvent isContainer) []

/-- What is open after one more event is what that event makes of what was open. -/
theorem openAfter_concat (events : List (Event × ν)) (event : Event × ν) :
    openAfter isContainer (events ++ [event]) =
      (openAfter isContainer events).bind fun opened => afterEvent isContainer opened event := by
  rw [openAfter, List.foldlM_append, ← openAfter]
  cases openAfter isContainer events with
  | none => rfl
  | some opened => exact Option.bind_fun_some _

/-- What one more event does to well nested events: a node is entered, and is open if it is a
container, or the innermost open container is left. -/
theorem openAfter_concat_cases {event : Event × ν}
    (h : openAfter isContainer (events ++ [event]) = some opened) :
    (∃ node before, event = (.enter, node) ∧ openAfter isContainer events = some before ∧
        opened = if isContainer node then node :: before else before) ∨
      ∃ node, event = (.exit, node) ∧ openAfter isContainer events = some (node :: opened) := by
  rw [openAfter_concat] at h
  cases hbefore : openAfter isContainer events with
  | none =>
    rw [hbefore] at h
    cases h
  | some before =>
    rw [hbefore, Option.bind_some] at h
    obtain ⟨kind, node⟩ := event
    cases kind with
    | enter => exact .inl ⟨node, before, rfl, rfl, (Option.some.inj h).symm⟩
    | done => cases h
    | exit =>
      cases before with
      | nil => cases h
      | cons innermost others =>
        rw [afterEvent] at h
        split at h
        · rename_i hnode
          cases h
          exact .inr ⟨node, rfl, by rw [hnode]⟩
        · cases h

/-- Only containers are open, and each of them has been entered. -/
theorem of_mem_openAfter (h : openAfter isContainer events = some opened) {node : ν}
    (hm : node ∈ opened) : isContainer node = true ∧ (.enter, node) ∈ events := by
  induction events using List.reverseRecOn generalizing opened with
  | nil =>
    cases h
    cases hm
  | append_singleton events event ih =>
    rcases openAfter_concat_cases h with ⟨entered, before, rfl, hbefore, rfl⟩ | ⟨left, rfl, hbefore⟩
    · split at hm
      · rename_i hc
        rcases List.mem_cons.mp hm with rfl | hm
        · exact ⟨hc, List.mem_concat_self⟩
        · have hold := ih hbefore hm
          exact ⟨hold.1, List.mem_append_left _ hold.2⟩
      · have hold := ih hbefore hm
        exact ⟨hold.1, List.mem_append_left _ hold.2⟩
    · have hold := ih hbefore (List.mem_cons_of_mem left hm)
      exact ⟨hold.1, List.mem_append_left _ hold.2⟩

/-- What is open depends on the kinds of the nodes that events happen to, and on no others. -/
theorem openAfter_congr {other : ν → Bool}
    (h : ∀ event ∈ events, other event.2 = isContainer event.2) :
    openAfter other events = openAfter isContainer events := by
  induction events using List.reverseRecOn with
  | nil => rfl
  | append_singleton events event ih =>
    have hbefore := ih fun e he => h e (List.mem_append_left _ he)
    have hlast := h event List.mem_concat_self
    obtain ⟨kind, node⟩ := event
    rw [openAfter_concat, openAfter_concat, hbefore]
    cases kind with
    | enter => simp only [afterEvent, hlast]
    | exit | done => rfl

/-- Well nested events enter nodes and leave containers. -/
theorem cases_of_mem (h : openAfter isContainer events = some opened) {event : Event × ν}
    (hm : event ∈ events) :
    (∃ node, event = (.enter, node)) ∨ ∃ node, event = (.exit, node) ∧ isContainer node = true := by
  induction events using List.reverseRecOn generalizing opened with
  | nil => cases hm
  | append_singleton events last ih =>
    rcases openAfter_concat_cases h with ⟨entered, before, rfl, hbefore, _⟩ | ⟨left, rfl, hbefore⟩
    · rcases List.mem_append.mp hm with hm | hm
      · exact ih hbefore hm
      · exact .inl ⟨entered, List.mem_singleton.mp hm⟩
    · rcases List.mem_append.mp hm with hm | hm
      · exact ih hbefore hm
      · exact .inr ⟨left, List.mem_singleton.mp hm, (of_mem_openAfter hbefore List.mem_cons_self).1⟩

/-- What a node does to the open containers when it is entered. -/
theorem map_stack_enter {children? : ν → Option (List ν)}
    (hk : ∀ node, isContainer node = (children? node).isSome) (node : ν) (c : Cursor ν) :
    afterEvent isContainer (c.stack.map Prod.fst) (.enter, node) =
      some ((c.enter children? node).stack.map Prod.fst) := by
  rw [afterEvent, enter, hk]
  split <;> rfl

/-- A step either ends a walk in which nothing is open, or gives an event that fits the open
containers. The positions in the stack play no part in it, so it holds wherever they point to. -/
theorem next_fits {children? : ν → Option (List ν)}
    (hk : ∀ node, isContainer node = (children? node).isSome) {c : Cursor ν}
    (hd : c.event ≠ some .done) :
    (c.started = true ∧ c.stack = [] ∧
        c.next children? = { c with node := none, event := some .done }) ∨
      ∃ event node, (c.next children?).event = some event ∧ (c.next children?).node = some node ∧
        (c.next children?).started = true ∧ (c.next children?).root = c.root ∧
        (c.started = false → event = .enter ∧ node = c.root) ∧
        (node = c.root ∨ ∃ container ∈ c.stack.map Prod.fst,
          node = container ∨ node ∈ (children? container).getD []) ∧
        afterEvent isContainer (c.stack.map Prod.fst) (event, node) =
          some ((c.next children?).stack.map Prod.fst) := by
  rw [next, if_neg hd]
  cases hs : c.started with
  | false =>
    rw [if_pos rfl]
    exact .inr ⟨.enter, c.root, rfl, rfl, rfl, rfl, fun _ => ⟨rfl, rfl⟩, .inl rfl,
      map_stack_enter hk c.root { c with started := true }⟩
  | true =>
    rw [if_neg (by decide)]
    cases hstack : c.stack with
    | nil => exact .inl ⟨rfl, rfl, rfl⟩
    | cons frame rest =>
      obtain ⟨container, position⟩ := frame
      have hmem : container ∈ (((container, position) :: rest).map Prod.fst) := List.mem_cons_self
      right
      dsimp only
      cases hchild : ((children? container).getD [])[position]? with
      | none =>
        refine ⟨.exit, container, rfl, rfl, rfl, rfl, Bool.noConfusion,
          .inr ⟨container, hmem, .inl rfl⟩, ?_⟩
        simp only [afterEvent, List.map_cons, if_true]
      | some child =>
        have hin := List.mem_of_getElem? hchild
        exact ⟨.enter, child, rfl, rfl, rfl, rfl, Bool.noConfusion,
          .inr ⟨container, hmem, .inr hin⟩,
          map_stack_enter hk child { c with stack := (container, position + 1) :: rest }⟩

end Cursor

namespace Forest

open Cursor (openAfter)

/-- Every list of children holds nodes. -/
def Sound (f : Forest) : Prop :=
  ∀ children ∈ f.rows.toList, ∀ child ∈ children, child < f.entries.size

instance (f : Forest) : Decidable f.Sound :=
  inferInstanceAs (Decidable (∀ children ∈ f.rows.toList, ∀ child ∈ children, _ < _))

/-- All children are nodes exactly if those on each row are. Rows that no node shows count too,
since a node may come to show them. -/
theorem sound_iff_rows {f : Forest} :
    f.Sound ↔ ∀ (row : RowId) (children : List NodeId), f.rows[row]? = some children →
      ∀ child ∈ children, child < f.entries.size := by
  constructor
  · intro h row children hrow
    exact h children (Array.mem_toList_iff.mpr (Array.mem_of_getElem? hrow))
  · intro h children hm
    obtain ⟨row, hrow⟩ := Array.mem_iff_getElem?.mp (Array.mem_toList_iff.mp hm)
    exact h row children hrow

/-- The children of a container are nodes. -/
theorem Sound.lt_of_mem {f : Forest} (h : f.Sound) {id child : NodeId}
    (hm : child ∈ (f.children? id).getD []) : child < f.entries.size := by
  rw [children?] at hm
  cases hrow : f.row? id with
  | none =>
    rw [hrow] at hm
    cases hm
  | some row =>
    rw [hrow, Option.map_some, Option.getD_some, members] at hm
    cases hlist : f.rows[row]? with
    | none =>
      rw [hlist] at hm
      cases hm
    | some children =>
      rw [hlist] at hm
      exact sound_iff_rows.mp h row children hlist child hm

/-- A change of a forest. -/
inductive Change where
  /-- Put a node after the children of another. -/
  | append (parent child : NodeId)
  /-- Put a node in at a position. -/
  | insertAt (parent : NodeId) (position : Nat) (child : NodeId)
  /-- Take the child at a position out. -/
  | removeAt (parent : NodeId) (position : Nat)
  /-- Put other nodes into the list of a node's children. -/
  | refill (parent : NodeId) (children : List NodeId)
  /-- Make a list of nodes. -/
  | hold (children : List NodeId)
  /-- Give a node a list that is there, whoever else has it. -/
  | setRow (id : NodeId) (row : RowId)
  /-- Name any other parent of a node. -/
  | setParent (id : NodeId) (parent : Option NodeId)
  /-- Change a field of a node. -/
  | edit (id : NodeId) (field : Edit)
  /-- Make a node over a list that is there. -/
  | make (element : Element) (row : RowId) (parent : Option NodeId)
  deriving DecidableEq, Repr

namespace Change

/-- Make a change. A node that cannot be made is not made. -/
def apply (f : Forest) : Change → Forest
  | .append parent child => f.append parent child
  | .insertAt parent position child => f.insertAt parent position child
  | .removeAt parent position => f.removeAt parent position
  | .refill parent children => f.setChildren parent fun _ => children
  | .hold children => (f.hold children).2
  | .setRow id row => f.setRow id row
  | .setParent id parent => f.setParent id parent
  | .edit id field => f.edit id field
  | .make element row parent =>
    match f.make element row parent with
    | .ok (_, grown) => grown
    | .error _ => f

/-- The nodes that are put into a list. -/
def newcomers : Change → List NodeId
  | .append _ child | .insertAt _ _ child => [child]
  | .refill _ children | .hold children => children
  | .removeAt .. | .setRow .. | .setParent .. | .edit .. | .make .. => []

/-- A change uses nodes that are there. -/
def Fits (f : Forest) (change : Change) : Prop :=
  ∀ id ∈ change.newcomers, id < f.entries.size

instance (f : Forest) (change : Change) : Decidable (change.Fits f) :=
  inferInstanceAs (Decidable (∀ id ∈ change.newcomers, _ < _))

end Change

/-- One forest may become another: what is a container and what is not stays so, no node is lost,
and if all children were nodes before then they still are. -/
structure Becomes (f g : Forest) : Prop where
  /-- No node is lost. -/
  size_le : f.entries.size ≤ g.entries.size
  /-- Nodes keep their kinds. -/
  isContainer_eq : ∀ id < f.entries.size, g.isContainer id = f.isContainer id
  /-- Children stay nodes. -/
  sound : f.Sound → g.Sound

/-- What is a container can be told from the element of a node alone. -/
theorem isContainer_eq_get? (f : Forest) (id : NodeId) :
    f.isContainer id = (f.get? id).any fun entry => entry.element.isContainer := by
  rw [isContainer, row?]
  cases f.get? id with
  | none => rfl
  | some entry =>
    rw [Option.any_some]
    dsimp only
    split <;> simp_all

namespace Becomes

/-- A forest that is left alone becomes itself. -/
theorem refl (f : Forest) : f.Becomes f :=
  ⟨Nat.le_refl _, fun _ _ => rfl, id⟩

/-- Changes may follow one another. -/
theorem trans {f g h : Forest} (hfg : f.Becomes g) (hgh : g.Becomes h) : f.Becomes h where
  size_le := Nat.le_trans hfg.size_le hgh.size_le
  isContainer_eq id hid := by
    rw [hgh.isContainer_eq id (Nat.lt_of_lt_of_le hid hfg.size_le), hfg.isContainer_eq id hid]
  sound hf := hgh.sound (hfg.sound hf)

/-- A node is changed, but not into one of another kind. -/
theorem change (f : Forest) (id : NodeId) {g : Entry → Entry}
    (hkind : ∀ entry, (g entry).element.isContainer = entry.element.isContainer) :
    f.Becomes (f.change id g) where
  size_le := Nat.le_of_eq (size_change f id g).symm
  isContainer_eq place _ := by
    rw [isContainer_eq_get?, isContainer_eq_get?, get?_change]
    split
    · cases f.get? place with
      | none => rfl
      | some entry => exact hkind entry
    · rfl
  sound hf children hm child hchild := by
    rw [size_change]
    exact hf children hm child hchild

/-- A node may be told of another parent. Its children and its kind are not touched. -/
theorem setParent (f : Forest) (id : NodeId) (parent : Option NodeId) :
    f.Becomes (f.setParent id parent) :=
  change f id fun _ => rfl

/-- A node may show another row, whose children are nodes already. -/
theorem setRow (f : Forest) (id : NodeId) (row : RowId) : f.Becomes (f.setRow id row) :=
  change f id fun _ => rfl

/-- A field of a node may be given another value, and a container stays one. -/
theorem edit (f : Forest) (id : NodeId) (field : Edit) : f.Becomes (f.edit id field) := by
  refine change f id fun entry => ?_
  dsimp only
  cases entry.element <;> rfl

/-- A list is changed, and only nodes are put into it. -/
theorem setChildren {f : Forest} (id : NodeId) {g : List NodeId → List NodeId}
    (h : ∀ children, ∀ child ∈ g children, child ∈ children ∨ child < f.entries.size) :
    f.Becomes (f.setChildren id g) := by
  rw [Forest.setChildren]
  cases f.row? id with
  | none => exact refl f
  | some row =>
    refine ⟨Nat.le_refl _, fun _ _ => rfl, fun hf => ?_⟩
    rw [sound_iff_rows] at hf ⊢
    intro place children hplace child hchild
    dsimp only at hplace ⊢
    rw [Array.getElem?_modify] at hplace
    split at hplace
    · obtain ⟨before, hbefore, rfl⟩ := Option.map_eq_some_iff.mp hplace
      rcases h before child hchild with hin | hlt
      · exact hf place before hbefore child hin
      · exact hlt
    · exact hf place children hplace child hchild

/-- A list of nodes is made. -/
theorem hold {f : Forest} {children : List NodeId}
    (h : ∀ child ∈ children, child < f.entries.size) : f.Becomes (f.hold children).2 where
  size_le := Nat.le_refl _
  isContainer_eq _ _ := rfl
  sound hf others hm := by
    simp only [Forest.hold, Array.toList_push, List.mem_append, List.mem_singleton] at hm
    rcases hm with hm | rfl
    · exact hf others hm
    · exact h

/-- A new node stands behind all others. -/
theorem push (f : Forest) (entry : Entry) :
    f.Becomes { f with entries := f.entries.push entry } where
  size_le := by simp
  isContainer_eq id hid := by
    have hne : id ≠ f.entries.size := by omega
    rw [isContainer_eq_get?, isContainer_eq_get?, get?, get?, Array.getElem?_push, if_neg hne]
  sound hf children hm child hchild := by
    rw [Array.size_push]
    exact Nat.lt_succ_of_lt (hf children hm child hchild)

/-- Many nodes name their parent. -/
theorem foldl_setParent (f : Forest) (parent : Option NodeId) (ids : List NodeId) :
    f.Becomes (ids.foldl (fun f id => f.setParent id parent) f) := by
  induction ids generalizing f with
  | nil => exact refl f
  | cons id ids ih => exact (setParent f id parent).trans (ih _)

/-- Every change that uses nodes that are there keeps the kinds of all nodes. -/
theorem apply {f : Forest} {change : Change} (h : change.Fits f) : f.Becomes (change.apply f) := by
  cases change with
  | append parent child =>
    have hchild : child < (f.setParent child (some parent)).entries.size := by
      rw [Forest.setParent, size_change]
      exact h child List.mem_cons_self
    rw [Change.apply, append]
    refine (setParent f child (some parent)).trans
      (setChildren parent fun children node hnode => ?_)
    rcases List.mem_append.mp hnode with hold | hnew
    · exact .inl hold
    · exact .inr (List.mem_singleton.mp hnew ▸ hchild)
  | insertAt parent position child =>
    rw [Change.apply, insertAt]
    refine setChildren parent fun children node hnode => ?_
    rcases List.mem_append.mp hnode with hbefore | hafter
    · exact .inl (List.mem_of_mem_take hbefore)
    · rcases List.mem_cons.mp hafter with rfl | hafter
      · exact .inr (h node List.mem_cons_self)
      · exact .inl (List.mem_of_mem_drop hafter)
  | removeAt parent position =>
    exact setChildren parent fun children node hnode => .inl (List.mem_of_mem_eraseIdx hnode)
  | refill parent children =>
    exact setChildren parent fun _ node hnode => .inr (h node hnode)
  | hold children => exact hold h
  | setRow id row => exact setRow f id row
  | setParent id parent => exact setParent f id parent
  | edit id field => exact edit f id field
  | make element row parent =>
    rw [Change.apply, make]
    cases element.defect? with
    | some defect => exact refl f
    | none => exact (push f { element, row, parent }).trans (foldl_setParent _ _ _)

end Becomes

/-- What a cursor answers after a step: the event and its node. -/
abbrev Answer := Option Event × Option NodeId

/-- The answer of a cursor that has taken a step. -/
def answer (c : Cursor NodeId) : Answer :=
  (c.event, c.node)

/-- A walk from a root with changes in between, in any order: the forest and the cursor as they are
now, and what the cursor has answered so far. -/
inductive Watched (root : NodeId) : Forest → Cursor NodeId → List Answer → Prop
  /-- A cursor is put at a node. -/
  | start {f : Forest} : f.Sound → root < f.entries.size → Watched root f (cursor root) []
  /-- The cursor takes a step. -/
  | call {f : Forest} {c : Cursor NodeId} {answers : List Answer} :
    Watched root f c answers → Watched root f (f.advance c) (answers ++ [answer (f.advance c)])
  /-- The forest is changed. -/
  | change {f : Forest} {c : Cursor NodeId} {answers : List Answer} (change : Change) :
    Watched root f c answers → change.Fits f → Watched root (change.apply f) c answers

/-- The answers of a walk that has given some events and then been over for some steps. -/
def answersOf (events : List (Event × NodeId)) (dones : Nat) : List Answer :=
  events.map (fun (event, node) => (some event, some node)) ++
    List.replicate dones (some .done, none)

/-- A cursor agrees with the events that it has given: what is open after them is what it keeps
open. -/
structure Tracks (root : NodeId) (f : Forest) (c : Cursor NodeId) (events : List (Event × NodeId))
    (dones : Nat) : Prop where
  /-- The children of every node are nodes. -/
  sound : f.Sound
  /-- The walk begins at the root. -/
  root_eq : c.root = root
  /-- The root is a node. -/
  root_lt : root < f.entries.size
  /-- Events happen to nodes. -/
  nodes : ∀ event ∈ events, event.2 < f.entries.size
  /-- The containers on the stack are the open ones. -/
  nested : openAfter f.isContainer events = some (c.stack.map Prod.fst)
  /-- Before the root has been entered there is no event. -/
  unstarted : c.started = false → events = [] ∧ dones = 0
  /-- The root is entered first. -/
  started : c.started = true → events.head? = some (.enter, root)
  /-- The walk is over when it has said so. -/
  ended : c.event = some .done ↔ 0 < dones
  /-- A walk that is over is at no node and keeps nothing open. -/
  last : 0 < dones → c.node = none ∧ c.stack = []

namespace Tracks

variable {root : NodeId} {f : Forest} {c : Cursor NodeId} {events : List (Event × NodeId)}
  {dones : Nat}

/-- A cursor that has been put at a node has given no event. -/
theorem start (hf : f.Sound) (hroot : root < f.entries.size) :
    Tracks root f (cursor root) [] 0 where
  sound := hf
  root_eq := rfl
  root_lt := hroot
  nodes _ h := by cases h
  nested := rfl
  unstarted _ := ⟨rfl, rfl⟩
  started h := by cases h
  ended := by constructor <;> intro h <;> cases h
  last h := by cases h

/-- The forest becomes another one. -/
theorem becomes {g : Forest} (h : Tracks root f c events dones) (hfg : f.Becomes g) :
    Tracks root g c events dones where
  sound := hfg.sound h.sound
  root_eq := h.root_eq
  root_lt := Nat.lt_of_lt_of_le h.root_lt hfg.size_le
  nodes event hm := Nat.lt_of_lt_of_le (h.nodes event hm) hfg.size_le
  nested := by
    rw [← h.nested]
    exact Cursor.openAfter_congr fun event hm => hfg.isContainer_eq _ (h.nodes event hm)
  unstarted := h.unstarted
  started := h.started
  ended := h.ended
  last := h.last

/-- A step that is no end gives one more event. -/
theorem event (h : Tracks root f c events 0) {event : Event} {node : NodeId}
    (hevent : (f.advance c).event = some event) (hroot : (f.advance c).root = c.root)
    (hs : (f.advance c).started = true)
    (hfirst : c.started = false → event = .enter ∧ node = c.root) (hnode : node < f.entries.size)
    (hfits : Cursor.afterEvent f.isContainer (c.stack.map Prod.fst) (event, node) =
      some ((f.advance c).stack.map Prod.fst)) :
    Tracks root f (f.advance c) (events ++ [(event, node)]) 0 where
  sound := h.sound
  root_eq := hroot.trans h.root_eq
  root_lt := h.root_lt
  nodes e hm := by
    rcases List.mem_append.mp hm with hm | hm
    · exact h.nodes e hm
    · rw [List.mem_singleton.mp hm]
      exact hnode
  nested := by rw [Cursor.openAfter_concat, h.nested, Option.bind_some, hfits]
  unstarted hn := by rw [hs] at hn; cases hn
  started _ := by
    cases hc : c.started with
    | false =>
      have hnil := (h.unstarted hc).1
      have hboth := hfirst hc
      rw [hnil, hboth.1, hboth.2, h.root_eq]
      rfl
    | true => rw [List.head?_append, h.started hc, Option.some_or]
  ended := by
    constructor
    · intro hdone
      rw [hevent] at hdone
      cases hdone
      cases hfits
    · intro hlt
      cases hlt
  last hlt := by cases hlt

/-- What a step adds to the answers: one more event, or one more word that the walk is over. -/
theorem advance (h : Tracks root f c events dones) :
    ∃ events' dones', Tracks root f (f.advance c) events' dones' ∧
      answersOf events dones ++ [answer (f.advance c)] = answersOf events' dones' := by
  by_cases hd : c.event = some .done
  · have hstill : f.advance c = c := Cursor.next_of_done hd
    refine ⟨events, dones + 1, ?_, ?_⟩
    · rw [hstill]
      have hpos := h.ended.mp hd
      exact { h with
        unstarted := fun hs => by rw [(h.unstarted hs).2] at hpos; cases hpos
        ended := ⟨fun _ => Nat.succ_pos _, fun _ => hd⟩
        last := fun _ => h.last hpos }
    · rw [hstill, answer, hd, (h.last (h.ended.mp hd)).1, answersOf, List.append_assoc,
        ← List.replicate_succ']
      rfl
  · obtain rfl : dones = 0 := Nat.eq_zero_of_not_pos (mt h.ended.mpr hd)
    have hk : ∀ node, f.isContainer node = (f.children? node).isSome := fun node => by
      rw [isContainer, children?, Option.isSome_map]
    rcases Cursor.next_fits hk hd with
      ⟨hs, hstack, hnext⟩ | ⟨event, node, hevent, hnode, hs, hroot, hfirst, hfrom, hfits⟩
    · have hover : f.advance c = { c with node := none, event := some .done } := hnext
      refine ⟨events, 1, ?_, ?_⟩
      · rw [hover]
        exact { h with
          unstarted := fun hn => by rw [hs] at hn; cases hn
          ended := ⟨fun _ => Nat.one_pos, fun _ => rfl⟩
          last := fun _ => ⟨rfl, hstack⟩ }
      · rw [hover, answersOf, answersOf, List.replicate_zero, List.append_nil]
        rfl
    · have hlt : node < f.entries.size := by
        rcases hfrom with rfl | ⟨container, hmem, rfl | hchild⟩
        · rw [h.root_eq]
          exact h.root_lt
        · exact h.nodes _ (Cursor.of_mem_openAfter h.nested hmem).2
        · exact h.sound.lt_of_mem hchild
      refine ⟨events ++ [(event, node)], 0, h.event hevent hroot hs hfirst hlt hfits, ?_⟩
      have hanswer : answer (f.advance c) = (some event, some node) := by
        rw [answer]
        exact Prod.ext hevent hnode
      rw [hanswer]
      simp [answersOf]

end Tracks

/-- A watched cursor agrees with what it has answered. -/
theorem Watched.exists_tracks {root : NodeId} {f : Forest} {c : Cursor NodeId}
    {answers : List Answer} (h : Watched root f c answers) :
    ∃ events dones, Tracks root f c events dones ∧ answers = answersOf events dones := by
  induction h with
  | start hf hroot => exact ⟨[], 0, .start hf hroot, rfl⟩
  | call _ ih =>
    obtain ⟨events, dones, htracks, rfl⟩ := ih
    exact htracks.advance
  | change _ _ hfits ih =>
    obtain ⟨events, dones, htracks, rfl⟩ := ih
    exact ⟨events, dones, htracks.becomes (.apply hfits), rfl⟩

/-- However calls and changes follow each other, every call is answered, and the answers are events
of nodes and then nothing but ends. The events are well nested: what is left is the container that
was entered last among those that have not been left. A leaf is never left, the root is entered
first, and an end is answered only when nothing is open. -/
theorem watched_nested {root : NodeId} {f : Forest} {c : Cursor NodeId} {answers : List Answer}
    (h : Watched root f c answers) :
    ∃ events dones opened,
      answers = events.map (fun (event, node) => (some event, some node)) ++
        List.replicate dones (some .done, none) ∧
      openAfter f.isContainer events = some opened ∧
      (∀ event ∈ events, event.1 ≠ .done ∧ event.2 < f.entries.size) ∧
      (∀ node, (.exit, node) ∈ events → f.isContainer node = true) ∧
      (0 < dones → opened = []) ∧
      (answers ≠ [] → answers.head? = some (some .enter, some root)) := by
  obtain ⟨events, dones, htracks, rfl⟩ := h.exists_tracks
  refine ⟨events, dones, c.stack.map Prod.fst, rfl, htracks.nested, fun event hm => ⟨?_, ?_⟩,
    fun node hm => ?_, fun hpos => ?_, fun hne => ?_⟩
  · rcases Cursor.cases_of_mem htracks.nested hm with ⟨node, rfl⟩ | ⟨node, rfl, _⟩ <;>
      exact Event.noConfusion
  · exact htracks.nodes event hm
  · rcases Cursor.cases_of_mem htracks.nested hm with ⟨_, he⟩ | ⟨_, he, hc⟩
    · cases he
    · cases he
      exact hc
  · rw [(htracks.last hpos).2]
    rfl
  · cases hs : c.started with
    | false =>
      obtain ⟨rfl, rfl⟩ := htracks.unstarted hs
      exact absurd rfl hne
    | true =>
      rw [answersOf, List.head?_append, List.head?_map, htracks.started hs]
      rfl

/-- A child is taken out of an open container behind its back, others are put in before and after
the position of the cursor, and one is put in when the walk is over. -/
theorem watched_nested_regrown :
    ∃ (f : Forest) (c : Cursor NodeId) (answers : List Answer),
      Watched 3 f c answers ∧
      answers = [(some .enter, some 3), (some .enter, some 1), (some .enter, some 0),
        (some .exit, some 1), (some .enter, some 2), (some .enter, some 2), (some .exit, some 3),
        (some .done, none), (some .done, none)] ∧
      ∃ events dones opened,
        answers = events.map (fun (event, node) => (some event, some node)) ++
          List.replicate dones (some .done, none) ∧
        openAfter f.isContainer events = some opened ∧
        (∀ event ∈ events, event.1 ≠ .done ∧ event.2 < f.entries.size) ∧
        (∀ node, (.exit, node) ∈ events → f.isContainer node = true) ∧
        (0 < dones → opened = []) ∧
        (answers ≠ [] → answers.head? = some (some .enter, some 3)) := by
  have hsound : Sound
      { entries := #[⟨.leaf (.text "a"), 0, some 1⟩, ⟨.container .paragraph, 1, some 3⟩,
          ⟨.leaf (.text "b"), 2, none⟩, ⟨.container .document, 3, none⟩]
        rows := #[[], [0], [], [1]] } := by decide
  have hwatched : Watched 3 _ _ _ := .start hsound (by decide)
  have hinside := hwatched.call.call.call
  have htaken := (hinside.change (.removeAt 1 0) (by decide)).change (.append 3 2) (by decide)
  have hshifted := htaken.call.call.change (.insertAt 3 0 2) (by decide)
  have hended := hshifted.call.call.call.change (.append 3 0) (by decide)
  exact ⟨_, _, _, hended.call, rfl, watched_nested hended.call⟩

end Forest

end MarkdownLayout
