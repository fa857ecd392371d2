import MarkdownLayout.Node.Cursor

/-!
# Forests

A forest holds nodes that can be changed, each under a number of its own. A node names its
parent, and the list in which its children stand; lists have numbers of their own, since several
nodes may have one list, and a child put into it is then a child of all of them. A node may be
moved, shared and edited, so parents and children need not agree, and every question is answered
by what the nodes say at the time.

A walk downwards takes a bound on its depth, since nothing keeps a node from being put below
itself.
-/

namespace MarkdownLayout

/-- The number of a node in its forest. -/
abbrev NodeId := Nat

/-- The number of a list of children in its forest. -/
abbrev RowId := Nat

/-- A node of a forest. -/
structure Entry where
  /-- The node's own part. -/
  element : Element
  /-- The list in which the children stand; that of a leaf is not looked at. -/
  row : RowId
  /-- The node that holds this one, as far as this one knows. -/
  parent : Option NodeId := none
  deriving DecidableEq, Repr, Inhabited

/-- A set of nodes that can be changed. -/
structure Forest where
  /-- The nodes, by number. -/
  entries : Array Entry := #[]
  /-- The lists of children, by number. -/
  rows : Array (List NodeId) := #[]
  deriving DecidableEq, Repr, Inhabited

/-- A change to one field of a node. Fields that a node does not have are left alone. -/
inductive Edit where
  /-- Whether a list is numbered. -/
  | ordered (value : Bool)
  /-- The first number of a list. -/
  | start (value : Int)
  /-- The level of a heading. -/
  | level (value : Int)
  /-- The text of a leaf. -/
  | content (value : String)
  /-- The info string of a code block. -/
  | info (value : Option String)
  /-- The destination of a link or an image. -/
  | url (value : String)
  /-- The title of a link or an image. -/
  | title (value : Option String)
  deriving DecidableEq, Repr

/-- Change a field of a leaf, with no check. -/
def Leaf.edit : Edit → Leaf → Leaf
  | .content value, .codeBlock _ info => .codeBlock value info
  | .content value, .htmlBlock _ => .htmlBlock value
  | .content value, .text _ => .text value
  | .content value, .code _ => .code value
  | .content value, .htmlInline _ => .htmlInline value
  | .info value, .codeBlock content _ => .codeBlock content value
  | _, l => l

/-- Change a field of a container, with no check. -/
def Container.edit : Edit → Container → Container
  | .ordered value, .list _ start => .list value start
  | .start value, .list ordered _ => .list ordered value
  | .level value, .heading _ => .heading value
  | .url value, .link _ title => .link value title
  | .url value, .image _ title => .image value title
  | .title value, .link url _ => .link url value
  | .title value, .image url _ => .image url value
  | _, c => c

/-- Change a field of a node, with no check. -/
def Element.edit (change : Edit) : Element → Element
  | .leaf l => .leaf (l.edit change)
  | .container c => .container (c.edit change)

/-- What keeps a node from being made, if anything. -/
def Element.defect? : Element → Option BuildError
  | .leaf _ => none
  | .container c => c.defect?

namespace Forest

/-- The node of a number. -/
def get? (f : Forest) (id : NodeId) : Option Entry :=
  f.entries[id]?

/-- Change the node of a number. -/
def change (f : Forest) (id : NodeId) (g : Entry → Entry) : Forest :=
  { f with entries := f.entries.modify id g }

theorem get?_change (f : Forest) (id : NodeId) (g : Entry → Entry) (place : NodeId) :
    (f.change id g).get? place = if id = place then (f.get? place).map g else f.get? place := by
  rw [get?, change, Array.getElem?_modify]
  rfl

@[simp] theorem size_change (f : Forest) (id : NodeId) (g : Entry → Entry) :
    (f.change id g).entries.size = f.entries.size :=
  Array.size_modify

/-- The parent of a node. -/
def parent? (f : Forest) (id : NodeId) : Option NodeId :=
  (f.get? id).bind (·.parent)

/-- The nodes in a list. -/
def members (f : Forest) (row : RowId) : List NodeId :=
  f.rows[row]?.getD []

/-- The list in which the children of a container stand. A leaf has no such list. -/
def row? (f : Forest) (id : NodeId) : Option RowId :=
  match f.get? id with
  | some entry => if entry.element.isContainer then some entry.row else none
  | none => none

/-- The children of a container, and nothing for a leaf. -/
def children? (f : Forest) (id : NodeId) : Option (List NodeId) :=
  (f.row? id).map f.members

/-- The children of a node; a leaf has none. -/
def children (f : Forest) (id : NodeId) : List NodeId :=
  (f.children? id).getD []

/-- Whether a number is that of a container. -/
def isContainer (f : Forest) (id : NodeId) : Bool :=
  (f.row? id).isSome

/-- A container has the list that its entry names. -/
theorem row?_of_container {f : Forest} {id : NodeId} {entry : Entry} {container : Container}
    (h : f.get? id = some entry) (hc : entry.element = .container container) :
    f.row? id = some entry.row := by
  simp [row?, h, hc, Element.isContainer]

theorem row?_of_leaf {f : Forest} {id : NodeId} {entry : Entry} {leaf : Leaf}
    (h : f.get? id = some entry) (hl : entry.element = .leaf leaf) : f.row? id = none := by
  simp [row?, h, hl, Element.isContainer]

theorem children?_of_container {f : Forest} {id : NodeId} {entry : Entry} {container : Container}
    (h : f.get? id = some entry) (hc : entry.element = .container container) :
    f.children? id = some (f.members entry.row) := by
  rw [children?, row?_of_container h hc, Option.map_some]

theorem children?_of_leaf {f : Forest} {id : NodeId} {entry : Entry} {leaf : Leaf}
    (h : f.get? id = some entry) (hl : entry.element = .leaf leaf) : f.children? id = none := by
  rw [children?, row?_of_leaf h hl, Option.map_none]

/-- What is among the children of a node stands in the list that its entry names. -/
theorem exists_of_mem_children {f : Forest} {id child : NodeId} (h : child ∈ f.children id) :
    ∃ entry, f.get? id = some entry ∧ child ∈ f.members entry.row := by
  rw [children, children?, row?] at h
  cases hget : f.get? id with
  | none => simp [hget] at h
  | some entry =>
    refine ⟨entry, rfl, ?_⟩
    by_cases hc : entry.element.isContainer = true
    · simpa [hget, hc] using h
    · simp [hget, hc] at h

/-- Name the parent of a node. -/
def setParent (f : Forest) (id : NodeId) (parent : Option NodeId) : Forest :=
  f.change id fun entry => { entry with parent }

/-- Change the list of a node's children, for every node that has this list. -/
def setChildren (f : Forest) (id : NodeId) (g : List NodeId → List NodeId) : Forest :=
  match f.row? id with
  | some row => { f with rows := f.rows.modify row g }
  | none => f

/-- Make a list of nodes. -/
def hold (f : Forest) (children : List NodeId) : RowId × Forest :=
  (f.rows.size, { f with rows := f.rows.push children })

/-- Make a node over a list, with the parent that it is told. Once it has been checked, the node
becomes the parent of its children. -/
def make (f : Forest) (element : Element) (row : RowId) (parent : Option NodeId) :
    Except BuildError (NodeId × Forest) :=
  match element.defect? with
  | some defect => .error defect
  | none =>
    let id := f.entries.size
    let grown : Forest := { f with entries := f.entries.push { element, row, parent } }
    .ok (id, (grown.children id).foldl (fun f child => f.setParent child (some id)) grown)

/-- Make a node over a list of its own, without a parent. -/
def insert (f : Forest) (element : Element) (children : List NodeId) :
    Except BuildError (NodeId × Forest) :=
  let (row, held) := f.hold children
  held.make element row none

/-- Give a node another list of children; parents stay as they are. -/
def setRow (f : Forest) (id : NodeId) (row : RowId) : Forest :=
  f.change id fun entry => { entry with row }

/-- Give a node a new list of children. -/
def assign (f : Forest) (id : NodeId) (children : List NodeId) : Forest :=
  let (row, held) := f.hold children
  held.setRow id row

/-- Put a node after the children of another. -/
def append (f : Forest) (parent child : NodeId) : Forest :=
  (f.setParent child (some parent)).setChildren parent (· ++ [child])

/-- Take a position of the children out; parents stay as they are. -/
def removeAt (f : Forest) (parent : NodeId) (position : Nat) : Forest :=
  f.setChildren parent (·.eraseIdx position)

/-- Put a child in at a position, at the end when there is none; parents stay as they are. -/
def insertAt (f : Forest) (parent : NodeId) (position : Nat) (child : NodeId) : Forest :=
  f.setChildren parent fun children =>
    children.take position ++ child :: children.drop position

/-- Change a field of a node, with no check. -/
def edit (f : Forest) (id : NodeId) (change : Edit) : Forest :=
  f.change id fun entry => { entry with element := entry.element.edit change }

/-- The children among which a node looks for itself, and its place there. -/
def place? (f : Forest) (id : NodeId) : Option (List NodeId × Nat) := do
  let parent ← f.parent? id
  let siblings := f.children parent
  let position ← siblings.idxOf? id
  return (siblings, position)

/-- The sibling before a node. -/
def previous? (f : Forest) (id : NodeId) : Option NodeId :=
  match f.place? id with
  | some (siblings, position + 1) => siblings[position]?
  | _ => none

/-- The sibling after a node. -/
def next? (f : Forest) (id : NodeId) : Option NodeId :=
  match f.place? id with
  | some (siblings, position) => siblings[position + 1]?
  | none => none

/-- How many siblings stand before a node, counted up to a bound. -/
def countBefore (f : Forest) : Nat → NodeId → Nat
  | 0, _ => 0
  | bound + 1, id =>
    match f.previous? id with
    | some sibling => f.countBefore bound sibling + 1
    | none => 0

/-- The list that a node names as its parent, with its first number. -/
def parentList? (f : Forest) (id : NodeId) : Option (NodeId × Bool × Int) := do
  let parent ← f.parent? id
  match (← f.get? parent).element with
  | .container (.list ordered start) => return (parent, ordered, start)
  | _ => none

/-- The number of an item: that of its list and one more for each sibling before it. -/
def ordinal? (f : Forest) (id : NodeId) : Option Int :=
  (f.parentList? id).map fun (_, _, start) => start + f.countBefore f.entries.size id

/-- The slot of an item. -/
def slot (f : Forest) (id : NodeId) : Slot :=
  match f.parentList? id with
  | none => .stray
  | some (_, false, _) => .bullet
  | some (_, true, start) => .numbered (start + f.countBefore f.entries.size id)

/-- Collect the answers for a list of nodes, if there is one for each. -/
def collect {α : Type} (answer : NodeId → Option α) : List NodeId → Option (List α)
  | [] => some []
  | id :: rest =>
    match answer id, collect answer rest with
    | some a, some as => some (a :: as)
    | _, _ => none

/-- The tree below a node, if it is not deeper than the bound. -/
def treeWithin (f : Forest) : Nat → NodeId → Option Node
  | 0, _ => none
  | bound + 1, id =>
    match f.get? id with
    | none => none
    | some entry =>
      match entry.element with
      | .leaf l => some (.leaf l)
      | .container c => (collect (f.treeWithin bound) (f.members entry.row)).map (.branch c)

/-- The tree below a node, if it ends. -/
def tree? (f : Forest) (id : NodeId) : Option Node :=
  f.treeWithin (f.entries.size + 1) id

/-- The nodes below a node, each before its own children, within a bound on the depth. -/
def descendantsWithin (f : Forest) : Nat → NodeId → Option (List NodeId)
  | 0, _ => none
  | bound + 1, id =>
    (collect (fun child => (f.descendantsWithin bound child).map (child :: ·))
      ((f.children? id).getD [])).map List.flatten

/-- The nodes below a node, each before its own children. -/
def descendants? (f : Forest) (id : NodeId) : Option (List NodeId) :=
  f.descendantsWithin (f.entries.size + 1) id

/-- The visits of the tree below a node, within a bound on the depth. -/
def visitsWithin (f : Forest) : Nat → NodeId → Option (List Visit)
  | 0, _ => none
  | bound + 1, id =>
    match f.get? id with
    | none => none
    | some entry =>
      let visit (event : Event) : Visit := ⟨event, entry.element, f.slot id⟩
      match entry.element with
      | .leaf _ => some [visit .enter]
      | .container _ =>
        (collect (f.visitsWithin bound) (f.members entry.row)).map fun inner =>
          visit .enter :: (inner.flatten ++ [visit .exit])

/-- The visits of the tree below a node. -/
def visits? (f : Forest) (id : NodeId) : Option (List Visit) :=
  f.visitsWithin (f.entries.size + 1) id

/-- A cursor at a node. -/
def cursor (id : NodeId) : Cursor NodeId :=
  { root := id }

/-- The next event of a cursor, by the children as they are now. -/
def advance (f : Forest) (c : Cursor NodeId) : Cursor NodeId :=
  c.next f.children?

end Forest

end MarkdownLayout
