import MarkdownLayout.Node.Basic

/-!
# Visits

A tree is laid out from a flat list of visits: a leaf is entered, a container is entered, then its
children are visited in order, then it is left. A visit also tells a list item where it stands.
-/

namespace MarkdownLayout

/-- Where a list item stands. -/
inductive Slot where
  /-- Outside any list. -/
  | stray
  /-- In a list without numbers. -/
  | bullet
  /-- In a numbered list, under the given number. -/
  | numbered (ordinal : Int)
  deriving DecidableEq, Repr

/-- The slot of the child at a position of a container. -/
def Container.slot : Container → Nat → Slot
  | .list true start, position => .numbered (start + position)
  | .list false _, _ => .bullet
  | _, _ => .stray

/-- What happens to a node during a walk. -/
inductive Event where
  /-- The node is reached. -/
  | enter
  /-- A container is left after its children. -/
  | exit
  /-- The walk is over. -/
  | done
  deriving DecidableEq, Repr

/-- One step of the layout of a tree. -/
structure Visit where
  /-- What happens. -/
  event : Event
  /-- The node it happens to. -/
  element : Element
  /-- Where the node stands, if it is a list item. -/
  slot : Slot
  deriving DecidableEq, Repr

mutual

/-- The visits of a node that stands in the given slot. -/
def Node.visitsIn (slot : Slot) : Node → List Visit
  | .leaf l => [⟨.enter, .leaf l, slot⟩]
  | .branch container children =>
    ⟨.enter, .container container, slot⟩ ::
      (Node.visitsUnder container 0 children ++ [⟨.exit, .container container, slot⟩])

/-- The visits of the children of a container, from the given position on. -/
def Node.visitsUnder (container : Container) (position : Nat) : List Node → List Visit
  | [] => []
  | child :: rest =>
    child.visitsIn (container.slot position) ++ Node.visitsUnder container (position + 1) rest

end

/-- The visits of a tree whose root has no parent. -/
def Node.visits (root : Node) : List Visit :=
  root.visitsIn .stray

mutual

/-- The nodes below a node, each before its own children. -/
def Node.descendants : Node → List Node
  | .leaf _ => []
  | .branch _ children => Node.preorderOf children

/-- A list of trees, each before its descendants. -/
def Node.preorderOf : List Node → List Node
  | [] => []
  | child :: rest => child :: (child.descendants ++ Node.preorderOf rest)

end

/-- The node at a path of child positions, with its slot. -/
def Node.locate (slot : Slot) : Node → List Nat → Option (Node × Slot)
  | node, [] => some (node, slot)
  | .leaf _, _ :: _ => none
  | .branch container children, position :: path =>
    match children[position]? with
    | some child => child.locate (container.slot position) path
    | none => none

end MarkdownLayout
