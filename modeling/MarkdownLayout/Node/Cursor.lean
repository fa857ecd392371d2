import MarkdownLayout.Node.Visit

/-!
# Cursors

A cursor walks over anything whose children can be looked up, one event at a time. It keeps the
open containers, each with the position of the child to visit next, and looks the children up
again at every step: a walk goes on when the tree changes under it.
-/

namespace MarkdownLayout

/-- A walk in progress. -/
structure Cursor (ν : Type) where
  /-- The node where the walk begins. -/
  root : ν
  /-- Whether the root has been entered. -/
  started : Bool := false
  /-- The open containers, the innermost first, with the position of their next child. -/
  stack : List (ν × Nat) := []
  /-- The node of the last event. -/
  node : Option ν := none
  /-- The last event. -/
  event : Option Event := none
  deriving DecidableEq, Repr

namespace Cursor

variable {ν : Type}

/-- Enter a node; a container is kept open. -/
def enter (children? : ν → Option (List ν)) (node : ν) (c : Cursor ν) : Cursor ν :=
  { c with
    stack := if (children? node).isSome then (node, 0) :: c.stack else c.stack
    node := some node
    event := some .enter }

/-- Go to the next event. A walk that is over stays over. -/
def next (children? : ν → Option (List ν)) (c : Cursor ν) : Cursor ν :=
  if c.event = some .done then c
  else if c.started = false then { c with started := true }.enter children? c.root
  else
    match c.stack with
    | [] => { c with node := none, event := some .done }
    | (container, position) :: rest =>
      match ((children? container).getD [])[position]? with
      | some child =>
        { c with stack := (container, position + 1) :: rest }.enter children? child
      | none => { c with stack := rest, node := some container, event := some .exit }

/-- A walk that is over stays over. -/
theorem next_of_done {children? : ν → Option (List ν)} {c : Cursor ν}
    (h : c.event = some .done) : c.next children? = c := by
  rw [next, if_pos h]

/-- The events of at most `steps` steps, up to the end of the walk. -/
def take (children? : ν → Option (List ν)) : Nat → Cursor ν → List (Event × ν)
  | 0, _ => []
  | steps + 1, c =>
    let c := c.next children?
    match c.event, c.node with
    | some .done, _ | none, _ | _, none => []
    | some event, some node => (event, node) :: take children? steps c

end Cursor

end MarkdownLayout
