import MarkdownLayout.Forest.Basic
import MarkdownLayout.Proofs.Defects

/-!
# Trees put into a forest

A tree is put into a forest node by node, children first, by the one operation that makes nodes.
The main statement is `exists_plant`: if nothing is wrong with its containers, the tree then stands
in the forest, every node names the node that holds it as its parent, the root names none, and
nothing else in the forest has changed.
-/

namespace MarkdownLayout

mutual

/-- Put a tree into a forest, children first. Each node is made over a list of its own. -/
def Node.plant : Node → Forest → Except BuildError (NodeId × Forest)
  | .leaf l, f => f.insert (.leaf l) []
  | .branch container children, f =>
    match Node.plantAll children f with
    | .ok (ids, f) => f.insert (.container container) ids
    | .error e => .error e

/-- Put trees into a forest one after the other. The first one that cannot be put in ends it. -/
def Node.plantAll : List Node → Forest → Except BuildError (List NodeId × Forest)
  | [], f => .ok ([], f)
  | node :: rest, f =>
    match node.plant f with
    | .ok (id, f) => (Node.plantAll rest f).map fun (ids, f) => (id :: ids, f)
    | .error e => .error e

end

mutual

/-- How many nodes lie on the longest way down from the root of a tree, the root itself
counted. -/
def Node.depth : Node → Nat
  | .leaf _ => 1
  | .branch _ children => Node.depthOf children + 1

/-- How many nodes lie on the longest way down in some trees. There are none where there is no
tree. -/
def Node.depthOf : List Node → Nat
  | [] => 0
  | node :: rest => max node.depth (Node.depthOf rest)

end

mutual

/-- A tree stands in a forest at a node: the node has the tree's own part, and its list holds the
nodes at which the tree's children stand. -/
def Node.StandsAt (f : Forest) : Node → NodeId → Prop
  | .leaf l, id => ∃ row parent, f.get? id = some ⟨.leaf l, row, parent⟩
  | .branch container children, id =>
    ∃ row ids parent, f.get? id = some ⟨.container container, row, parent⟩ ∧
      f.rows[row]? = some ids ∧ Node.StandAt f children ids

/-- Trees stand in a forest at as many nodes, the first tree at the first node and so on. -/
def Node.StandAt (f : Forest) : List Node → List NodeId → Prop
  | [], [] => True
  | node :: rest, id :: ids => node.StandsAt f id ∧ Node.StandAt f rest ids
  | _, _ => False

end

namespace Forest

/-- A number under which something is found is that of a node. -/
theorem lt_of_get? {f : Forest} {id : NodeId} {entry : Entry} (h : f.get? id = some entry) :
    id < f.entries.size :=
  (Array.getElem?_eq_some_iff.mp h).1

/-- What names a parent is a node. Nothing is said about the parent, which need not hold it. -/
theorem lt_of_parent? {f : Forest} {child holder : NodeId} (h : f.parent? child = some holder) :
    child < f.entries.size := by
  rw [parent?] at h
  obtain ⟨entry, hget, -⟩ := Option.bind_eq_some_iff.mp h
  exact lt_of_get? hget

/-- A forest grows into another: nodes stay, though they may name other parents, and lists of
children stay as they are. -/
structure GrowsInto (f g : Forest) : Prop where
  /-- Nodes stay, and keep their lists. -/
  nodes : ∀ id entry, f.get? id = some entry → ∃ parent, g.get? id = some { entry with parent }
  /-- Lists stay. -/
  rows : ∀ (row : RowId) (ids : List NodeId), f.rows[row]? = some ids → g.rows[row]? = some ids

/-- When many nodes name one parent, each of them does so afterwards, and no other node has
changed. -/
theorem get?_foldl_setParent (parent : Option NodeId) (ids : List NodeId) (f : Forest)
    (place : NodeId) :
    (ids.foldl (fun f id => f.setParent id parent) f).get? place =
      (f.get? place).map fun entry => if place ∈ ids then { entry with parent } else entry := by
  induction ids generalizing f with
  | nil => simp
  | cons id ids ih =>
    rw [List.foldl_cons, ih, setParent, get?_change]
    by_cases hid : id = place
    · subst hid
      simp only [if_true, Option.map_map, List.mem_cons_self]
      congr 1
      funext entry
      simp
    · simp [if_neg hid, List.mem_cons, Ne.symm hid]

/-- Naming parents makes no nodes, and leaves the lists alone. -/
theorem foldl_setParent_frame (parent : Option NodeId) (ids : List NodeId) (f : Forest) :
    (ids.foldl (fun f id => f.setParent id parent) f).entries.size = f.entries.size ∧
      (ids.foldl (fun f id => f.setParent id parent) f).rows = f.rows := by
  induction ids generalizing f with
  | nil => exact ⟨rfl, rfl⟩
  | cons id ids ih =>
    have hrest := ih (f.setParent id parent)
    rw [setParent, size_change] at hrest
    exact hrest

/-- The nodes of which a new node over a list becomes the parent. A leaf has no list, whatever
its entry says. -/
def adopted (f : Forest) (element : Element) (row : RowId) : List NodeId :=
  if element.isContainer then f.members row else []

/-- A node that can be made stands behind all others, with the list and the parent that it has
been given. What it adopts names it as its parent, and nothing else has changed. -/
theorem exists_make {element : Element} (h : element.defect? = none) (f : Forest) (row : RowId)
    (parent : Option NodeId) :
    ∃ g, f.make element row parent = .ok (f.entries.size, g) ∧
      g.entries.size = f.entries.size + 1 ∧ g.rows = f.rows ∧
      ∀ place, g.get? place =
        (if place = f.entries.size then some { element, row, parent } else f.get? place).map
          fun entry =>
            if place ∈ f.adopted element row then { entry with parent := some f.entries.size }
            else entry := by
  -- The children of the new node are looked up when it is there already.
  have hchildren : children { f with entries := f.entries.push { element, row, parent } }
      f.entries.size = f.adopted element row := by
    cases element <;> simp [children, children?, row?, get?, adopted, Element.isContainer, members]
  rw [make, h]
  refine ⟨_, rfl, ?_, ?_, fun place => ?_⟩
  · rw [(foldl_setParent_frame _ _ _).1, Array.size_push]
  · rw [(foldl_setParent_frame _ _ _).2]
  · rw [get?_foldl_setParent, hchildren, get?, Array.getElem?_push]
    rfl

/-- The same for a node that is made over a list of its own, without a parent. -/
theorem exists_insert {element : Element} (h : element.defect? = none) (f : Forest)
    {children : List NodeId} (hleaf : element.isContainer = false → children = []) :
    ∃ g, f.insert element children = .ok (f.entries.size, g) ∧
      g.entries.size = f.entries.size + 1 ∧ g.rows = f.rows.push children ∧
      ∀ place, g.get? place =
        (if place = f.entries.size then some { element, row := f.rows.size }
          else f.get? place).map fun entry =>
            if place ∈ children then { entry with parent := some f.entries.size } else entry := by
  have hadopted : (f.hold children).2.adopted element f.rows.size = children := by
    rw [adopted]
    split
    · simp [hold, members]
    · rename_i hc
      exact (hleaf (Bool.eq_false_iff.mpr hc)).symm
  have hmade := exists_make h (f.hold children).2 f.rows.size none
  rw [hadopted] at hmade
  exact hmade

end Forest

open Forest (GrowsInto)

mutual

/-- A tree that stands in a forest still stands there when the forest has grown. -/
theorem Node.StandsAt.grow {f g : Forest} (hfg : f.GrowsInto g) {node : Node} {id : NodeId}
    (h : node.StandsAt f id) : node.StandsAt g id := by
  match node with
  | .leaf l =>
    rw [Node.StandsAt] at h ⊢
    obtain ⟨row, parent, hget⟩ := h
    exact ⟨row, hfg.nodes id _ hget⟩
  | .branch container children =>
    rw [Node.StandsAt] at h ⊢
    obtain ⟨row, ids, parent, hget, hrow, hchildren⟩ := h
    obtain ⟨parent', hget'⟩ := hfg.nodes id _ hget
    exact ⟨row, ids, parent', hget', hfg.rows row ids hrow, hchildren.grow hfg⟩

/-- The same for many trees. -/
theorem Node.StandAt.grow {f g : Forest} (hfg : f.GrowsInto g) {nodes : List Node}
    {ids : List NodeId} (h : Node.StandAt f nodes ids) : Node.StandAt g nodes ids := by
  match nodes, ids with
  | [], [] => trivial
  | node :: rest, id :: ids =>
    rw [Node.StandAt] at h ⊢
    exact ⟨h.1.grow hfg, h.2.grow hfg⟩
  | [], _ :: _ => exact h
  | _ :: _, [] => exact h

end

mutual

/-- The tree that stands at a node is the one that is found there, by every bound that leaves
room for its longest way down. -/
theorem Node.StandsAt.treeWithin_eq {f : Forest} {node : Node} {id : NodeId}
    (h : node.StandsAt f id) {bound : Nat} (hb : node.depth ≤ bound) :
    f.treeWithin bound id = some node := by
  match node with
  | .leaf l =>
    rw [Node.StandsAt] at h
    obtain ⟨row, parent, hget⟩ := h
    rw [Node.depth] at hb
    obtain ⟨bound, rfl⟩ := Nat.exists_eq_succ_of_ne_zero (by omega : bound ≠ 0)
    rw [Forest.treeWithin, hget]
  | .branch container children =>
    rw [Node.StandsAt] at h
    obtain ⟨row, ids, parent, hget, hrow, hchildren⟩ := h
    rw [Node.depth] at hb
    obtain ⟨bound, rfl⟩ := Nat.exists_eq_succ_of_ne_zero (by omega : bound ≠ 0)
    rw [Forest.treeWithin, hget]
    dsimp only
    rw [Forest.members, hrow, Option.getD_some, hchildren.collect_eq (by omega)]
    rfl

/-- The trees that stand at some nodes are those that are collected there. -/
theorem Node.StandAt.collect_eq {f : Forest} {nodes : List Node} {ids : List NodeId}
    (h : Node.StandAt f nodes ids) {bound : Nat} (hb : Node.depthOf nodes ≤ bound) :
    Forest.collect (f.treeWithin bound) ids = some nodes := by
  match nodes, ids with
  | [], [] => rfl
  | node :: rest, id :: ids =>
    rw [Node.StandAt] at h
    rw [Node.depthOf] at hb
    rw [Forest.collect, h.1.treeWithin_eq (by omega), h.2.collect_eq (by omega)]
  | [], _ :: _ => cases h
  | _ :: _, [] => cases h

end

/-- Trees have been put into a forest at some nodes. The first forest is the one before, the
second one holds the trees. -/
structure Planted (f g : Forest) (nodes : List Node) (ids : List NodeId) : Prop where
  /-- There is room for the longest way down. -/
  size_le : f.entries.size + Node.depthOf nodes ≤ g.entries.size
  /-- The nodes that were there are as they were. -/
  frame : ∀ place < f.entries.size, g.get? place = f.get? place
  /-- The lists that were there are as they were. -/
  rows : ∀ (row : RowId) (children : List NodeId),
    f.rows[row]? = some children → g.rows[row]? = some children
  /-- The trees stand at new nodes, which nothing holds. -/
  fresh : ∀ id ∈ ids, f.entries.size ≤ id ∧ id < g.entries.size ∧ g.parent? id = none
  /-- The trees stand there. -/
  stand : Node.StandAt g nodes ids
  /-- A new node has a list, and what the list holds is new and names the node as its parent. -/
  held : ∀ holder entry, f.entries.size ≤ holder → g.get? holder = some entry →
    ∃ children, g.rows[entry.row]? = some children ∧
      ∀ child ∈ children, f.entries.size ≤ child ∧ g.parent? child = some holder

namespace Planted

variable {f g h : Forest} {node : Node} {nodes : List Node} {id : NodeId} {ids : List NodeId}

/-- Planting lets a forest grow, and even leaves the parents of its nodes alone. -/
theorem growsInto (hp : Planted f g nodes ids) : f.GrowsInto g where
  nodes place entry hget := ⟨entry.parent, by rw [hp.frame place (Forest.lt_of_get? hget), hget]⟩
  rows := hp.rows

/-- Where nothing is put in, nothing changes. -/
theorem nil (f : Forest) : Planted f f [] [] where
  size_le := Nat.le_refl _
  frame _ _ := rfl
  rows _ _ hrow := hrow
  fresh _ hm := by cases hm
  stand := trivial
  held holder entry hle hget := absurd (Forest.lt_of_get? hget) (Nat.not_lt_of_le hle)

/-- One tree is put in, then others. The later ones leave the first one alone, since they are made
of new nodes with new lists. -/
theorem cons (hfirst : Planted f g [node] [id]) (hrest : Planted g h nodes ids) :
    Planted f h (node :: nodes) (id :: ids) where
  size_le := by
    have h1 := hfirst.size_le
    have h2 := hrest.size_le
    simp only [Node.depthOf] at h1 ⊢
    omega
  frame place hlt := by
    have hle := hfirst.size_le
    rw [hrest.frame place (by omega), hfirst.frame place hlt]
  rows row children hrow := hrest.rows row children (hfirst.rows row children hrow)
  fresh other hm := by
    have hle := hfirst.size_le
    have hle' := hrest.size_le
    rcases List.mem_cons.mp hm with rfl | hm
    · have hid := hfirst.fresh other List.mem_cons_self
      rw [Forest.parent?, hrest.frame other hid.2.1]
      exact ⟨hid.1, Nat.lt_of_lt_of_le hid.2.1 (by omega), hid.2.2⟩
    · have hid := hrest.fresh other hm
      exact ⟨by omega, hid.2⟩
  stand := by
    rw [Node.StandAt]
    exact ⟨hfirst.stand.1.grow hrest.growsInto, hrest.stand⟩
  held holder entry hle hget := by
    have hsize := hfirst.size_le
    by_cases hlt : holder < g.entries.size
    · rw [hrest.frame holder hlt] at hget
      obtain ⟨children, hrow, hheld⟩ := hfirst.held holder entry hle hget
      refine ⟨children, hrest.rows _ _ hrow, fun child hm => ?_⟩
      have hchild := hheld child hm
      rw [Forest.parent?, hrest.frame child (Forest.lt_of_parent? hchild.2)]
      exact hchild
    · obtain ⟨children, hrow, hheld⟩ := hrest.held holder entry (Nat.le_of_not_lt hlt) hget
      refine ⟨children, hrow, fun child hm => ?_⟩
      have hchild := hheld child hm
      exact ⟨by omega, hchild.2⟩

/-- A node is put over trees that have been put in. Their roots are the only nodes whose parents
change. -/
theorem insert (hp : Planted f g nodes ids) {element : Element} (hd : element.defect? = none)
    (hleaf : element.isContainer = false → ids = []) {root : Node}
    (hdepth : root.depth ≤ Node.depthOf nodes + 1)
    (hroot : ∀ h : Forest, g.GrowsInto h →
      h.get? g.entries.size = some ⟨element, g.rows.size, none⟩ →
      h.rows[g.rows.size]? = some ids → root.StandsAt h g.entries.size) :
    ∃ h, g.insert element ids = .ok (g.entries.size, h) ∧ Planted f h [root] [g.entries.size] := by
  obtain ⟨h, hinsert, hsize, hrows, hget⟩ := Forest.exists_insert hd g hleaf
  have hle := hp.size_le
  have hnot : g.entries.size ∉ ids := fun hm => Nat.lt_irrefl _ (hp.fresh _ hm).2.1
  have hnew : h.get? g.entries.size = some ⟨element, g.rows.size, none⟩ := by
    rw [hget, if_pos rfl, Option.map_some, if_neg hnot]
  have hlist : h.rows[g.rows.size]? = some ids := by rw [hrows, Array.getElem?_push_size]
  have hkept : ∀ (row : RowId) (children : List NodeId), g.rows[row]? = some children →
      h.rows[row]? = some children := by
    intro row children hrow
    have hlt := (Array.getElem?_eq_some_iff.mp hrow).1
    rw [hrows, Array.getElem?_push, if_neg (Nat.ne_of_lt hlt), hrow]
  -- What has not been planted just now stays; the planted roots name their new parent.
  have hgrows : g.GrowsInto h := by
    refine ⟨fun place entry hentry => ?_, hkept⟩
    have hne : place ≠ g.entries.size := Nat.ne_of_lt (Forest.lt_of_get? hentry)
    rw [hget, if_neg hne, hentry]
    by_cases hm : place ∈ ids
    · exact ⟨some g.entries.size, by rw [Option.map_some, if_pos hm]⟩
    · exact ⟨entry.parent, by rw [Option.map_some, if_neg hm]⟩
  have hsame : ∀ place, place ∉ ids → place ≠ g.entries.size → h.get? place = g.get? place := by
    intro place hm hne
    rw [hget, if_neg hne]
    cases g.get? place <;> simp [hm]
  refine ⟨h, hinsert, ?_, ?_, ?_, ?_, ?_, ?_⟩
  · simp only [Node.depthOf]
    omega
  · intro place hlt
    have hm : place ∉ ids := fun hm => Nat.not_le_of_lt hlt (hp.fresh place hm).1
    have hne : place ≠ g.entries.size := Nat.ne_of_lt (Nat.lt_of_lt_of_le hlt (by omega))
    rw [hsame place hm hne, hp.frame place hlt]
  · exact fun row children hrow => hkept row children (hp.rows row children hrow)
  · intro id hid
    rw [List.mem_singleton.mp hid, Forest.parent?, hnew]
    have hgrown : g.entries.size < h.entries.size := by omega
    exact ⟨by omega, hgrown, rfl⟩
  · rw [Node.StandAt]
    exact ⟨hroot h hgrows hnew hlist, trivial⟩
  · intro holder entry hholder hentry
    by_cases hlast : holder = g.entries.size
    · rw [hlast, hnew] at hentry
      cases hentry
      refine ⟨ids, hlist, fun child hin => ?_⟩
      have hchild := hp.fresh child hin
      refine ⟨hchild.1, ?_⟩
      obtain ⟨found, hfound⟩ : ∃ found, g.get? child = some found :=
        ⟨_, Array.getElem?_eq_getElem hchild.2.1⟩
      rw [Forest.parent?, hget, if_neg (Nat.ne_of_lt hchild.2.1), hfound, Option.map_some,
        if_pos hin, hlast]
      rfl
    · have hold : ∃ before, g.get? holder = some before ∧ before.row = entry.row := by
        rw [hget, if_neg hlast] at hentry
        obtain ⟨before, hbefore, rfl⟩ := Option.map_eq_some_iff.mp hentry
        exact ⟨before, hbefore, by split <;> rfl⟩
      obtain ⟨before, hbefore, hrow⟩ := hold
      obtain ⟨children, hchildren, hheld⟩ := hp.held holder before hholder hbefore
      rw [hrow] at hchildren
      refine ⟨children, hkept _ _ hchildren, fun child hm => ?_⟩
      have hchild := hheld child hm
      have hin : child ∉ ids := by
        intro hin
        rw [(hp.fresh child hin).2.2] at hchild
        cases hchild.2
      rw [Forest.parent?, hsame child hin (Nat.ne_of_lt (Forest.lt_of_parent? hchild.2))]
      exact hchild

end Planted

mutual

/-- A tree can be put into any forest if nothing is wrong with its containers. It then stands
there, and all that was there before has stayed. -/
theorem Node.exists_plant {parent : Option Container} {position : Nat} (node : Node)
    (hsites : ∀ site ∈ node.sites parent position, ∀ container,
      site.element = .container container → container.defect? = none) (f : Forest) :
    ∃ id g, node.plant f = .ok (id, g) ∧ Planted f g [node] [id] := by
  match node with
  | .leaf l =>
    have hl : (Element.leaf l).defect? = none := rfl
    obtain ⟨g, hinsert, hplanted⟩ := (Planted.nil f).insert hl (fun _ => rfl)
      (Nat.le_refl (Node.leaf l).depth) fun _ _ hget _ => by
        rw [Node.StandsAt]
        exact ⟨_, _, hget⟩
    exact ⟨_, g, by rw [Node.plant, hinsert], hplanted⟩
  | .branch container children =>
    have hc : (Element.container container).defect? = none := by
      refine hsites ⟨parent, position, .container container⟩ ?_ container rfl
      rw [Node.sites]
      exact List.mem_cons_self
    have hbelow : ∀ site ∈ Node.sitesOf container 0 children, ∀ other,
        site.element = .container other → other.defect? = none := by
      intro site hm
      refine hsites site ?_
      rw [Node.sites]
      exact List.mem_cons_of_mem _ hm
    obtain ⟨ids, g, hplant, hplanted⟩ := Node.exists_plantAll children hbelow f
    obtain ⟨h, hinsert, hroot⟩ := hplanted.insert hc Bool.noConfusion
      (Nat.le_refl (Node.branch container children).depth) fun h hgrows hget hlist => by
        rw [Node.StandsAt]
        exact ⟨_, ids, none, hget, hlist, hplanted.stand.grow hgrows⟩
    refine ⟨_, h, ?_, hroot⟩
    rw [Node.plant, hplant]
    exact hinsert

/-- The same for trees that are put in one after the other, as children of one container from a
position on. -/
theorem Node.exists_plantAll {parent : Container} {position : Nat} (nodes : List Node)
    (hsites : ∀ site ∈ Node.sitesOf parent position nodes, ∀ container,
      site.element = .container container → container.defect? = none) (f : Forest) :
    ∃ ids g, Node.plantAll nodes f = .ok (ids, g) ∧ Planted f g nodes ids := by
  match nodes with
  | [] => exact ⟨[], f, rfl, .nil f⟩
  | node :: rest =>
    rw [Node.sitesOf] at hsites
    obtain ⟨id, g, hplant, hfirst⟩ := Node.exists_plant node
      (fun site hm => hsites site (List.mem_append_left _ hm)) f
    obtain ⟨ids, h, hplantAll, hrest⟩ := Node.exists_plantAll rest
      (fun site hm => hsites site (List.mem_append_right _ hm)) g
    refine ⟨id :: ids, h, ?_, hfirst.cons hrest⟩
    rw [Node.plantAll, hplant]
    dsimp only
    rw [hplantAll]
    rfl

end

/-- A tree that is put into an empty forest is found there again, its root has no parent, and what
a node holds names it as its parent. -/
theorem Node.exists_plant_empty {parent : Option Container} {position : Nat} {node : Node}
    (hsites : ∀ site ∈ node.sites parent position, ∀ container,
      site.element = .container container → container.defect? = none) :
    ∃ id f, node.plant {} = .ok (id, f) ∧ f.tree? id = some node ∧ f.parent? id = none ∧
      ∀ holder, ∀ child ∈ f.children holder, f.parent? child = some holder := by
  obtain ⟨id, f, hplant, hplanted⟩ := Node.exists_plant node hsites {}
  refine ⟨id, f, hplant, ?_, (hplanted.fresh id List.mem_cons_self).2.2, fun holder child hm => ?_⟩
  · have hsize := hplanted.size_le
    simp only [Node.depthOf] at hsize
    exact hplanted.stand.1.treeWithin_eq (by omega)
  · obtain ⟨entry, hget, hin⟩ := Forest.exists_of_mem_children hm
    obtain ⟨children, hrow, hheld⟩ := hplanted.held holder entry (Nat.zero_le _) hget
    rw [Forest.members, hrow, Option.getD_some] at hin
    exact (hheld child hin).2

end MarkdownLayout
