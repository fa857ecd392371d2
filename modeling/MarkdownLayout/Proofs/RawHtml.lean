import MarkdownLayout.Proofs.Defects
import MarkdownLayout.Reformat

/-!
# Trees without raw HTML

Raw HTML may be left out while tokens are read, or be taken out of the tree that has been read with
it. The outcome is the same, `parse_without_html`: one tree, or one error, and the same notes on
what was passed over. That raw HTML is taken out and nothing else is `Node.unplaced_withoutHtml`.

The setting is looked at in two recursions, one inside the other. What carries the induction is that
a reading followed by another is left with the part that is kept, `Reading.KeepsPart.bind`.
-/

namespace MarkdownLayout

/-- A leaf that is raw HTML. -/
def Leaf.isHtml : Leaf → Bool
  | .htmlBlock _ | .htmlInline _ => true
  | _ => false

mutual

/-- What is left of a tree without raw HTML, if anything. -/
def Node.withoutHtml? : Node → Option Node
  | .leaf l => if l.isHtml then none else some (.leaf l)
  | .branch container children => some (.branch container (Node.dropHtml children))

/-- What is left of trees without raw HTML. -/
def Node.dropHtml : List Node → List Node
  | [] => []
  | child :: rest => child.withoutHtml?.toList ++ Node.dropHtml rest

end

/-- A tree without the raw HTML below its root. -/
def Node.withoutHtml : Node → Node
  | .leaf l => .leaf l
  | .branch container children => .branch container (Node.dropHtml children)

theorem Node.dropHtml_append (nodes more : List Node) :
    Node.dropHtml (nodes ++ more) = Node.dropHtml nodes ++ Node.dropHtml more := by
  induction nodes with
  | nil => rfl
  | cons node rest ih => rw [List.cons_append, dropHtml, dropHtml, ih, List.append_assoc]

/-- What is left of a tree is what is left of the list that holds it. -/
theorem Node.dropHtml_toList (node : Option Node) :
    Node.dropHtml node.toList = (node.bind Node.withoutHtml?).toList := by
  cases node with
  | none => rfl
  | some node =>
    rw [Option.toList_some, dropHtml, dropHtml, List.append_nil]
    rfl

/-- A node that is raw HTML. -/
def Site.isHtml (site : Site) : Bool :=
  match site.element with
  | .leaf l => l.isHtml
  | .container _ => false

/-- A node and the container in which it stands, at whatever position. -/
def Site.unplaced (site : Site) : Option Container × Element :=
  (site.parent, site.element)

theorem Node.sitesOf_append (parent : Container) (position : Nat) (nodes more : List Node) :
    Node.sitesOf parent position (nodes ++ more) =
      Node.sitesOf parent position nodes ++ Node.sitesOf parent (position + nodes.length) more := by
  induction nodes generalizing position with
  | nil => rfl
  | cons node rest ih =>
    rw [List.cons_append, sitesOf, sitesOf, ih, List.append_assoc, List.length_cons, Nat.add_assoc,
      Nat.add_comm 1]

mutual

/-- The nodes that are left of a tree are those that are no raw HTML. Positions may change. -/
theorem Node.unplaced_withoutHtml? (parent : Container) (position before : Nat) (node : Node) :
    (Node.sitesOf parent position node.withoutHtml?.toList).map Site.unplaced =
      ((node.sites (some parent) before).filter (!·.isHtml)).map Site.unplaced := by
  match node with
  | .leaf l =>
    rw [Node.withoutHtml?, Node.sites]
    cases h : l.isHtml <;> simp [Site.isHtml, h, Node.sitesOf, Node.sites, Site.unplaced]
  | .branch container children =>
    rw [Node.withoutHtml?, Node.sites, List.filter_cons_of_pos rfl, List.map_cons,
      ← Node.unplaced_dropHtml container 0 0]
    simp [Node.sitesOf, Node.sites, Site.unplaced]

/-- So it is for the trees in a container. -/
theorem Node.unplaced_dropHtml (parent : Container) (position before : Nat) (nodes : List Node) :
    (Node.sitesOf parent position (Node.dropHtml nodes)).map Site.unplaced =
      ((Node.sitesOf parent before nodes).filter (!·.isHtml)).map Site.unplaced := by
  match nodes with
  | [] => rfl
  | node :: rest =>
    rw [Node.dropHtml, Node.sitesOf_append, Node.sitesOf, List.filter_append, List.map_append,
      List.map_append, Node.unplaced_withoutHtml? parent position before node,
      Node.unplaced_dropHtml parent _ (before + 1) rest]

end

/-- Raw HTML is taken out of a tree at every depth. All other nodes stay, in their order and in the
containers in which they stand. -/
theorem Node.unplaced_withoutHtml (container : Container) (children : List Node)
    (parent : Option Container) (position : Nat) :
    (((Node.branch container children).withoutHtml).sites parent position).map Site.unplaced =
      (((Node.branch container children).sites parent position).filter (!·.isHtml)).map
        Site.unplaced := by
  rw [Node.withoutHtml, Node.sites, Node.sites, List.filter_cons_of_pos rfl, List.map_cons,
    List.map_cons, Node.unplaced_dropHtml container 0 0]

/-- The choice to read tokens with raw HTML. -/
def ParseSettings.withHtml : ParseSettings := { preserveHtml := true }

/-- The choice to leave raw HTML out. -/
def ParseSettings.noHtml : ParseSettings := { preserveHtml := false }

namespace Reading

variable {α β γ δ : Type}

/-- A reading comes out like another one, except that only a part of the result is kept. Errors and
notes are the same. -/
def KeepsPart (part : α → β) (reading : Reading β) (whole : Reading α) : Prop :=
  reading = part <$> whole

theorem KeepsPart.pure (part : α → β) (a : α) : KeepsPart part (pure (part a)) (pure a) :=
  (map_pure part a).symm

/-- What follows is read from the part that is kept. -/
theorem KeepsPart.bind {part : α → β} {piece : γ → δ} {reading : Reading β} {whole : Reading α}
    {next : β → Reading δ} {full : α → Reading γ} (h : KeepsPart part reading whole)
    (hnext : ∀ a, KeepsPart piece (next (part a)) (full a)) :
    KeepsPart piece (reading >>= next) (whole >>= full) := by
  have hfull : (fun a => next (part a)) = fun a => piece <$> full a := funext hnext
  rw [KeepsPart, h, map_bind, bind_map_left, hfull]

end Reading

namespace Token

open Reading (KeepsPart)
open ParseSettings (withHtml noHtml)

/-- What is left of a node that may have been read. -/
def left (node : Option Node) : Option Node :=
  node.bind Node.withoutHtml?

/-- What is left of nodes is what is left of each. -/
theorem dropHtml_left (node : Option Node) (nodes : List Node) :
    Node.dropHtml (node.toList ++ nodes) = (left node).toList ++ Node.dropHtml nodes := by
  rw [Node.dropHtml_append, Node.dropHtml_toList, left]

/-- A container is kept with what is left inside. -/
theorem keepsPart_branch (container : Container) {reading whole : Reading (List Node)}
    (h : KeepsPart Node.dropHtml reading whole) :
    KeepsPart left (do return some (.branch container (← reading)))
      (do return some (.branch container (← whole))) :=
  h.bind fun inner => .pure left (some (.branch container inner))

mutual

/-- An inline node is read without raw HTML, or with it and left without. -/
theorem keepsPart_toInline (token : Token) :
    KeepsPart left (token.toInline noHtml) (token.toInline withHtml) := by
  match token with
  | .mk kind raw attributes children =>
    have hinner := keepsPart_toInlines children
    cases kind with
    | emphasis | strong | link | image =>
      rw [toInline, toInline]
      exact keepsPart_branch _ hinner
    | _ => exact rfl

theorem keepsPart_toInlines (tokens : List Token) :
    KeepsPart Node.dropHtml (toInlines noHtml tokens) (toInlines withHtml tokens) := by
  match tokens with
  | [] => exact rfl
  | token :: rest =>
    rw [toInlines, toInlines]
    refine (keepsPart_toInline token).bind fun node => ?_
    refine (keepsPart_toInlines rest).bind fun nodes => ?_
    rw [← dropHtml_left]
    exact .pure Node.dropHtml (node.toList ++ nodes)

end

/-- A container that is checked is kept with what is left inside, or refused in both cases. -/
theorem keepsPart_make (container : Container) {reading whole : Reading (List Node)}
    (h : KeepsPart Node.dropHtml reading whole) :
    KeepsPart left
      (do
        let node ← Reading.make container (← reading)
        return some node)
      (do
        let node ← Reading.make container (← whole)
        return some node) := by
  refine h.bind fun inner => ?_
  rw [Reading.make, Reading.make, Node.build, Node.build]
  cases container.defect? with
  | some defect => rfl
  | none => rfl

mutual

/-- A block is read without raw HTML, or with it and left without. -/
theorem keepsPart_toBlock (token : Token) :
    KeepsPart left (token.toBlock noHtml) (token.toBlock withHtml) := by
  match token with
  | .mk kind raw attributes children =>
    have hinner := keepsPart_toInlines children
    cases kind with
    | heading =>
      rw [toBlock, toBlock]
      exact keepsPart_make _ hinner
    | paragraph | blockText =>
      rw [toBlock, toBlock]
      exact keepsPart_branch .paragraph hinner
    | blockQuote =>
      rw [toBlock, toBlock]
      exact keepsPart_branch .blockQuote (keepsPart_toBlocks children)
    | list =>
      rw [toBlock, toBlock]
      exact keepsPart_make _ (keepsPart_toItems children)
    | _ => exact rfl

theorem keepsPart_toBlocks (tokens : List Token) :
    KeepsPart Node.dropHtml (toBlocks noHtml tokens) (toBlocks withHtml tokens) := by
  match tokens with
  | [] => exact rfl
  | token :: rest =>
    rw [toBlocks, toBlocks]
    refine (keepsPart_toBlock token).bind fun node => ?_
    refine (keepsPart_toBlocks rest).bind fun nodes => ?_
    rw [← dropHtml_left]
    exact .pure Node.dropHtml (node.toList ++ nodes)

/-- Items stay, whatever is left in them. -/
theorem keepsPart_toItems (tokens : List Token) :
    KeepsPart Node.dropHtml (toItems noHtml tokens) (toItems withHtml tokens) := by
  match tokens with
  | [] => exact rfl
  | .mk kind raw attributes children :: rest =>
    by_cases hkind : kind = .listItem
    · subst hkind
      rw [toItems, toItems]
      refine (keepsPart_toBlocks children).bind fun inner => ?_
      refine (keepsPart_toItems rest).bind fun items => ?_
      exact .pure Node.dropHtml (.branch .listItem inner :: items)
    · have hother : ∀ a b c, Token.mk kind raw attributes children ≠ .mk .listItem a b c :=
        fun _ _ _ he => hkind (Token.mk.inj he).1
      rw [toItems, toItems]
      · exact keepsPart_toItems rest
      · exact hother
      · exact hother

end

end Token

/-- A document is read without raw HTML, or with it and left without. -/
theorem Node.keepsPart_ofTokens (tokens : List Token) :
    Reading.KeepsPart Node.withoutHtml (Node.ofTokens .noHtml tokens)
      (Node.ofTokens .withHtml tokens) := by
  rw [Node.ofTokens, Node.ofTokens]
  refine (Token.keepsPart_toBlocks tokens).bind fun blocks => ?_
  exact .pure Node.withoutHtml (.branch .document blocks)

/-- The same records are made of the same notes. -/
theorem readTokens_noHtml (host : Host) (tokens : List Token) :
    readTokens host .noHtml tokens = Node.withoutHtml <$> readTokens host .withHtml tokens := by
  funext s
  have hread : Node.ofTokens .noHtml tokens #[] =
      EStateM.map Node.withoutHtml (Node.ofTokens .withHtml tokens) #[] :=
    congrFun (Node.keepsPart_ofTokens tokens) #[]
  show readTokens host .noHtml tokens s =
    EStateM.map Node.withoutHtml (readTokens host .withHtml tokens) s
  rw [readTokens, EStateM.map, readTokens, hread, EStateM.map]
  cases Node.ofTokens .withHtml tokens #[] with
  | ok root notes => rfl
  | error error notes => rfl

/-- To leave raw HTML out while tokens are read is to read them with it and take it out of the tree,
at every depth. For every list of tokens the outcome is the same: the same notes, and the same error
or the same tree. So it is for a document that is read from any source with any tokenizer, in any
session. -/
theorem parse_without_html :
    (∀ tokens : List Token,
      Node.ofTokens { preserveHtml := false } tokens =
        Node.withoutHtml <$> Node.ofTokens { preserveHtml := true } tokens) ∧
    ∀ (host : Host) (source : Source),
      parseSource host { preserveHtml := false } source =
        Node.withoutHtml <$> parseSource host { preserveHtml := true } source := by
  refine ⟨Node.keepsPart_ofTokens, fun host source => ?_⟩
  have hread : readTokens host { preserveHtml := false } =
      fun tokens => Node.withoutHtml <$> readTokens host { preserveHtml := true } tokens :=
    funext (readTokens_noHtml host)
  simp only [parseSource, map_bind, hread]

end MarkdownLayout
