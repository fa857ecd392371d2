import MarkdownLayout.Text.Integer

/-!
# Document trees

A document is a tree of nodes. A leaf carries text or stands for a mark; a container carries a
list of children. Blocks and inline nodes share one type, as a tree is laid out whether or not its
nesting makes sense. `foreign` nodes are those of a kind that cannot be laid out.
-/

namespace MarkdownLayout

/-- The nodes without children. -/
inductive Leaf where
  /-- Code set off from the text, fenced when it has a non-empty info string. -/
  | codeBlock (content : String) (info : Option String)
  /-- Raw HTML set off from the text. -/
  | htmlBlock (content : String)
  /-- A rule between blocks. -/
  | thematicBreak
  /-- Running text. -/
  | text (content : String)
  /-- A line end that is kept. -/
  | lineBreak
  /-- A line end that may become a blank. -/
  | softBreak
  /-- Code within a line. -/
  | code (content : String)
  /-- Raw HTML within a line. -/
  | htmlInline (content : String)
  /-- A leaf of a kind unknown to the layout. -/
  | foreign (kind : String)
  deriving DecidableEq, Repr, Inhabited

/-- The nodes with children. -/
inductive Container where
  /-- A whole document. -/
  | document
  /-- A quotation. -/
  | blockQuote
  /-- A list, numbered from `start` when it is ordered. -/
  | list (ordered : Bool) (start : Int)
  /-- An item of a list. -/
  | listItem
  /-- A heading of the given level. -/
  | heading (level : Int)
  /-- A paragraph. -/
  | paragraph
  /-- Strong emphasis. -/
  | strong
  /-- Emphasis. -/
  | emphasis
  /-- A link to a destination. -/
  | link (url : String) (title : Option String)
  /-- An image; its children are the text that stands for it. -/
  | image (url : String) (title : Option String)
  /-- A container of a kind unknown to the layout. -/
  | foreign (kind : String)
  deriving DecidableEq, Repr, Inhabited

/-- A leaf or a container, without its children. -/
inductive Element where
  /-- A node without children. -/
  | leaf (leaf : Leaf)
  /-- A node with children. -/
  | container (container : Container)
  deriving DecidableEq, Repr, Inhabited

/-- A tree of nodes. -/
inductive Node where
  /-- A node without children. -/
  | leaf (leaf : Leaf)
  /-- A node with its children in order. -/
  | branch (container : Container) (children : List Node)
  deriving Repr, Inhabited

mutual

/-- Whether two trees are the same. -/
def Node.decideEq : (a b : Node) → Decidable (a = b)
  | .leaf l, .leaf m =>
    if h : l = m then isTrue (by rw [h]) else isFalse fun e => h (Node.leaf.inj e)
  | .branch c xs, .branch d ys =>
    if h : c = d then
      match Node.decideAllEq xs ys with
      | isTrue e => isTrue (by rw [h, e])
      | isFalse n => isFalse fun e => n (Node.branch.inj e).2
    else isFalse fun e => h (Node.branch.inj e).1
  | .leaf _, .branch _ _ => isFalse nofun
  | .branch _ _, .leaf _ => isFalse nofun

/-- Whether two lists of trees are the same. -/
def Node.decideAllEq : (xs ys : List Node) → Decidable (xs = ys)
  | [], [] => isTrue rfl
  | x :: xs, y :: ys =>
    match Node.decideEq x y, Node.decideAllEq xs ys with
    | isTrue h, isTrue e => isTrue (by rw [h, e])
    | isFalse n, _ => isFalse fun e => n (List.cons.inj e).1
    | _, isFalse n => isFalse fun e => n (List.cons.inj e).2
  | [], _ :: _ => isFalse nofun
  | _ :: _, [] => isFalse nofun

end

instance : DecidableEq Node := Node.decideEq

/-- Whether an optional text is there and not empty. -/
def isWritten (text : Option String) : Bool :=
  text.any fun s => !s.isEmpty

/-- The name of the node's kind. -/
def Leaf.kind : Leaf → String
  | .codeBlock .. => "CodeBlock"
  | .htmlBlock .. => "HTMLBlock"
  | .thematicBreak => "ThematicBreak"
  | .text .. => "Text"
  | .lineBreak => "LineBreak"
  | .softBreak => "SoftBreak"
  | .code .. => "Code"
  | .htmlInline .. => "HTMLInline"
  | .foreign kind => kind

/-- The name of the node's kind. -/
def Container.kind : Container → String
  | .document => "Document"
  | .blockQuote => "BlockQuote"
  | .list .. => "List"
  | .listItem => "ListItem"
  | .heading .. => "Heading"
  | .paragraph => "Paragraph"
  | .strong => "Strong"
  | .emphasis => "Emphasis"
  | .link .. => "Link"
  | .image .. => "Image"
  | .foreign kind => kind

/-- The name of the node's kind. -/
def Element.kind : Element → String
  | .leaf l => l.kind
  | .container c => c.kind

/-- Whether a node of this shape has children. -/
def Element.isContainer : Element → Bool
  | .leaf _ => false
  | .container _ => true

/-- A kind that stands on lines of its own. -/
def Element.isBlock : Element → Bool
  | .leaf l =>
    match l with
    | .codeBlock .. | .htmlBlock .. | .thematicBreak => true
    | _ => false
  | .container c =>
    match c with
    | .document | .blockQuote | .list .. | .listItem | .heading .. | .paragraph => true
    | _ => false

/-- A kind that stands within a line. -/
def Element.isInline : Element → Bool
  | .leaf l =>
    match l with
    | .text .. | .lineBreak | .softBreak | .code .. | .htmlInline .. => true
    | _ => false
  | .container c =>
    match c with
    | .strong | .emphasis | .link .. | .image .. => true
    | _ => false

/-- Whether a node is a code block that is laid out between fences. -/
def Element.isFenced : Element → Bool
  | .leaf (.codeBlock _ info) => isWritten info
  | _ => false

/-- A node's own part. -/
def Node.element : Node → Element
  | .leaf l => .leaf l
  | .branch c _ => .container c

/-- The children of a node; a leaf has none. -/
def Node.children : Node → List Node
  | .leaf _ => []
  | .branch _ children => children

/-- Why a container cannot be made. -/
inductive BuildError where
  /-- A list starts below zero. -/
  | listStart (start : Int)
  /-- A heading level is outside one to six. -/
  | headingLevel (level : Int)
  deriving DecidableEq, Repr, Inhabited

/-- The wording of the error. -/
def BuildError.message : BuildError → String
  | .listStart start => Text.withNumeral "List start must be non-negative, got " start
  | .headingLevel level => Text.withNumeral "Heading level must be 1-6, got " level

/-- What keeps a container from being made, if anything. -/
def Container.defect? : Container → Option BuildError
  | .list _ start => if start < 0 then some (.listStart start) else none
  | .heading level => if 1 ≤ level ∧ level ≤ 6 then none else some (.headingLevel level)
  | _ => none

/-- Put children under a container, once it has been checked. -/
def Node.build (container : Container) (children : List Node) : Except BuildError Node :=
  match container.defect? with
  | some defect => .error defect
  | none => .ok (.branch container children)

/-- A container is made exactly when nothing is wrong with it. -/
theorem Node.build_eq_ok_iff {container : Container} {children : List Node} {node : Node} :
    Node.build container children = .ok node ↔
      container.defect? = none ∧ node = .branch container children := by
  rw [Node.build]
  split
  · simp_all
  · simp_all [eq_comm]

end MarkdownLayout
