import MarkdownLayout.Node.Basic
import MarkdownLayout.Text.Quoted

/-!
# What nodes can be asked for

Every node can be visited, under a name that depends on its kind. Other questions are for nodes of
some kinds only; the wording of a question to any other node names the kind and what is asked for.
-/

namespace MarkdownLayout

/-- The name under which a visitor takes a leaf. -/
def Leaf.caseName : Leaf → String
  | .codeBlock .. => "code_block"
  | .htmlBlock _ => "html_block"
  | .thematicBreak => "thematic_break"
  | .text _ => "text"
  | .lineBreak => "line_break"
  | .softBreak => "soft_break"
  | .code _ => "code"
  | .htmlInline _ => "html_inline"
  | .foreign kind => kind

/-- The name under which a visitor takes a container. -/
def Container.caseName : Container → String
  | .document => "document"
  | .blockQuote => "block_quote"
  | .list .. => "list"
  | .listItem => "list_item"
  | .heading _ => "heading"
  | .paragraph => "paragraph"
  | .strong => "strong"
  | .emphasis => "emphasis"
  | .link .. => "link"
  | .image .. => "image"
  | .foreign kind => kind

/-- The name of the visitor's part that takes a node. -/
def Element.visitorName : Element → String
  | .leaf l => "visit_" ++ l.caseName
  | .container c => "visit_" ++ c.caseName

/-- What only nodes of some kinds can be asked for. -/
inductive Member where
  /-- To take one more child. -/
  | appendChild
  /-- The list of children. -/
  | children
  /-- The nodes below. -/
  | descendants
  /-- Whether code stands between fences. -/
  | isFenced
  /-- The number of a list item. -/
  | ordinal
  /-- The list that an item stands in. -/
  | parentList
  deriving DecidableEq, Repr

/-- The name under which it is asked for. -/
def Member.name : Member → String
  | .appendChild => "append_child"
  | .children => "children"
  | .descendants => "iter_descendants"
  | .isFenced => "is_fenced"
  | .ordinal => "ordinal"
  | .parentList => "parent_list"

/-- Whether a node of this shape can be asked for it. -/
def Element.offers (e : Element) : Member → Bool
  | .appendChild | .children | .descendants => e.isContainer
  | .isFenced =>
    match e with
    | .leaf (.codeBlock ..) => true
    | _ => false
  | .ordinal | .parentList => e = .container .listItem

/-- The wording of asking a node for what it does not offer. -/
def Element.lackMessage (e : Element) (member : Member) : String :=
  Text.quote e.kind ++ " object has no attribute " ++ Text.quote member.name

end MarkdownLayout
