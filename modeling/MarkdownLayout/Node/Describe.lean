import MarkdownLayout.Node.Basic
import MarkdownLayout.Text.Quoted

/-!
# Trees in messages

The form in which a tree is shown: the kind of each node with its fields, the children last.
-/

namespace MarkdownLayout

/-- An optional text as messages show it. -/
def describeOptional : Option String → String
  | none => "None"
  | some s => Text.quote s

/-- A truth value as messages show it. -/
def describeFlag (b : Bool) : String :=
  if b then "True" else "False"

/-- The fields of a leaf as messages show them. -/
def Leaf.describeFields : Leaf → List String
  | .codeBlock content info =>
    ["content=" ++ Text.quote content, "info=" ++ describeOptional info]
  | .htmlBlock content | .text content | .code content | .htmlInline content =>
    ["content=" ++ Text.quote content]
  | .thematicBreak | .lineBreak | .softBreak | .foreign _ => []

/-- The fields of a container as messages show them, without the children. -/
def Container.describeFields? : Container → Option (List String)
  | .list ordered start =>
    (Text.numeral? start).map fun number =>
      ["ordered=" ++ describeFlag ordered, "start=" ++ number]
  | .heading level => (Text.numeral? level).map fun number => ["level=" ++ number]
  | .link url title | .image url title =>
    some ["url=" ++ Text.quote url, "title=" ++ describeOptional title]
  | _ => some []

mutual

/-- A tree as messages show it, when every number in it can be written. -/
def Node.describe? : Node → Option String
  | .leaf l => some (l.kind ++ "(" ++ ", ".intercalate l.describeFields ++ ")")
  | .branch c children => do
    let fields ← c.describeFields?
    let shown ← Node.describeAll? children
    let inner := "children=[" ++ ", ".intercalate shown ++ "]"
    return c.kind ++ "(" ++ ", ".intercalate (fields ++ [inner]) ++ ")"

/-- Trees as messages show them. -/
def Node.describeAll? : List Node → Option (List String)
  | [] => some []
  | child :: rest => do return (← child.describe?) :: (← Node.describeAll? rest)

end

end MarkdownLayout
