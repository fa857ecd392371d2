import MarkdownLayout.Node.Basic
import MarkdownLayout.Settings
import MarkdownLayout.Text.Blank
import MarkdownLayout.Token.Basic

/-!
# From tokens to trees

Blocks are read from block tokens and inline nodes from inline tokens; a token of any other kind
is passed over and noted. Raw HTML is left out on demand. A container is checked after all that
is inside it has been read.
-/

namespace MarkdownLayout

/-- A token that has been passed over. -/
inductive Skipped where
  /-- A token where a block was looked for. -/
  | block (kind : String)
  /-- A token where an inline node was looked for. -/
  | inline (kind : String)
  deriving DecidableEq, Repr

/-- The wording of the note. -/
def Skipped.message : Skipped → String
  | .block kind => "Skipping unsupported block token " ++ Text.quote kind
  | .inline kind => "Skipping unsupported inline token " ++ Text.quote kind

/-- The reading of tokens, with the notes taken so far. -/
abbrev Reading := EStateM BuildError (Array Skipped)

namespace Reading

/-- Pass over a token. -/
def skip (note : Skipped) : Reading (Option Node) := do
  modify (·.push note)
  return none

/-- Put children under a container, once it has been checked. -/
def make (container : Container) (children : List Node) : Reading Node :=
  match Node.build container children with
  | .ok node => pure node
  | .error e => throw e

end Reading

/-- An optional text that is there and not empty. -/
def written? (text : Option String) : Option String :=
  text.filter fun s => !s.isEmpty

namespace Attributes

/-- The info string without blanks around it, unless nothing is left. -/
def cleanInfo (a : Attributes) : Option String :=
  written? (a.info.map Text.strip)

/-- The list that the attributes describe; one without numbers starts at one. -/
def toList (a : Attributes) : Container :=
  .list a.ordered (if a.ordered then a.start.getD 1 else 1)

end Attributes

mutual

/-- Read an inline node. -/
def Token.toInline (s : ParseSettings) : Token → Reading (Option Node)
  | .mk kind raw attributes children =>
    match kind with
    | .text => return some (.leaf (.text raw))
    | .emphasis => do
      let inner ← Token.toInlines s children
      return some (.branch .emphasis inner)
    | .strong => do
      let inner ← Token.toInlines s children
      return some (.branch .strong inner)
    | .codeSpan => return some (.leaf (.code raw))
    | .lineBreak => return some (.leaf .lineBreak)
    | .softBreak => return some (.leaf .softBreak)
    | .inlineHtml => return if s.preserveHtml then some (.leaf (.htmlInline raw)) else none
    | .link => do
      let inner ← Token.toInlines s children
      return some (.branch (.link (attributes.url.getD "") (written? attributes.title)) inner)
    | .image => do
      let inner ← Token.toInlines s children
      return some (.branch (.image (attributes.url.getD "") (written? attributes.title)) inner)
    | kind => Reading.skip (.inline kind.name)

/-- Read inline nodes one after the other. -/
def Token.toInlines (s : ParseSettings) : List Token → Reading (List Node)
  | [] => return []
  | token :: rest => do
    let node ← token.toInline s
    let nodes ← Token.toInlines s rest
    return node.toList ++ nodes

end

mutual

/-- Read a block. -/
def Token.toBlock (s : ParseSettings) : Token → Reading (Option Node)
  | .mk kind raw attributes children =>
    match kind with
    | .heading => do
      let inner ← Token.toInlines s children
      let node ← Reading.make (.heading (attributes.level.getD 1)) inner
      return some node
    | .paragraph | .blockText => do
      let inner ← Token.toInlines s children
      return some (.branch .paragraph inner)
    | .blockCode => return some (.leaf (.codeBlock raw attributes.cleanInfo))
    | .blockQuote => do
      let inner ← Token.toBlocks s children
      return some (.branch .blockQuote inner)
    | .list => do
      let items ← Token.toItems s children
      let node ← Reading.make attributes.toList items
      return some node
    | .thematicBreak => return some (.leaf .thematicBreak)
    | .blockHtml => return if s.preserveHtml then some (.leaf (.htmlBlock raw)) else none
    | .blankLine => return none
    | kind => Reading.skip (.block kind.name)

/-- Read blocks one after the other. -/
def Token.toBlocks (s : ParseSettings) : List Token → Reading (List Node)
  | [] => return []
  | token :: rest => do
    let node ← token.toBlock s
    let nodes ← Token.toBlocks s rest
    return node.toList ++ nodes

/-- Read the items of a list; tokens of other kinds are left out. -/
def Token.toItems (s : ParseSettings) : List Token → Reading (List Node)
  | [] => return []
  | .mk .listItem _ _ children :: rest => do
    let inner ← Token.toBlocks s children
    let items ← Token.toItems s rest
    return .branch .listItem inner :: items
  | _ :: rest => Token.toItems s rest

end

/-- Read a document. -/
def Node.ofTokens (s : ParseSettings) (tokens : List Token) : Reading Node := do
  let blocks ← Token.toBlocks s tokens
  return .branch .document blocks

end MarkdownLayout
