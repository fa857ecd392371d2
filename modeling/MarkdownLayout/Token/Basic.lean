import MarkdownLayout.Datum

/-!
# Tokens

What a tokenizer makes of a text: a list of tokens, each with a kind, some text, some attributes
and tokens inside. Kinds that this library does not read keep their names.
-/

namespace MarkdownLayout

/-- The kinds of tokens. -/
inductive TokenKind where
  /-- A heading. -/
  | heading
  /-- A paragraph. -/
  | paragraph
  /-- The paragraph of a tight list item. -/
  | blockText
  /-- A code block. -/
  | blockCode
  /-- A quotation. -/
  | blockQuote
  /-- A list. -/
  | list
  /-- An item of a list. -/
  | listItem
  /-- A rule between blocks. -/
  | thematicBreak
  /-- Raw HTML between blocks. -/
  | blockHtml
  /-- An empty line. -/
  | blankLine
  /-- Running text. -/
  | text
  /-- Emphasis. -/
  | emphasis
  /-- Strong emphasis. -/
  | strong
  /-- Code within a line. -/
  | codeSpan
  /-- A line end that is kept. -/
  | lineBreak
  /-- A line end that may become a blank. -/
  | softBreak
  /-- Raw HTML within a line. -/
  | inlineHtml
  /-- A link. -/
  | link
  /-- An image. -/
  | image
  /-- Any other kind. -/
  | other (name : String)
  deriving DecidableEq, Repr

namespace TokenKind

/-- The kinds that have a name of their own. -/
def named : List (TokenKind × String) :=
  [(.heading, "heading"), (.paragraph, "paragraph"), (.blockText, "block_text"),
    (.blockCode, "block_code"), (.blockQuote, "block_quote"), (.list, "list"),
    (.listItem, "list_item"), (.thematicBreak, "thematic_break"), (.blockHtml, "block_html"),
    (.blankLine, "blank_line"), (.text, "text"), (.emphasis, "emphasis"), (.strong, "strong"),
    (.codeSpan, "codespan"), (.lineBreak, "linebreak"), (.softBreak, "softbreak"),
    (.inlineHtml, "inline_html"), (.link, "link"), (.image, "image")]

/-- The kind of a name. -/
def ofName (name : String) : TokenKind :=
  match named.find? (·.2 == name) with
  | some (kind, _) => kind
  | none => .other name

/-- The name of a kind. -/
def name : TokenKind → String
  | .other name => name
  | kind => (named.lookup kind).getD ""

/-- A kind with a name of its own is found by it. -/
theorem ofName_name (kind : TokenKind) (h : ∀ word, kind ≠ .other word) :
    ofName kind.name = kind := by
  cases kind with
  | other word => exact absurd rfl (h word)
  | _ => rfl

end TokenKind

/-- The attributes of a token that this library reads. -/
structure Attributes where
  /-- The level of a heading. -/
  level : Option Int := none
  /-- The info string of a code block. -/
  info : Option String := none
  /-- Whether a list is numbered. -/
  ordered : Bool := false
  /-- The first number of a list. -/
  start : Option Int := none
  /-- The destination of a link or an image. -/
  url : Option String := none
  /-- The title of a link or an image. -/
  title : Option String := none
  deriving DecidableEq, Repr

/-- A token. -/
inductive Token where
  /-- A token with its kind, its text, its attributes and the tokens inside it. -/
  | mk (kind : TokenKind) (raw : String) (attributes : Attributes) (children : List Token)
  deriving Repr

instance : Inhabited Token := ⟨.mk (.other "") "" {} []⟩

/-- The kind of a token. -/
def Token.kind : Token → TokenKind
  | .mk kind _ _ _ => kind

/-- What a tokenizer answers. -/
inductive Tokens where
  /-- A list of tokens. -/
  | list (tokens : List Token)
  /-- Something that is no list of tokens. -/
  | other (value : Datum)
  deriving Repr, Inhabited

end MarkdownLayout
