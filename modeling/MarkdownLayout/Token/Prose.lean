import MarkdownLayout.Text.Blank
import MarkdownLayout.Text.Cut
import MarkdownLayout.Token.Basic

/-!
# Plain prose

The simplest tokenizer: paragraphs stand between blank lines, and the lines of a paragraph are
joined by line ends that may become blanks. Nothing in a line is taken for markup.
-/

namespace MarkdownLayout

/-- Put lines together that have no blank line between them. -/
def paragraphsOf : List (List Char) → List (List (List Char))
  | [] => []
  | line :: rest =>
    if line.all Text.isBlank then [] :: paragraphsOf rest
    else
      match paragraphsOf rest with
      | [] => [[line]]
      | lines :: others => (line :: lines) :: others

/-- A line as a token. -/
def Token.ofLine (line : List Char) : Token :=
  .mk .text (String.ofList (Text.trimBoth Text.isBlank line)) {} []

/-- Lines as a paragraph. -/
def Token.ofLines (lines : List (List Char)) : Token :=
  .mk .paragraph "" {} ((lines.map Token.ofLine).intersperse (.mk .softBreak "" {} []))

/-- The tokens of plain prose. -/
def Tokens.ofProse (text : String) : Tokens :=
  .list (((paragraphsOf (Text.cutAt '\n' text.toList)).filter (!·.isEmpty)).map Token.ofLines)

end MarkdownLayout
