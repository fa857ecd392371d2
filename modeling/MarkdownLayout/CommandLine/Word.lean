import MarkdownLayout.CommandLine.Flag
import MarkdownLayout.Text.Cut

/-!
# Words of the command line

Every word up to the mark that ends the options is an operand, an option, or strange; what comes
after the mark are operands. An option may be named by the beginning of its name, and its value
may stand in the same word.
-/

namespace MarkdownLayout.CommandLine

/-- The mark that ends the options. -/
def endMark : String := "--"

/-- What a word of the command line is. -/
inductive Word where
  /-- A word that names something to work on. -/
  | operand (text : String)
  /-- An option by one of its names, with a value that stands in the same word. -/
  | option (flag : Flag) (name : String) (attached : Option String)
  /-- A word that looks like an option and is none. -/
  | strange (text : String)
  /-- The mark that ends the options. -/
  | ending
  deriving DecidableEq, Repr

/-- The word as it is written, unless it is an option. -/
def Word.text : Word → String
  | .operand text | .strange text => text
  | .option _ name _ => name
  | .ending => endMark

/-- The text before the first equals sign and the text after it. -/
def splitValue (text : String) : Option (String × String) :=
  (Text.cutOnce '=' text.toList).map fun (name, value) => (String.ofList name, String.ofList value)

/-- The options whose name begins with a text. -/
def fitting (start : String) : List (String × Flag) :=
  Flag.table.filter fun (name, _) => start.toList.isPrefixOf name.toList

/-- The options that a word with two dashes may stand for, with the value in the word. -/
def longCandidates (text : String) : List Word :=
  let (start, value) :=
    match splitValue text with
    | some (start, value) => (start, some value)
    | none => (text, none)
  (fitting start).map fun (name, flag) => .option flag name value

/-- The options that a word with one dash may stand for, with the value in the word. -/
def shortCandidates (text : String) : List Word :=
  let short := String.ofList (text.toList.take 2)
  (Flag.table.filter (·.1 == short)).map fun (name, flag) =>
    .option flag name (some (String.ofList (text.toList.drop 2)))

/-- The options that a word may stand for. -/
def candidates (text : String) : List Word :=
  match text.toList with
  | _ :: '-' :: _ => longCandidates text
  | _ => shortCandidates text

/-- Whether a text is a number after its dash: digits, or a point with digits after it. A line end
may follow. -/
def isNumber (cs : List Char) : Bool :=
  let cs := if cs.getLast? = some '\n' then cs.dropLast else cs
  let isDigit (c : Char) : Bool := (Text.digitValue? c).isSome
  match cs.dropWhile isDigit with
  | [] => !cs.isEmpty
  | '.' :: places => !places.isEmpty && places.all isDigit
  | _ => false

/-- What a word is that begins with a dash, is longer than it, and names no option in full. -/
def classifyDashed (text : String) : Except UsageError Word :=
  match candidates text with
  | [word] => .ok word
  | first :: second :: rest =>
    .error (.ambiguous text ((first :: second :: rest).map Word.text))
  | [] =>
    if isNumber (text.toList.drop 1) || text.toList.contains ' ' then .ok (.operand text)
    else .ok (.strange text)

/-- The option that a word names in full, with a value after an equals sign. -/
def exactOption? (text : String) : Option Word :=
  match Flag.ofName? text with
  | some flag => some (.option flag text none)
  | none =>
    (splitValue text).bind fun (name, value) =>
      (Flag.ofName? name).map fun flag => .option flag name (some value)

/-- What a word before the end mark is. -/
def classify (text : String) : Except UsageError Word :=
  match text.toList with
  | [] | ['-'] => .ok (.operand text)
  | '-' :: _ =>
    match exactOption? text with
    | some word => .ok word
    | none => classifyDashed text
  | _ => .ok (.operand text)

/-- What the words of a command line are. The first one that is ambiguous decides the error. -/
def classifyAll : List String → Except UsageError (List Word)
  | [] => .ok []
  | text :: rest =>
    if text = endMark then .ok (.ending :: rest.map .operand)
    else do
      let word ← classify text
      let words ← classifyAll rest
      return word :: words

end MarkdownLayout.CommandLine
