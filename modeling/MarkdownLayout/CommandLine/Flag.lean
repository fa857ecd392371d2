import MarkdownLayout.Journal
import MarkdownLayout.Text.Integer

/-!
# Options of the command line

The options with their names, in the order of the usage text, and the ways in which a value given
to one of them can be wrong.
-/

namespace MarkdownLayout.CommandLine

/-- An option of the command line. -/
inductive Flag where
  /-- Print the help text. -/
  | help
  /-- Write to a file. -/
  | out
  /-- Set the width of lines. -/
  | width
  /-- Set how numbered items are marked. -/
  | orderedMarkers
  /-- Leave fenced code unescaped. -/
  | noEscapeFencedCode
  /-- Leave raw HTML out. -/
  | noPreserveHtml
  /-- Only look whether anything would change. -/
  | check
  /-- Set the level of the journal. -/
  | logLevel
  /-- Write the journal to a file as well. -/
  | logFile
  /-- Write the journal in full. -/
  | trace
  /-- Print the version. -/
  | version
  deriving DecidableEq, Repr

namespace Flag

/-- All options in order. -/
def all : List Flag :=
  [.help, .out, .width, .orderedMarkers, .noEscapeFencedCode, .noPreserveHtml, .check, .logLevel,
    .logFile, .trace, .version]

theorem mem_all (flag : Flag) : flag ∈ all := by
  cases flag <;> decide

/-- The names of an option. -/
def names : Flag → List String
  | .help => ["-h", "--help"]
  | .out => ["--out", "-o"]
  | .width => ["--width"]
  | .orderedMarkers => ["--ordered-markers"]
  | .noEscapeFencedCode => ["--no-escape-fenced-code"]
  | .noPreserveHtml => ["--no-preserve-html"]
  | .check => ["--check"]
  | .logLevel => ["--log-level"]
  | .logFile => ["--log-file"]
  | .trace => ["--trace"]
  | .version => ["--version"]

/-- Whether an option has a value. -/
def takesValue : Flag → Bool
  | .out | .width | .orderedMarkers | .logLevel | .logFile => true
  | .help | .noEscapeFencedCode | .noPreserveHtml | .check | .trace | .version => false

/-- An option as messages name it. -/
def title (flag : Flag) : String :=
  "/".intercalate flag.names

/-- Every name with its option, in order. -/
def table : List (String × Flag) :=
  all.flatMap fun flag => flag.names.map fun name => (name, flag)

/-- The option of a name. -/
def ofName? (name : String) : Option Flag :=
  table.lookup name

end Flag

/-- Why a text is no width. -/
inductive WidthFault where
  /-- The text writes no whole number. -/
  | notInteger (text : String)
  /-- The number is below zero. -/
  | negative (text : String)
  deriving DecidableEq, Repr

/-- The wording of the fault. -/
def WidthFault.message : WidthFault → String
  | .notInteger text => text ++ " is not a valid integer"
  | .negative text => text ++ " is not a non-negative integer"

/-- Read a width. -/
def readWidth (text : String) : Except WidthFault Nat :=
  match Text.readInteger? text with
  | none => .error (.notInteger text)
  | some n => if n < 0 then .error (.negative text) else .ok n.toNat

/-- The names of the ways to mark numbered items. -/
def markerChoices : List String :=
  [MarkerStyle.fixed, .sequential].map MarkerStyle.name

/-- The names of the levels of the journal. -/
def levelChoices : List String :=
  LogLevel.all.map LogLevel.name

/-- Names as messages list them. -/
def listed (choices : List String) : String :=
  ", ".intercalate (choices.map Text.quote)

/-- Why a command line is refused. -/
inductive UsageError where
  /-- The beginning of a name fits several options. -/
  | ambiguous (word : String) (names : List String)
  /-- An option lacks its value. -/
  | noValue (flag : Flag)
  /-- An option without a value is given one. -/
  | ignoredValue (flag : Flag) (text : String)
  /-- A width cannot be read. -/
  | width (fault : WidthFault)
  /-- A value is none of those to choose from. -/
  | noChoice (flag : Flag) (text : String) (choices : List String)
  /-- Words are left over. -/
  | unrecognized (words : List String)
  deriving DecidableEq, Repr

/-- An error about an option, with the option in front. -/
def Flag.complaint (flag : Flag) (message : String) : String :=
  "argument " ++ flag.title ++ ": " ++ message

/-- The wording of the error. -/
def UsageError.message : UsageError → String
  | .ambiguous word names =>
    "ambiguous option: " ++ word ++ " could match " ++ ", ".intercalate names
  | .noValue flag => flag.complaint "expected one argument"
  | .ignoredValue flag text => flag.complaint ("ignored explicit argument " ++ Text.quote text)
  | .width fault => Flag.width.complaint fault.message
  | .noChoice flag text choices =>
    flag.complaint
      ("invalid choice: " ++ Text.quote text ++ " (choose from " ++ listed choices ++ ")")
  | .unrecognized words => "unrecognized arguments: " ++ " ".intercalate words

end MarkdownLayout.CommandLine
