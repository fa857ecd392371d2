import MarkdownLayout.CommandLine.Arguments

/-!
# Variables of the environment

Every setting has a variable that can change its default. A variable whose value is not valid is
warned about and changes nothing.
-/

namespace MarkdownLayout.CommandLine

/-- A setting that has a variable. -/
inductive Setting where
  /-- The file to write to. -/
  | out
  /-- The width of lines. -/
  | width
  /-- How numbered items are marked. -/
  | markers
  /-- Whether fenced code is escaped. -/
  | escapeFencedCode
  /-- Whether raw HTML is kept. -/
  | preserveHtml
  /-- Whether the program only looks if anything would change. -/
  | check
  /-- The level of the journal. -/
  | logLevel
  /-- The file that the journal is written to as well. -/
  | logFile
  /-- Whether the journal is written in full. -/
  | trace
  deriving DecidableEq, Repr

namespace Setting

/-- All settings in order. -/
def all : List Setting :=
  [.out, .width, .markers, .escapeFencedCode, .preserveHtml, .check, .logLevel, .logFile, .trace]

theorem mem_all (setting : Setting) : setting ∈ all := by
  cases setting <;> decide

/-- The key of a setting. -/
def key : Setting → String
  | .out => "out"
  | .width => "width"
  | .markers => "ordered_markers"
  | .escapeFencedCode => "escape_fenced_code"
  | .preserveHtml => "preserve_html"
  | .check => "check"
  | .logLevel => "log_level"
  | .logFile => "log_file"
  | .trace => "trace"

end Setting

/-- The name of the variable of a key: upper-case, with low lines for hyphens. -/
def variableName (key : String) : String :=
  "MDREFLOW_" ++ String.ofList ((Text.upper key).toList.map fun c => if c = '-' then '_' else c)

/-- The value of the variable of a key. -/
def variableValue? (environment : List (String × String)) (key : String) : Option String :=
  environment.lookup (variableName key)

/-- Whether a text turns something on, in any case. -/
def turnsOn (text : String) : Bool :=
  ["true", "1", "yes", "on"].contains (String.ofList (text.toList.map Char.toLower))

/-- Why the value of a variable is not valid. -/
inductive VariableFault where
  /-- The value is no width. -/
  | notInteger (name text : String)
  /-- The value is none of those to choose from. -/
  | noChoice (name text : String) (choices : List String)
  deriving DecidableEq, Repr

/-- The wording of the fault. -/
def VariableFault.message : VariableFault → String
  | .notInteger name text => "Invalid integer value for " ++ name ++ ": " ++ text
  | .noChoice name text choices =>
    "Invalid choice for " ++ name ++ ": " ++ text ++ ". Choices: [" ++ listed choices ++ "]"

/-- The change that the value of a variable makes. -/
def Setting.changeBy (text : String) (setting : Setting) : Except VariableFault Change :=
  match setting with
  | .out => .ok (.out (.is text))
  | .width =>
    match readWidth text with
    | .ok n => .ok (.width (.is n))
    | .error _ => .error (.notInteger (variableName setting.key) text)
  | .markers =>
    match MarkerStyle.ofName? text with
    | some style => .ok (.markers (.is style))
    | none => .error (.noChoice (variableName setting.key) text markerChoices)
  | .escapeFencedCode => .ok (.escapeFencedCode (turnsOn text))
  | .preserveHtml => .ok (.preserveHtml (turnsOn text))
  | .check => .ok (.check (turnsOn text))
  | .logLevel =>
    match LogLevel.ofName? (Text.upper text) with
    | some level => .ok (.logLevel (.is level))
    | none => .error (.noChoice (variableName setting.key) text levelChoices)
  | .logFile => .ok (.logFile (.is text))
  | .trace => .ok (.trace (turnsOn text))

/-- What the variable of a setting comes to, when there is one. -/
def Setting.fromVariables (environment : List (String × String)) (setting : Setting) :
    Option (Except VariableFault Change) :=
  (variableValue? environment setting.key).map fun text => setting.changeBy text

/-- The changes that variables make. -/
def variableChanges (environment : List (String × String)) : List Change :=
  Setting.all.filterMap fun setting =>
    match setting.fromVariables environment with
    | some (.ok change) => some change
    | _ => none

/-- The variables that are not valid. -/
def variableFaults (environment : List (String × String)) : List VariableFault :=
  Setting.all.filterMap fun setting =>
    match setting.fromVariables environment with
    | some (.error fault) => some fault
    | _ => none

end MarkdownLayout.CommandLine
