import MarkdownLayout.CommandLine.Environment
import MarkdownLayout.CommandLine.Word

/-!
# Reading a command line

Words are taken from left to right. The first thing that stops the program decides: a request for
help or for the version, or an error. Words that are left over are an error at the end.
-/

namespace MarkdownLayout.CommandLine

/-- Why a command line is not followed. -/
inductive Stop where
  /-- Help was asked for. -/
  | help
  /-- The version was asked for. -/
  | version
  /-- The command line is refused. -/
  | usage (error : UsageError)
  deriving DecidableEq, Repr

/-- What has been read of a command line. -/
structure Progress where
  /-- The operand. -/
  input : Option String := none
  /-- The changes, in order. -/
  changes : List Change := []
  /-- The words that are left over. -/
  extras : List String := []
  deriving DecidableEq, Repr

/-- The change that an option with a value makes. -/
def changeTo (flag : Flag) (text : String) : Except UsageError (List Change) :=
  let blank := text = endMark
  match flag with
  | .out => .ok [.out (if blank then .blank else .is text)]
  | .logFile => .ok [.logFile (if blank then .blank else .is text)]
  | .width =>
    if blank then .ok [.width .blank]
    else
      match readWidth text with
      | .ok n => .ok [.width (.is n)]
      | .error fault => .error (.width fault)
  | .orderedMarkers =>
    if blank then .ok [.markers .blank]
    else
      match MarkerStyle.ofName? text with
      | some style => .ok [.markers (.is style)]
      | none => .error (.noChoice flag text markerChoices)
  | .logLevel =>
    if blank then .ok [.logLevel .blank]
    else
      match LogLevel.ofName? (Text.upper text) with
      | some level => .ok [.logLevel (.is level)]
      | none => .error (.noChoice flag (Text.upper text) levelChoices)
  | _ => .ok []

/-- What an option without a value does. -/
def perform (flag : Flag) : Except Stop (List Change) :=
  match flag with
  | .help => .error .help
  | .version => .error .version
  | .noEscapeFencedCode => .ok [.escapeFencedCode false]
  | .noPreserveHtml => .ok [.preserveHtml false]
  | .check => .ok [.check true]
  | .trace => .ok [.trace true]
  | _ => .ok []

/-- Follow letters that stand together with the one that asks for help, with the words after
them. All of them have to be options before help is given. -/
def helpLetters (rest : List Word) : List Char → Stop
  | [] => .help
  | 'h' :: letters => helpLetters rest letters
  | 'o' :: letters =>
    match letters, rest with
    | _ :: _, _ | [], .operand _ :: _ => .help
    | [], _ => .usage (.noValue .out)
  | letters => .usage (.ignoredValue .help (String.ofList letters))

/-- What stops an option without a value that is given one. -/
def refuseValue (flag : Flag) (name value : String) (rest : List Word) : Stop :=
  if flag = .help ∧ name = "-h" ∧ value ≠ "" then helpLetters rest value.toList
  else .usage (.ignoredValue flag value)

/-- Take the value of an option. -/
def Progress.take (p : Progress) (flag : Flag) (text : String) : Except Stop Progress :=
  match changeTo flag text with
  | .ok changes => .ok { p with changes := p.changes ++ changes }
  | .error e => .error (.usage e)

/-- Read words. The mark that ends the options is dropped where the operand may stand and right
after the operand; anywhere else it is left over. -/
def Progress.read (p : Progress) : List Word → Except Stop Progress
  | [] => .ok p
  | .operand text :: .ending :: rest =>
    if p.input.isNone then { p with input := some text }.read rest
    else { p with extras := p.extras ++ [text, endMark] }.read rest
  | .operand text :: rest =>
    if p.input.isNone then { p with input := some text }.read rest
    else { p with extras := p.extras ++ [text] }.read rest
  | .ending :: rest =>
    if p.input.isNone then p.read rest else { p with extras := p.extras ++ [endMark] }.read rest
  | .strange text :: rest => { p with extras := p.extras ++ [text] }.read rest
  | .option flag name attached :: rest =>
    if flag.takesValue then
      match attached with
      | some text =>
        match p.take flag text with
        | .ok p => p.read rest
        | .error stop => .error stop
      | none =>
        match rest with
        | .operand text :: rest =>
          match p.take flag text with
          | .ok p => p.read rest
          | .error stop => .error stop
        | _ => .error (.usage (.noValue flag))
    else
      match attached with
      | some value => .error (refuseValue flag name value rest)
      | none =>
        match perform flag with
        | .ok changes => { p with changes := p.changes ++ changes }.read rest
        | .error stop => .error stop

/-- Read the words of a command line into the changes it makes and the operand it names. -/
def readWords (words : List String) : Except Stop Progress :=
  match classifyAll words with
  | .error e => .error (.usage e)
  | .ok words =>
    match Progress.read {} words with
    | .error stop => .error stop
    | .ok p => if p.extras.isEmpty then .ok p else .error (.usage (.unrecognized p.extras))

/-- The arguments of a command line in an environment. -/
def Arguments.read (environment : List (String × String)) (words : List String) :
    Except Stop Arguments :=
  match readWords words with
  | .error stop => .error stop
  | .ok p =>
    let a : Arguments := { input := p.input.getD "-" }
    .ok ((a.changeAll (variableChanges environment)).changeAll p.changes)

end MarkdownLayout.CommandLine
