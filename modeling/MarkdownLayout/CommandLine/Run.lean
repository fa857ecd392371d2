import MarkdownLayout.CommandLine.Reading
import MarkdownLayout.CommandLine.Usage
import MarkdownLayout.Reformat
import MarkdownLayout.Text.Fill

/-!
# Running a command line

The arguments are read, the journal is set up, the input is read, laid out and written. The
document is written only when nothing can fail any more. Errors that the program raises in its own
name end up in the journal; all others end the run.
-/

namespace MarkdownLayout.CommandLine

/-- The name of the part that runs command lines. -/
def commandLogger : String := "mdreflow.cli"

/-- The status of a run. -/
inductive Status where
  /-- All went well. -/
  | success
  /-- The document could not be made, or is not formatted. -/
  | error
  /-- The input or the command line cannot be used. -/
  | inputError
  deriving DecidableEq, Repr

/-- The number of a status. -/
def Status.code : Status → Nat
  | .success => 0
  | .error => 1
  | .inputError => 2

/-- The version of the program and of what it needs, as it is told before it is laid out. -/
def versionNotice (inventory : Inventory) : String :=
  programName ++ " " ++ programVersion ++ " (" ++ inventory.describe [tokenizerRequirement] ++ ")"

/-- The width of the lines in which a notice is printed: that of a terminal of eighty columns, less
two. -/
def noticeWidth : Nat := 78

/-- A notice as it is printed. One with a place for the name of the program is filled as a template
first. -/
def layOutNotice (notice : String) : Except Failure String := do
  let notice ←
    if Text.Template.names "prog" notice then
      (Text.Template.fill [("prog", programName)] notice).mapError .template
    else pure notice
  let squeezed := String.ofList (Text.squeezeGaps notice.toList)
  return Text.fill noticeWidth (Text.strip squeezed) ++ "\n"

/-- Print what a command line that is not followed asks for. -/
def Stop.print (inventory : Inventory) : Stop → Run Unit
  | .help => modify (Session.print helpText)
  | .version => do
    let notice ← Run.ofExcept (layOutNotice (versionNotice inventory))
    modify (Session.print notice)
  | .usage e =>
    modify (Session.complain (usageText ++ programName ++ ": error: " ++ e.message ++ "\n"))

/-- The status of a command line that is not followed. -/
def Stop.status : Stop → Status
  | .help | .version => .success
  | .usage _ => .inputError

/-- Warn about the variables that are not valid. -/
def warnOfVariables (host : Host) (s : Session) : Session :=
  (variableFaults host.environment).foldl (fun s fault => s.warn host fault.message) s

/-- Read the arguments, or print why the command line is not followed. -/
def readArguments (host : Host) (words : List String) : Run (Except Status Arguments) := do
  modify (warnOfVariables host)
  match Arguments.read host.environment words with
  | .ok arguments => return .ok arguments
  | .error stop =>
    stop.print host.inventory
    return .error stop.status

/-- Set the journal up as the arguments ask. -/
def Arguments.configure (host : Host) (a : Arguments) : Run Unit :=
  configureJournal host (a.logLevel.toDatum fun level => .text level.name) (fileName? a.logFile)
    a.trace

/-- Whether the input is there. -/
def Arguments.inputExists (a : Arguments) (d : Disk) : Except Failure Bool :=
  if a.input = "-" then .ok true else (d.isFile (.ofString a.input)).mapError .disk

/-- The text of the input. -/
def Arguments.readInput (host : Host) (a : Arguments) (d : Disk) : Except Failure String :=
  if a.input = "-" then decodeText host.stdin else d.readText (.ofString a.input)

/-- Hand the document over: compare it, write it to a file, or print it. -/
def Arguments.handOver (host : Host) (a : Arguments) (text rendered : String) : Run Status := do
  if a.check then
    if rendered = text then return .success
    modify (Session.record host
      ⟨commandLogger, LogLevel.info.value, a.input ++ " would be reformatted"⟩)
    return .error
  match fileName? a.out with
  | some name =>
    let _ ← Run.onDisk (Target.deliver (.text rendered) (.path name))
    modify (Session.record host
      ⟨commandLogger, LogLevel.info.value, "Reformatted " ++ a.input ++ " -> " ++ name⟩)
    return .success
  | none =>
    modify (Session.print rendered)
    return .success

/-- Reformat a text and hand it over. -/
def Arguments.convert (host : Host) (a : Arguments) (settings : RenderSettings) (text : String) :
    Run Status := do
  let octets ← reformatOctets host settings a.parseSettings (.octets (Text.Utf8.octets text))
  a.handOver host text (← renderedText octets)

/-- Do a step and put an error that the program raises in its own name into the journal. -/
def reporting (host : Host) (step : Run Status) : Run Status := fun s =>
  match step s with
  | .error (.reported report _) s =>
    .ok .error (s.record host
      ⟨commandLogger, LogLevel.error.value, "Error: " ++ report.message⟩)
  | result => result

/-- Do what the arguments ask for. -/
def Arguments.run (host : Host) (a : Arguments) : Run Status := do
  a.configure host
  if !(← Run.ofExcept (a.inputExists (← get).disk)) then
    modify (Session.complain ("Error: Input file does not exist: " ++ a.input ++ "\n"))
    return .inputError
  match a.readInput host (← get).disk with
  | .error e =>
    modify (Session.complain ("Error reading input: " ++ e.message ++ "\n"))
    return .inputError
  | .ok text =>
    let settings ← Run.ofExcept a.renderSettings
    reporting host (a.convert host settings text)

/-- Run a command line. -/
def run (host : Host) (words : List String) : Run Status := do
  match ← readArguments host words with
  | .error status => return status
  | .ok arguments => arguments.run host

end MarkdownLayout.CommandLine
