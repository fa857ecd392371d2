import MarkdownLayout.Journal
import MarkdownLayout.Package.Requirement
import MarkdownLayout.Target
import MarkdownLayout.Token.Basic

/-!
# Sessions

A session is what a run of the program has to do with: the disk, the journal, and what has been
printed. The host is what the program finds around it and cannot change.

Printing never fails: standard output and standard error take all that is written to them. Of what a
session holds only the disk can refuse a step, and it does so before it changes anything.
-/

namespace MarkdownLayout

/-- What a run of the program finds around it. -/
structure Host where
  /-- Turns a text into tokens. -/
  tokenizer : String → Tokens
  /-- The packages at hand. -/
  inventory : Inventory
  /-- Tells whether a version meets a specifier. -/
  accepts : VersionTest
  /-- The variables of the environment. -/
  environment : List (String × String) := []
  /-- What can be read from standard input. -/
  stdin : List UInt8 := []
  /-- The time, as records show it. -/
  now : String := ""
  /-- The seconds that a step takes, as records show them. -/
  elapsed : String := ""

/-- What a run of the program reads and writes. -/
structure Session where
  /-- The disk. -/
  disk : Disk := {}
  /-- The journal. -/
  journal : Journal := {}
  /-- What has been printed on standard output. -/
  stdout : String := ""
  /-- What has been printed on standard error. -/
  stderr : String := ""
  /-- The texts that have been given to the tokenizer. -/
  tokenized : List String := []
  deriving DecidableEq, Repr, Inhabited

/-- A step of the program. A failed step keeps the session that it leaves. -/
abbrev Run := EStateM Failure Session

namespace Session

/-- Print on standard error. -/
def complain (text : String) (s : Session) : Session :=
  { s with stderr := s.stderr ++ text }

/-- Print on standard output. -/
def print (text : String) (s : Session) : Session :=
  { s with stdout := s.stdout ++ text }

/-- Write a line to the file of the journal, when one is open. -/
def keep (line : String) (s : Session) : Session :=
  match s.journal.file with
  | some location => { s with disk := s.disk.appendTo location (Text.Utf8.octets line) }
  | none => s

/-- Write a record, if its level is admitted. -/
def record (host : Host) (r : LogRecord) (s : Session) : Session :=
  if s.journal.admits r.level then
    match s.journal.style with
    | some style =>
      let line := r.line host.now style
      (s.complain line).keep line
    | none =>
      if LogLevel.warning.value ≤ r.level then s.complain (r.message ++ "\n") else s
  else s

/-- Write a record about details of the work. -/
def debug (host : Host) (logger message : String) (s : Session) : Session :=
  s.record host ⟨logger, LogLevel.debug.value, message⟩

/-- Note how long a step took. -/
def finished (host : Host) (logger operation : String) (s : Session) : Session :=
  s.debug host logger (operation ++ " completed in " ++ host.elapsed ++ "s")

/-- Write a warning of the program's own, which sets the journal up if nothing has. -/
def warn (host : Host) (message : String) (s : Session) : Session :=
  { s with journal := { s.journal with style := s.journal.style.or (some .brief) } }.record host
    ⟨rootLogger, LogLevel.warning.value, message⟩

end Session

namespace Run

/-- The answer of a step, or its failure. -/
def ofExcept {α : Type} (result : Except Failure α) : Run α :=
  match result with
  | .ok a => pure a
  | .error e => throw e

/-- A step that works on the disk alone. -/
def onDisk {α : Type} (work : DiskWork α) : Run α := fun s =>
  match work s.disk with
  | .ok a disk => .ok a { s with disk }
  | .error e disk => .error e { s with disk }

/-- Do a step and note how long it took, unless it fails. -/
def timed {α : Type} (host : Host) (logger operation : String) (step : Run α) : Run α := do
  let a ← step
  modify (Session.finished host logger operation)
  return a

end Run

/-- Open the file of the journal. A file that cannot be opened is only warned about. -/
def openJournalFile (host : Host) (name : String) : Run Unit := do
  match (← get).disk.placeFromRoot (.ofString name) with
  | .ok location =>
    modify fun s =>
      { s with
        disk := s.disk.appendTo location []
        journal := { s.journal with file := some location } }
    modify (Session.debug host rootLogger ("Logging to file: " ++ name))
  | .error e =>
    if e.cause = .nullCharacter then throw (.disk e)
    else
      modify (Session.record host ⟨rootLogger, LogLevel.warning.value,
        "Could not create log file " ++ name ++ ": " ++ e.message⟩)

/-- Set the journal up: its level, its style, and its file when one is named. -/
def configureJournal (host : Host) (level : Datum) (file : Option String) (trace : Bool) :
    Run Unit := do
  let level ← Run.ofExcept (LogLevel.resolve level)
  modify fun s =>
    { s with journal := { level, style := some (if trace then .trace else .plain), file := none } }
  match file with
  | none | some "" => return
  | some name => openJournalFile host name

end MarkdownLayout
