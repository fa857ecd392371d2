import MarkdownLayout.Report
import MarkdownLayout.Text.Blank
import MarkdownLayout.Text.Uppercase

/-!
# The journal

Records have a level and the name of the part that wrote them. Those at or above the level of the
journal are written, line by line, to the console and to a file when one is open. Before the
journal is set up, records from warnings on show nothing but their text.
-/

namespace MarkdownLayout

/-- The levels that have a name. -/
inductive LogLevel where
  /-- Details of the work. -/
  | debug
  /-- News. -/
  | info
  /-- Things to look at. -/
  | warning
  /-- Failures. -/
  | error
  /-- Failures of the whole. -/
  | critical
  deriving DecidableEq, Repr

namespace LogLevel

/-- All levels in order. -/
def all : List LogLevel := [.debug, .info, .warning, .error, .critical]

/-- The name of a level. -/
def name : LogLevel → String
  | .debug => "DEBUG"
  | .info => "INFO"
  | .warning => "WARNING"
  | .error => "ERROR"
  | .critical => "CRITICAL"

/-- The number of a level. -/
def value : LogLevel → Int
  | .debug => 10
  | .info => 20
  | .warning => 30
  | .error => 40
  | .critical => 50

/-- The level of a name. -/
def ofName? (name : String) : Option LogLevel :=
  all.find? (·.name == name)

theorem ofName?_name (level : LogLevel) : ofName? level.name = some level := by
  cases level <;> rfl

/-- The name that stands for a number in a record. -/
def nameOf (n : Int) : String :=
  match all.find? (·.value == n) with
  | some level => level.name
  | none => "Level " ++ toString n

/-- Words are taken as they are, other values as messages show them. -/
def wordOf (shown : String) : Datum → String
  | .text value => value
  | _ => shown

/-- The number of a level that is given by name, in any case, or by number. -/
def resolve (given : Datum) : Except Failure Int :=
  match given.whole? with
  | some n => .ok n
  | none =>
    match given.describe? with
    | none => .error .longNumeral
    | some shown =>
      match ofName? (Text.upper (Text.strip (wordOf shown given))) with
      | some level => .ok level.value
      | none =>
        .error (.reported
          (.validation
            ("Unknown log level " ++ shown ++ "; expected one of " ++
              ", ".intercalate (all.map name))
            (some "log_level") given)
          none)

end LogLevel

/-- The part of the program that stands for the whole. -/
def rootLogger : String := "root"

/-- A record of the journal. -/
structure LogRecord where
  /-- The part of the program that writes the record; the whole has no name. -/
  logger : String
  /-- The level. -/
  level : Int
  /-- The text. -/
  message : String
  deriving DecidableEq, Repr

/-- How records are written. -/
inductive RecordStyle where
  /-- Level, logger and text between colons. -/
  | brief
  /-- Level and text. -/
  | plain
  /-- Time, level, logger and text. -/
  | trace
  deriving DecidableEq, Repr

/-- A record as a line that begins with the given time. -/
def LogRecord.line (now : String) (style : RecordStyle) (r : LogRecord) : String :=
  let level := LogLevel.nameOf r.level
  let logger := if r.logger = "" then rootLogger else r.logger
  match style with
  | .brief => level ++ ":" ++ logger ++ ":" ++ r.message ++ "\n"
  | .plain => level ++ ": " ++ r.message ++ "\n"
  | .trace => "[" ++ now ++ "] [" ++ level ++ "] [" ++ logger ++ "] " ++ r.message ++ "\n"

/-- The state of the journal. -/
structure Journal where
  /-- Records below this level are not written. -/
  level : Int := LogLevel.warning.value
  /-- How records are written, once that is set up. -/
  style : Option RecordStyle := none
  /-- The file that records go to as well. -/
  file : Option Location := none
  deriving DecidableEq, Repr

/-- Whether records of a level are written; those of level zero and below never are. -/
def Journal.admits (j : Journal) (level : Int) : Bool :=
  0 < level && j.level ≤ level

/-- The number of places that records go to. -/
def Journal.places (j : Journal) : Nat :=
  (if j.style.isSome then 1 else 0) + (if j.file.isSome then 1 else 0)

end MarkdownLayout
