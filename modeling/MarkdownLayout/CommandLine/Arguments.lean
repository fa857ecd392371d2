import MarkdownLayout.CommandLine.Flag

/-!
# Arguments

What the program is asked to do. Arguments arise from the built-in ones by changes: first those
that the environment makes, then those of the command line, so that the last change of a setting
decides it.
-/

namespace MarkdownLayout.CommandLine

/-- The value of an option. One that is nothing but the mark that ends the options is blank. -/
inductive Value (α : Type) where
  /-- A value. -/
  | is (value : α)
  /-- No value. -/
  | blank
  deriving DecidableEq, Repr

/-- The value, unless it is blank. -/
def Value.get? {α : Type} : Value α → Option α
  | .is a => some a
  | .blank => none

/-- The value as data; a blank one is an empty list. -/
def Value.toDatum {α : Type} (f : α → Datum) : Value α → Datum
  | .is a => f a
  | .blank => .list []

/-- What the program is asked to do. -/
structure Arguments where
  /-- The file to read; a dash stands for standard input. -/
  input : String := "-"
  /-- The file to write to. -/
  out : Option (Value String) := none
  /-- The width of lines. -/
  width : Value Nat := .is (RenderSettings.width {})
  /-- How numbered items are marked. -/
  markers : Value MarkerStyle := .is (RenderSettings.markers {})
  /-- Whether fenced code is escaped. -/
  escapeFencedCode : Bool := true
  /-- Whether raw HTML is kept. -/
  preserveHtml : Bool := true
  /-- Whether the program only looks if anything would change. -/
  check : Bool := false
  /-- The level of the journal. -/
  logLevel : Value LogLevel := .is .warning
  /-- The file that the journal is written to as well. -/
  logFile : Option (Value String) := none
  /-- Whether the journal is written in full. -/
  trace : Bool := false
  deriving DecidableEq, Repr

/-- A change of one setting. -/
inductive Change where
  /-- Write to a file. -/
  | out (value : Value String)
  /-- Set the width of lines. -/
  | width (value : Value Nat)
  /-- Set how numbered items are marked. -/
  | markers (value : Value MarkerStyle)
  /-- Escape fenced code or not. -/
  | escapeFencedCode (on : Bool)
  /-- Keep raw HTML or not. -/
  | preserveHtml (on : Bool)
  /-- Only look or not. -/
  | check (on : Bool)
  /-- Set the level of the journal. -/
  | logLevel (value : Value LogLevel)
  /-- Write the journal to a file as well. -/
  | logFile (value : Value String)
  /-- Write the journal in full or not. -/
  | trace (on : Bool)
  deriving DecidableEq, Repr

/-- Make a change. -/
def Arguments.change (a : Arguments) : Change → Arguments
  | .out value => { a with out := some value }
  | .width value => { a with width := value }
  | .markers value => { a with markers := value }
  | .escapeFencedCode on => { a with escapeFencedCode := on }
  | .preserveHtml on => { a with preserveHtml := on }
  | .check on => { a with check := on }
  | .logLevel value => { a with logLevel := value }
  | .logFile value => { a with logFile := some value }
  | .trace on => { a with trace := on }

/-- Make changes one after the other. -/
def Arguments.changeAll (a : Arguments) (changes : List Change) : Arguments :=
  changes.foldl change a

@[simp] theorem Arguments.changeAll_nil (a : Arguments) : a.changeAll [] = a := rfl

@[simp] theorem Arguments.changeAll_cons (a : Arguments) (c : Change) (cs : List Change) :
    a.changeAll (c :: cs) = (a.change c).changeAll cs := rfl

theorem Arguments.changeAll_append (a : Arguments) (cs ds : List Change) :
    a.changeAll (cs ++ ds) = (a.changeAll cs).changeAll ds :=
  List.foldl_append

/-- The name in an optional value; an empty one names nothing. -/
def fileName? (value : Option (Value String)) : Option String :=
  (value.bind Value.get?).filter fun name => !name.isEmpty

/-- The settings of the layout that are asked for. -/
def Arguments.renderSettings (a : Arguments) : Except Failure RenderSettings :=
  match a.width with
  | .blank => .error (.settings (.widthNotNumber (Datum.list []).typeName))
  | .is width =>
    (RenderSettings.check width (a.markers.toDatum fun m => .text m.name) a.escapeFencedCode
      0).mapError SettingsError.failure

/-- The settings of reading that are asked for. -/
def Arguments.parseSettings (a : Arguments) : ParseSettings :=
  { preserveHtml := a.preserveHtml }

end MarkdownLayout.CommandLine
