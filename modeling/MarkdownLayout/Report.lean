import MarkdownLayout.Disk.Basic
import MarkdownLayout.Settings
import MarkdownLayout.LayoutError
import MarkdownLayout.Node.Basic
import MarkdownLayout.Text.Template

/-!
# Errors that the program reports

The errors that the program raises in its own name, with their wording, and the errors behind
them.
-/

namespace MarkdownLayout

/-- The error behind a reported one. -/
inductive Cause where
  /-- A list item stands outside any list. -/
  | strayItem
  /-- A path could not be followed. -/
  | disk (error : DiskError)
  /-- There is no module of that name. -/
  | noModule (name : String)
  /-- Some other error, by its kind and wording. -/
  | other (kind message : String)
  deriving DecidableEq, Repr

/-- The wording of the error. -/
def Cause.message : Cause → String
  | .strayItem => strayItemMessage
  | .disk e => e.message
  | .noModule name => "No module named " ++ Text.quote name
  | .other _ message => message

/-- A package that is missing, with the versions that would do. -/
structure Missing where
  /-- The name under which the package is installed. -/
  package : String
  /-- The versions that would do. -/
  wanted : String
  deriving DecidableEq, Repr

/-- A package whose version does not do. -/
structure Mismatch where
  /-- The name under which the package is installed. -/
  package : String
  /-- The versions that would do. -/
  wanted : String
  /-- The version that is there. -/
  installed : String
  deriving DecidableEq, Repr

/-- The command that would install what is missing and replace what does not do. -/
def installCommand (missing : List Missing) (mismatched : List Mismatch) : String :=
  let wanted := missing.map (fun m => m.package ++ m.wanted) ++
    mismatched.map (fun m => m.package ++ m.wanted)
  if wanted.isEmpty then "" else "pip install " ++ " ".intercalate (wanted.map Text.quote)

/-- The sentence that names the missing packages. -/
def missingSentence (missing : List Missing) : List String :=
  if missing.isEmpty then []
  else ["Missing: " ++ ", ".intercalate (missing.map (·.package)) ++ "."]

/-- An error that the program raises in its own name. -/
inductive Report where
  /-- An error with nothing but its wording. -/
  | general (message : String)
  /-- A value that is not valid. -/
  | validation (message : String) (parameter : Option String) (value : Datum)
  /-- Settings of the wrong family. -/
  | wrongFamily (receiver expected received : String) (message : Option String)
  /-- Text that could not be turned into a tree. -/
  | parsing (message : String) (stage : Option String)
  /-- A tree that could not be laid out. -/
  | rendering (message : String) (stage : Option String)
  /-- A node of a kind that has no layout. -/
  | unknownKind (kind : String)
  /-- Margins put down and taken back in different orders. -/
  | marginImbalance (message : String) (depth : Int)
  /-- A file that could not be used. -/
  | file (message : String) (path : Option String)
  /-- A file that could not be written. -/
  | outputWrite (message : String) (path : Option String)
  /-- Packages that are missing or do not do. -/
  | dependency (converter : String) (missing : List Missing) (mismatched : List Mismatch)
  deriving Repr

/-- The wording of the error. -/
def Report.message : Report → String
  | .general message | .validation message .. | .parsing message _ | .rendering message _
  | .marginImbalance message _ | .file message _ | .outputWrite message _ => message
  | .wrongFamily receiver expected received message =>
    message.getD (receiver ++ " expected options of type '" ++ expected ++ "' but received '" ++
      received ++ "'.")
  | .unknownKind kind => (LayoutError.unknownKind kind).message
  | .dependency converter missing mismatched =>
    let command := installCommand missing mismatched
    " ".intercalate
      (["'" ++ converter ++ "' requires additional packages."] ++ missingSentence missing ++
        mismatched.map (fun m =>
          m.package ++ " " ++ m.installed ++ " is installed but " ++ m.wanted ++ " is required.") ++
        (if command = "" then [] else ["Install with: " ++ command]))

/-- Why the program, or a step of it, did not succeed. -/
inductive Failure where
  /-- An error that the program raises in its own name, and the one behind it. -/
  | reported (report : Report) (cause : Option Cause)
  /-- A container that could not be made. -/
  | build (error : BuildError)
  /-- Settings that could not be made. -/
  | settings (error : SettingsError)
  /-- A path that could not be followed. -/
  | disk (error : DiskError)
  /-- Octets that are no text. -/
  | undecodable (fault : Text.Utf8.Fault)
  /-- A number that has too many digits to be written. -/
  | longNumeral
  /-- A value that nothing can be written to. -/
  | noTarget (typeName : String)
  /-- A template that cannot be filled. -/
  | template (error : Text.TemplateError)
  deriving Repr

/-- The wording of the failure. -/
def Failure.message : Failure → String
  | .reported report _ => report.message
  | .build e => e.message
  | .settings e => e.message
  | .disk e => e.message
  | .undecodable fault => fault.message
  | .longNumeral => Text.longNumeralMessage
  | .noTarget typeName => "Unsupported output type: <class '" ++ typeName ++ "'>"
  | .template e => e.message

/-- The failure that stops a layout. -/
def LayoutError.failure (e : LayoutError) : Failure :=
  match e with
  | .marginEmpty | .marginMismatch .. | .marginOpen _ =>
    .reported (.marginImbalance e.message e.depth) none
  | .unknownKind kind => .reported (.unknownKind kind) none
  | .strayItem => .reported (.rendering e.message e.stage) (some .strayItem)
  | .longNumeral => .longNumeral
  | .undecodable fault => .undecodable fault

/-- The failure to make settings. -/
def SettingsError.failure (e : SettingsError) : Failure :=
  match e with
  | .noSuchOption _ names value => .reported (.validation e.message names.head? value) none
  | _ => .settings e

/-- The failure to use settings of the wrong family. -/
def FamilyMismatch.failure (m : FamilyMismatch) : Failure :=
  .reported (.wrongFamily m.receiver m.expected.name m.received.name none) none

end MarkdownLayout
