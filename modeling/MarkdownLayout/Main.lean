import MarkdownLayout.CommandLine.Run
import MarkdownLayout.Package.Specifier
import MarkdownLayout.Token.Prose

/-!
# The program

The files that the arguments name are read, the command line is run on them, and what it has
printed and changed is handed back to the system. Documents are taken as plain prose.
-/

namespace MarkdownLayout.Program

open CommandLine

/-- Whether there is a directory at a place. -/
def isDirectory (location : Location) : IO Bool := do
  try (← IO.FS.realPath location.toString).isDir
  catch _ => return false

/-- The octets of the file at a place, when it can be read. -/
def octetsAt? (location : Location) : IO (Option (List UInt8)) := do
  try return some (← IO.FS.readBinFile location.toString).toList
  catch _ => return none

/-- Take what lies on the way of some names from a directory. -/
def explore (here : Location) : List String → Disk → IO Disk
  | [], d => return d
  | name :: rest, d => do
    if name = ".." then explore here.up rest d
    else
      let next : Location := here ++ [name]
      if ← isDirectory next then explore next rest (d.addDirectory next)
      else
        match ← octetsAt? next with
        | some octets => return d.setFile next octets
        | none => return d

/-- Take what lies on the way of a path, as it is written and as it is named from the root. -/
def explorePath (d : Disk) (name : String) : IO Disk := do
  let path := Path.ofString name
  let d ← explore (d.startOf path) path.parts d
  explore [] (d.wholePlace path) d

/-- The files that arguments name. -/
def namedFiles (a : Arguments) : List String :=
  a.input :: (fileName? a.out).toList ++ (fileName? a.logFile).toList

/-- The part of the disk that a command line needs. -/
def diskFor (environment : List (String × String)) (words : List String) : IO Disk := do
  let home : Location := (Text.cutAt '/' (← IO.currentDir).toString.toList).map String.ofList
  match Arguments.read environment words with
  | .ok a => (namedFiles a).foldlM explorePath { home }
  | .error _ => return { home }

/-- The variables of the settings. -/
def readVariables : IO (List (String × String)) :=
  Setting.all.filterMapM fun setting => do
    let name := variableName setting.key
    return (← IO.getEnv name).map fun value => (name, value)

/-- Write the files that a run has changed. -/
def writeChanges (before after : Disk) : IO Unit :=
  for (location, octets) in after.files do
    if before.file? location ≠ some octets then
      IO.FS.writeBinFile location.toString ⟨octets.toArray⟩

/-- Whether a command line reads standard input. -/
def readsInput (environment : List (String × String)) (words : List String) : Bool :=
  match Arguments.read environment words with
  | .ok a => a.input = "-"
  | .error _ => false

/-- Hand a session back to the system. -/
def settle (before : Disk) (s : Session) : IO Unit := do
  IO.print s.stdout
  IO.eprint s.stderr
  writeChanges before s.disk

/-- Run a command line on the system. -/
def run (words : List String) : IO UInt32 := do
  let environment ← readVariables
  let disk ← diskFor environment words
  let stdin ←
    if readsInput environment words then (·.toList) <$> (← IO.getStdin).readBinToEnd else pure []
  let host : Host :=
    { tokenizer := Tokens.ofProse
      inventory := ⟨[("mistune", "3.4.0")], ["mistune"]⟩
      accepts := versionMeets
      environment, stdin
      now := toString (← IO.monoMsNow)
      elapsed := "0.0000" }
  match CommandLine.run host words { disk } with
  | .ok status s =>
    settle disk s
    return status.code.toUInt32
  | .error failure s =>
    settle disk s
    IO.eprintln failure.message
    return 1

end MarkdownLayout.Program

/-- The entry point of the program. -/
def main (words : List String) : IO UInt32 :=
  MarkdownLayout.Program.run words
