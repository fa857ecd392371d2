import MarkdownLayout.Source

/-!
# Targets

Where a document goes. A path takes text and octets alike; a stream takes one of them, and what is
written is turned into it.
-/

namespace MarkdownLayout

/-- What is written: characters or octets. -/
inductive Content where
  /-- Characters. -/
  | text (value : String)
  /-- Octets. -/
  | octets (value : List UInt8)
  deriving DecidableEq, Repr

/-- The octets of a content. -/
def Content.toOctets : Content → List UInt8
  | .text value => Text.Utf8.octets value
  | .octets value => value

/-- The characters of a content. -/
def Content.toText : Content → Except Failure String
  | .text value => .ok value
  | .octets value => decodeText value

/-- The content in the form that a stream takes. -/
def Content.forStream (binary : Bool) (content : Content) : Except Failure Content :=
  if binary then .ok (.octets content.toOctets) else content.toText.map .text

/-- Where a document goes. -/
inductive Target where
  /-- A path. -/
  | path (name : String)
  /-- A stream of characters in memory. -/
  | textMemory
  /-- A stream of octets in memory. -/
  | octetMemory
  /-- An open file that takes characters, by the name under which it is opened. -/
  | textFile (name : String)
  /-- An open file that takes octets, by the name under which it is opened. -/
  | octetFile (name : String)
  /-- Something that can be written to, with the mode that it states, if it states one. -/
  | writer (mode : Option Datum)
  /-- A value that cannot be written to. -/
  | value (value : Datum)
  deriving Repr

/-- What a target has received. -/
inductive Receipt where
  /-- Nothing that is kept in memory. -/
  | nothing
  /-- What a stream in memory holds. -/
  | memory (content : Content)
  /-- What was written, call by call. -/
  | calls (contents : List Content)
  deriving DecidableEq, Repr

/-- Whether something that states a mode takes octets. -/
def takesOctets (mode : Option Datum) : Bool :=
  match mode with
  | some (.text value) => value.toList.contains 'b'
  | _ => false

/-- Work on the disk. A failed step keeps the disk that it leaves. -/
abbrev DiskWork := EStateM Failure Disk

/-- Give an open file its octets. Its name is taken as it is written. -/
def putInto (name : String) (octets : List UInt8) : DiskWork Unit := fun d =>
  match d.placeAsWritten name with
  | .ok location => .ok () (d.setFile location octets)
  | .error e => .error (.disk e) d

/-- Open a target before anything is written to it: an open file is empty. -/
def Target.open : Target → DiskWork Unit
  | .textFile name | .octetFile name => putInto name []
  | _ => pure ()

/-- Write a document to a path. -/
def writeToPath (content : Content) (path : Path) : DiskWork Receipt := fun d =>
  match d.write path content.toOctets with
  | .ok d => .ok .nothing d
  | .error e =>
    if e.cause = .nullCharacter then .error (.disk e) d
    else
      .error
        (.reported
          (.outputWrite ("Could not write output to " ++ path.toString) (some path.toString))
          (some (.disk e)))
        d

/-- Note what a step gives, or its failure. -/
def settleWith {α : Type} (result : Except Failure α) : DiskWork α := fun d =>
  match result with
  | .ok a => .ok a d
  | .error e => .error e d

/-- Write a document to a target that is open. -/
def Target.deliver (content : Content) : Target → DiskWork Receipt
  | .path name => writeToPath content (.ofString name)
  | .textMemory => do return .memory (← settleWith (content.forStream false))
  | .octetMemory => do return .memory (← settleWith (content.forStream true))
  | .textFile name => do
    let written ← settleWith (content.forStream false)
    putInto name written.toOctets
    return .nothing
  | .octetFile name => do
    putInto name content.toOctets
    return .nothing
  | .writer mode => do return .calls [← settleWith (content.forStream (takesOctets mode))]
  | .value v => settleWith (.error (.noTarget v.typeName))

end MarkdownLayout
