import MarkdownLayout.Report

/-!
# Sources

Where the text of a document comes from. Text in a file may end its lines in three ways, which
are made one; octets and streams are taken as they are. A short text on one line that is the path
of a file stands for the file.
-/

namespace MarkdownLayout

/-- Where a text comes from. -/
inductive Source where
  /-- The text itself, or the path of a file that holds it. -/
  | text (value : String)
  /-- A path. -/
  | path (name : String)
  /-- The octets of the text. -/
  | octets (value : List UInt8)
  /-- A stream of characters. -/
  | textStream (value : String)
  /-- A stream of octets. -/
  | octetStream (value : List UInt8)
  deriving DecidableEq, Repr

/-- End every line with a single line feed. -/
def unifyLineEnds : List Char → List Char
  | [] => []
  | '\r' :: '\n' :: rest => '\n' :: unifyLineEnds rest
  | '\r' :: rest => '\n' :: unifyLineEnds rest
  | c :: rest => c :: unifyLineEnds rest

/-- No carriage return is left. -/
theorem carriageReturn_not_mem_unifyLineEnds (cs : List Char) : '\r' ∉ unifyLineEnds cs := by
  fun_induction unifyLineEnds cs with
  | case1 => simp
  | case2 rest ih => simpa using ih
  | case3 rest _ ih => simpa using ih
  | case4 c rest _ hc ih =>
    rw [List.mem_cons, not_or]
    exact ⟨fun h => hc h.symm, ih⟩

/-- Lines that end with a single line feed stay as they are, and no others do. -/
theorem unifyLineEnds_eq_self_iff (cs : List Char) : unifyLineEnds cs = cs ↔ '\r' ∉ cs := by
  constructor
  · intro h
    rw [← h]
    exact carriageReturn_not_mem_unifyLineEnds cs
  · intro h
    fun_induction unifyLineEnds cs with
    | case1 => rfl
    | case2 rest ih => simp at h
    | case3 rest _ ih => simp at h
    | case4 c rest _ hc ih =>
      rw [List.mem_cons, not_or] at h
      rw [ih h.2]

/-- The text that octets write. -/
def decodeText (octets : List UInt8) : Except Failure String :=
  match Text.Utf8.text octets with
  | .ok s => .ok s
  | .error fault => .error (.undecodable fault)

/-- The text of octets that come from a file. -/
def decodeFileText (octets : List UInt8) : Except Failure String :=
  (decodeText octets).map fun s => String.ofList (unifyLineEnds s.toList)

/-- The text of the file at a path. -/
def Disk.readText (d : Disk) (path : Path) : Except Failure String :=
  match d.read path with
  | .ok octets => decodeFileText octets
  | .error e => .error (.disk e)

/-- The length at which a text is no longer taken for a path. -/
def pathTextLimit : Nat := 4096

/-- Whether a text stands for a file. -/
def standsForFile (d : Disk) (text : String) : Bool :=
  !text.toList.contains '\n' && text.length < pathTextLimit &&
    (match d.isFile (.ofString text) with
      | .ok found => found
      | .error _ => false)

/-- The text of a source. -/
def Source.read (d : Disk) : Source → Except Failure String
  | .text value => if standsForFile d value then d.readText (.ofString value) else .ok value
  | .path name => d.readText (.ofString name)
  | .octets value | .octetStream value => decodeText value
  | .textStream value => .ok value

end MarkdownLayout
