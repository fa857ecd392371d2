import MarkdownLayout.LayoutError

/-!
# The writer

A writer holds the text written so far and what it needs to go on: the margin that opens every
line, the column, the line breaks owed to earlier blocks, and the last place where the current
line may be broken. The text is kept as UTF-8 octets and grows at its end; a break moves what
follows the last breakable blank to a line of its own.

This module has the operations that do not write spans.
-/

namespace MarkdownLayout

/-- How a span may change on its way to the page. -/
structure Policy where
  /-- Blanks may become line ends, and a run of them counts as one. -/
  wraps : Bool
  /-- Characters that could be read as markup get a backslash. -/
  escapes : Bool
  deriving DecidableEq, Repr

namespace Policy

/-- Running text. -/
def prose : Policy := ⟨true, true⟩

/-- Text written as it stands, whose blanks may become line ends. -/
def flowing : Policy := ⟨true, false⟩

/-- Text on one line, with escapes. -/
def guarded : Policy := ⟨false, true⟩

/-- Text written as it stands. -/
def verbatim : Policy := ⟨false, false⟩

end Policy

/-- The line breaks owed before the next span. -/
inductive Owed where
  /-- The next span goes on where the last one ended. -/
  | nothing
  /-- The next span begins a line. -/
  | lineEnd
  /-- The next span begins a line after a blank one. -/
  | blankLine
  deriving DecidableEq, Repr

/-- The number of line ends that are owed. -/
def Owed.level : Owed → Nat
  | .nothing => 0
  | .lineEnd => 1
  | .blankLine => 2

/-- The width of a line when none is given. -/
def defaultWidth : Int := 65

/-- The text written so far and the state of its last line. -/
structure Writer where
  /-- The column after which a line is broken; lines are not broken at zero or below. -/
  width : Int := defaultWidth
  /-- The octets written so far. -/
  buffer : Array UInt8 := #[]
  /-- The margins put down, the outermost first. -/
  segments : List String := []
  /-- The octets that open every line: those of the margins, one after the other. -/
  margin : Array UInt8 := #[]
  /-- The column reached on the current line. -/
  column : Nat := 0
  /-- The line breaks owed before the next span. -/
  owed : Owed := .nothing
  /-- The place of the last blank of the current line that may become a line end. -/
  breakPoint : Option Nat := none
  /-- Whether the span that wrote the first character after the break point had escapes. -/
  tailEscapes : Option Bool := none
  /-- Whether the current line holds nothing but its margin. -/
  atLineStart : Bool := true
  /-- Whether the margin of the current line is written. -/
  marginWritten : Bool := false
  /-- Whether lines are kept whole for the time being. -/
  keepsLines : Bool := false
  deriving DecidableEq, Repr

namespace Writer

/-- The octet that ends a line. -/
def newline : UInt8 := 10

/-- The octet of a blank. -/
def blank : UInt8 := 32

/-- The octet of a backslash. -/
def backslash : UInt8 := 92

/-- The number of margins put down. -/
def depth (w : Writer) : Nat :=
  w.segments.length

/-- Put down a margin inside the others. -/
def pushMargin (segment : String) (w : Writer) : Writer :=
  { w with
    segments := w.segments ++ [segment]
    margin := w.margin ++ (Text.Utf8.octets segment).toArray }

/-- Forget what is known about the current line: a new one begins. -/
def startLine (w : Writer) : Writer :=
  { w with
    column := 0
    atLineStart := true
    marginWritten := false
    breakPoint := none
    tailEscapes := none }

/-- Owe the next span a line of its own. -/
def owe (owed : Owed) (w : Writer) : Writer :=
  if w.owed.level < owed.level then { w with owed } else w

/-- The next span begins a line. -/
def oweLineEnd (w : Writer) : Writer :=
  w.owe .lineEnd

/-- The next span begins a line after a blank one. -/
def oweBlankLine (w : Writer) : Writer :=
  w.owe .blankLine

/-- What is owed is the greater of the two. -/
theorem level_owe (owed : Owed) (w : Writer) :
    (w.owe owed).owed.level = max w.owed.level owed.level := by
  rw [owe]
  split
  · dsimp only
    omega
  · omega

/-- The number of line ends at the end of the buffer, counted up to a limit. -/
def trailingNewlines (w : Writer) (limit : Nat) : Nat :=
  let last := w.buffer.extract (w.buffer.size - limit) w.buffer.size
  (last.toList.reverse.takeWhile (· == newline)).length

/-- The octets that pay the breaks owed. Line ends that are already there count, and the start
of the text counts as any number of them; a blank line has its margin. -/
def breaksOwed (w : Writer) : Array UInt8 :=
  let trailing := w.trailingNewlines w.owed.level
  if trailing < w.owed.level ∧ trailing < w.buffer.size then
    (if trailing = 0 then #[newline] else #[]) ++
      (if w.owed = .blankLine then w.margin.push newline else #[])
  else #[]

/-- Write the breaks owed. -/
def flush (w : Writer) : Writer :=
  if w.owed = .nothing then w
  else
    let owed := w.breaksOwed
    { w with buffer := w.buffer ++ owed, owed := .nothing }.startLine

/-- Nothing is owed any more. -/
@[simp] theorem owed_flush (w : Writer) : w.flush.owed = .nothing := by
  rw [flush]
  split
  · assumption
  · rfl

/-- A second payment changes nothing. -/
theorem flush_flush (w : Writer) : w.flush.flush = w.flush := by
  rw [flush.eq_1 w.flush, if_pos (owed_flush w)]

end Writer

/-- A layout in progress. A failed step keeps the writer that it leaves. -/
abbrev Writing := EStateM LayoutError Writer

section Steps

variable {ε σ α β : Type} {step : EStateM ε σ α} {next : α → EStateM ε σ β} {s mid : σ}

/-- A step that succeeds is followed by the next one, which goes on from the state that it
leaves. -/
theorem bind_of_ok {a : α} (h : step s = .ok a mid) : (step >>= next) s = next a mid := by
  show EStateM.bind step next s = next a mid
  rw [EStateM.bind, h]

/-- A step that fails ends the work: the next one is not taken. -/
theorem bind_of_error {e : ε} (h : step s = .error e mid) :
    (step >>= next) s = .error e mid := by
  show EStateM.bind step next s = .error e mid
  rw [EStateM.bind, h]

end Steps

namespace Writer

/-- Take back the innermost margin, which must be the expected one when one is named. -/
def popMargin (expected : Option String) : Writing String := fun w =>
  match w.segments.getLast? with
  | none => .error .marginEmpty w
  | some top =>
    if expected = none ∨ expected = some top then
      .ok top
        { w with
          segments := w.segments.dropLast
          margin := w.margin.take (w.margin.size - (Text.Utf8.octets top).length) }
    else .error (.marginMismatch (expected.getD "") top w.depth) w

/-- Hand over the octets written, once all margins are taken back. -/
def detach : Writing (List UInt8) := fun w =>
  if w.segments.isEmpty then .ok w.buffer.toList { w with buffer := #[] }
  else .error (.marginOpen w.depth) w

end Writer

end MarkdownLayout
