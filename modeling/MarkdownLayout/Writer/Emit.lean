import MarkdownLayout.Writer.Basic

/-!
# Writing spans

A span is written character by character. A blank that may be broken is remembered; once the line
is too long, all that follows the blank moves to a new line. Escapes depend on the character, on
the one after it in the same span, on the start of the line and on the octet written last.
-/

namespace MarkdownLayout.Writer

/-- Characters that always get a backslash in escaped text. -/
def alwaysEscaped : List Char := ['*', '_', '[', ']', '<', '>', '\\']

/-- Characters that would open a block at the start of a line. -/
def opensBlock : List Char := ['-', '+', '#', '=']

theorem eq_of_mem_opensBlock {c : Char} (h : c ∈ opensBlock) :
    c = '-' ∨ c = '+' ∨ c = '#' ∨ c = '=' := by
  simpa [opensBlock] using h

/-- Characters that would complete a list number after a digit. -/
def endsNumber : List Char := ['.', ')']

/-- Whether an octet is an ASCII digit. -/
def isDigitOctet (b : UInt8) : Bool :=
  0x30 ≤ b && b ≤ 0x39

/-- Whether an octet would open a block at the start of a line. -/
def opensBlockOctet (b : UInt8) : Bool :=
  opensBlock.any fun c => c.toNat == b.toNat

/-- Whether a character needs a backslash here. `next` is the character after it in its span. -/
def needsEscape (w : Writer) (c : Char) (next : Option Char) : Bool :=
  if c ∈ alwaysEscaped then true
  else if c = '&' then next.any Char.isAlpha
  else if c = '!' then next = some '['
  else if c ∈ opensBlock then w.atLineStart
  else if c ∈ endsNumber then w.buffer.back?.any isDigitOctet
  else false

/-- Write the margin of a line that is about to receive its first character. -/
def openLine (w : Writer) : Writer :=
  if w.atLineStart ∧ ¬ w.marginWritten then
    { w with buffer := w.buffer ++ w.margin, column := w.margin.size, marginWritten := true }
  else w

/-- Write a blank that may become a line end. It is dropped at the start of a line. -/
def placeBlank (w : Writer) : Writer :=
  if w.atLineStart then w
  else
    { w with
      buffer := w.buffer.push blank
      column := w.column + 1
      breakPoint := some w.buffer.size
      tailEscapes := none }

/-- End the line. -/
def placeNewline (w : Writer) : Writer :=
  { w with buffer := w.buffer.push newline }.startLine

/-- Write a character, behind a backslash when it needs one. -/
def placeGlyph (escapes : Bool) (c : Char) (next : Option Char) (w : Writer) : Writer :=
  let escaped := escapes && w.needsEscape c next
  { w with
    buffer := (if escaped then w.buffer.push backslash else w.buffer) ++ String.utf8EncodeChar c
    column := w.column + (if escaped then 2 else 1)
    tailEscapes :=
      if w.breakPoint.isSome ∧ w.tailEscapes = none then some escapes else w.tailEscapes
    atLineStart := false }

/-- Write one character of a span. -/
def place (policy : Policy) (c : Char) (next : Option Char) (w : Writer) : Writer :=
  if c = ' ' ∧ policy.wraps then w.placeBlank
  else if c = '\n' then w.placeNewline
  else w.placeGlyph policy.escapes c next

/-- Move all that follows the break point to a new line. A character that would open a block
there gets a backslash if its span has escapes. -/
def rewind (breakPoint : Nat) : Writing Unit := fun w =>
  let tail := w.buffer.extract (breakPoint + 1) w.buffer.size
  let guarded := w.tailEscapes = some true ∧ tail[0]?.any opensBlockOctet
  let moved :=
    { w with
      buffer :=
        (w.buffer.take breakPoint).push newline ++ w.margin ++
          (if guarded then #[backslash] else #[]) ++ tail
      column := w.margin.size + (if guarded then 1 else 0) }
  match Text.Utf8.decode tail.toList with
  | .ok cs =>
    .ok ()
      { moved with
        column := moved.column + cs.length
        breakPoint := none
        tailEscapes := none
        atLineStart := tail.isEmpty
        marginWritten := true }
  | .error fault => .error (.undecodable fault) moved

/-- Break the line if it has become too long and can be broken. -/
def settle : Writing Unit := fun w =>
  match w.breakPoint with
  | some breakPoint =>
    if 0 < w.width ∧ w.width < w.column ∧ ¬ w.atLineStart then rewind breakPoint w else .ok () w
  | none => .ok () w

/-- Write one character of a span and break the line if need be. -/
def put (policy : Policy) (c : Char) (next : Option Char) : Writing Unit := fun w =>
  settle (w.openLine.place policy c next)

/-- Write the characters of a span. -/
def putAll (policy : Policy) : List Char → Writing Unit
  | [] => pure ()
  | c :: rest => do
    put policy c rest.head?
    putAll policy rest

/-- Drop each blank that follows a blank; `after` tells whether one stands in front. -/
def squeezeAfter (after : Bool) : List Char → List Char
  | [] => []
  | c :: rest =>
    if c = ' ' then if after then squeezeAfter true rest else ' ' :: squeezeAfter true rest
    else c :: squeezeAfter false rest

/-- One blank in place of each run of blanks. -/
def squeeze (cs : List Char) : List Char :=
  squeezeAfter false cs

/-- The policy that holds for a span while lines are or are not kept whole. -/
def effective (w : Writer) (policy : Policy) : Policy :=
  { policy with wraps := policy.wraps && !w.keepsLines }

/-- Write a span, after the breaks owed. A run of blanks that may be broken counts as one. -/
def emit (policy : Policy) (span : String) : Writing Unit := do
  let policy := (← get).effective policy
  modify flush
  putAll policy (if policy.wraps then squeeze span.toList else span.toList)

/-- Write markup as it stands. -/
def literal (text : String) : Writing Unit :=
  emit .verbatim text

end MarkdownLayout.Writer
