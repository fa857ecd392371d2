import MarkdownLayout.Writer.Emit

/-!
# Drafts

A draft is a writer seen as characters. The writer keeps octets, the octet position of the last
break point and three flags about its current line; a draft keeps the characters before the break
point, the characters after it, and one of four states of the line. States that no writer reaches,
such as a break point at the start of a line, cannot be written down.

A draft also remembers which of its blanks were written as breakable ones. Nothing that it does
depends on that. No operation on a draft fails except the return of a margin, which is left to the
steps of a run.
-/

namespace MarkdownLayout

/-- A list that ends with something twice has it as its last element. This is how the end of a blank
line is seen to be the end of a line. -/
theorem getLast?_of_pair_suffix {α : Type} {x : α} {l : List α} (h : [x, x] <:+ l) :
    l.getLast? = some x := by
  obtain ⟨front, rfl⟩ := h
  rw [List.getLast?_append]
  rfl

/-- A list that ends with something twice once it has been added ended with it before. A blank line
that a line end completes began with the end of a line. -/
theorem getLast?_of_pair_suffix_concat {α : Type} {x : α} {l : List α} (h : [x, x] <:+ l ++ [x]) :
    l.getLast? = some x := by
  obtain ⟨front, hfront⟩ := h
  have hl : front ++ [x] = l := (List.append_left_inj [x]).mp (by simpa using hfront)
  rw [← hl, List.getLast?_concat]

/-- A character of a draft, with what the text itself does not tell: whether the line may be broken
there. -/
structure Glyph where
  /-- The character itself. -/
  char : Char
  /-- Whether it was written as a blank at which its line may be broken. -/
  breakable : Bool
  deriving DecidableEq, Repr

namespace Glyph

/-- Characters at which no line is broken. All but the blanks of running text are written in this
way. -/
def plain (cs : List Char) : List Glyph :=
  cs.map (⟨·, false⟩)

/-- A blank at which a line may be broken. Breaking the line there puts a line end in its place. -/
def joint : Glyph := ⟨' ', true⟩

/-- The characters of a list of glyphs, without the record of where the lines may be broken. -/
def chars (gs : List Glyph) : List Char :=
  gs.map Glyph.char

@[simp] theorem plain_nil : plain [] = [] := rfl

@[simp] theorem plain_cons (c : Char) (cs : List Char) :
    plain (c :: cs) = ⟨c, false⟩ :: plain cs := rfl

/-- Plain characters may be written in one piece or in two. -/
@[simp] theorem plain_append (cs ds : List Char) : plain (cs ++ ds) = plain cs ++ plain ds :=
  List.map_append

/-- Every character of a span is one glyph, so lengths may be counted in either. -/
@[simp] theorem length_plain (cs : List Char) : (plain cs).length = cs.length :=
  List.length_map _

@[simp] theorem chars_nil : chars [] = [] := rfl

@[simp] theorem chars_cons (g : Glyph) (gs : List Glyph) : chars (g :: gs) = g.char :: chars gs :=
  rfl

/-- The characters of a text in two parts are those of its parts. -/
@[simp] theorem chars_append (gs hs : List Glyph) : chars (gs ++ hs) = chars gs ++ chars hs :=
  List.map_append

/-- What has been written as plain characters reads as these characters. -/
@[simp] theorem chars_plain (cs : List Char) : chars (plain cs) = cs := by
  rw [chars, plain, List.map_map]
  exact List.map_id cs

/-- A breakable blank reads as a blank, and the text does not tell it from others. -/
@[simp] theorem char_joint : joint.char = ' ' := rfl

/-- No glyph of a plain text can be broken at. The breakable blanks of a draft all come from
`Draft.placeBlank`. -/
theorem not_breakable_of_mem_plain {g : Glyph} {cs : List Char} (h : g ∈ plain cs) :
    g.breakable = false := by
  obtain ⟨c, _, rfl⟩ := List.mem_map.1 h
  rfl

end Glyph

/-- What the current line of a draft holds. -/
inductive Line where
  /-- Nothing yet. -/
  | fresh
  /-- Its margin and nothing else. -/
  | opened
  /-- Text without a place where it may be broken. -/
  | solid
  /-- Text that may be broken at a blank, and `tail` after that blank. If there is a tail, `escapes`
  tells whether the span that wrote its first character has escapes. -/
  | loose (tail : List Char) (escapes : Bool)
  deriving DecidableEq, Repr

/-- The text written so far as characters, and the state of its last line. -/
structure Draft where
  /-- The column after which a line is broken; lines are not broken at zero or below. -/
  width : Int := defaultWidth
  /-- The text before the break point, or the whole text when there is none. -/
  head : List Glyph := []
  /-- What the current line holds. -/
  line : Line := .fresh
  /-- The margins put down, the outermost first. -/
  segments : List String := []
  /-- The column reached on the current line. -/
  column : Nat := 0
  /-- The line breaks owed before the next span. -/
  owed : Owed := .nothing
  /-- Whether lines are kept whole for the time being. -/
  keepsLines : Bool := false
  deriving DecidableEq, Repr

namespace Draft

/-- The whole text, with the blank that may be broken. -/
def glyphs (d : Draft) : List Glyph :=
  match d.line with
  | .loose tail _ => d.head ++ Glyph.joint :: Glyph.plain tail
  | _ => d.head

/-- The characters of the whole text. -/
def text (d : Draft) : List Char :=
  Glyph.chars d.glyphs

/-- The characters that open every line. -/
def margin (d : Draft) : List Char :=
  d.segments.flatMap String.toList

/-- The column behind the margin. It counts octets. -/
def indent (d : Draft) : Nat :=
  (Text.Utf8.encode d.margin).length

/-- Whether the current line holds nothing but its margin. -/
def atLineStart (d : Draft) : Bool :=
  match d.line with
  | .fresh | .opened => true
  | .solid | .loose .. => false

/-- Whether a character needs a backslash here. `next` is the character after it in its span. -/
def needsEscape (d : Draft) (c : Char) (next : Option Char) : Bool :=
  if c ∈ Writer.alwaysEscaped then true
  else if c = '&' then next.any Char.isAlpha
  else if c = '!' then next = some '['
  else if c ∈ Writer.opensBlock then d.atLineStart
  else if c ∈ Writer.endsNumber then d.text.getLast?.any Char.isDigit
  else false

/-- A character with the backslash that it needs. -/
def spelled (escapes : Bool) (c : Char) (next : Option Char) (d : Draft) : List Char :=
  if escapes && d.needsEscape c next then ['\\', c] else [c]

/-- Write the margin of a line that is about to receive its first character. -/
def openLine (d : Draft) : Draft :=
  match d.line with
  | .fresh => { d with head := d.head ++ Glyph.plain d.margin, line := .opened, column := d.indent }
  | _ => d

/-- Write a blank that may become a line end. It is dropped at the start of a line. -/
def placeBlank (d : Draft) : Draft :=
  if d.atLineStart then d
  else { d with head := d.glyphs, line := .loose [] false, column := d.column + 1 }

/-- Write `cs` and begin a line. -/
def endLine (cs : List Char) (d : Draft) : Draft :=
  { d with head := d.glyphs ++ Glyph.plain cs, line := .fresh, column := 0 }

/-- Write characters of a span where the line stands. -/
def append (escapes : Bool) (cs : List Char) (d : Draft) : Draft :=
  match d.line with
  | .loose [] _ => { d with line := .loose cs escapes, column := d.column + cs.length }
  | .loose tail first =>
    { d with line := .loose (tail ++ cs) first, column := d.column + cs.length }
  | _ => { d with head := d.head ++ Glyph.plain cs, line := .solid, column := d.column + cs.length }

/-- Write one character of a span. -/
def place (policy : Policy) (c : Char) (next : Option Char) (d : Draft) : Draft :=
  if c = ' ' ∧ policy.wraps then d.placeBlank
  else if c = '\n' then d.endLine ['\n']
  else d.append policy.escapes (d.spelled policy.escapes c next)

/-- The backslash in front of a tail that would open a block on a line of its own. -/
def tailGuard (escapes : Bool) (tail : List Char) : List Char :=
  if escapes ∧ tail.head?.any (· ∈ Writer.opensBlock) then ['\\'] else []

/-- Move a tail to a new line. -/
def rewind (tail : List Char) (escapes : Bool) (d : Draft) : Draft :=
  { d with
    head := d.head ++ Glyph.plain ('\n' :: (d.margin ++ tailGuard escapes tail ++ tail))
    line := if tail = [] then .opened else .solid
    column := d.indent + (tailGuard escapes tail).length + tail.length }

/-- Break the line if it has become too long and can be broken. -/
def settle (d : Draft) : Draft :=
  match d.line with
  | .loose tail escapes =>
    if 0 < d.width ∧ d.width < d.column then d.rewind tail escapes else d
  | _ => d

/-- Write one character of a span and break the line if need be. -/
def put (policy : Policy) (c : Char) (next : Option Char) (d : Draft) : Draft :=
  (d.openLine.place policy c next).settle

/-- Write the characters of a span. -/
def putAll (policy : Policy) : List Char → Draft → Draft
  | [], d => d
  | c :: rest, d => putAll policy rest (d.put policy c rest.head?)

/-- The line ends that pay the breaks owed, with the margin of a blank line. -/
def breaksOwed (d : Draft) : List Char :=
  match d.owed with
  | .nothing => []
  | .lineEnd => if d.text = [] ∨ d.text.getLast? = some '\n' then [] else ['\n']
  | .blankLine =>
    if d.text = [] ∨ d.text = ['\n'] ∨ ['\n', '\n'] <:+ d.text then []
    else if d.text.getLast? = some '\n' then d.margin ++ ['\n']
    else '\n' :: (d.margin ++ ['\n'])

/-- Write the breaks owed. -/
def flush (d : Draft) : Draft :=
  if d.owed = .nothing then d else { d.endLine d.breaksOwed with owed := .nothing }

/-- Owe the next span a line of its own. -/
def owe (owed : Owed) (d : Draft) : Draft :=
  if d.owed.level < owed.level then { d with owed } else d

/-- The policy that holds for a span while lines are or are not kept whole. -/
def effective (d : Draft) (policy : Policy) : Policy :=
  { policy with wraps := policy.wraps && !d.keepsLines }

/-- The characters of a span that are written one after the other. -/
def charsOf (policy : Policy) (span : String) : List Char :=
  if policy.wraps then Writer.squeeze span.toList else span.toList

/-- Write a span, after the breaks owed. -/
def emit (policy : Policy) (span : String) (d : Draft) : Draft :=
  d.flush.putAll (d.effective policy) (charsOf (d.effective policy) span)

/-- Put down a margin inside the others. -/
def pushMargin (segment : String) (d : Draft) : Draft :=
  { d with segments := d.segments ++ [segment] }

/-- Take back the innermost margin. -/
def dropMargin (d : Draft) : Draft :=
  { d with segments := d.segments.dropLast }

/-- A character is a breakable blank, ends the line, or is spelled where the line stands. These are
the only ways in which a draft receives a character. -/
theorem place_cases (policy : Policy) (c : Char) (next : Option Char) (d : Draft) :
    (c = ' ' ∧ d.place policy c next = d.placeBlank) ∨
      (c = '\n' ∧ d.place policy c next = d.endLine ['\n']) ∨
      (c ≠ '\n' ∧ d.place policy c next =
        d.append policy.escapes (d.spelled policy.escapes c next)) := by
  unfold place
  split
  · rename_i hc
    exact .inl ⟨hc.1, rfl⟩
  · split
    · rename_i hc
      exact .inr (.inl ⟨hc, rfl⟩)
    · rename_i hc
      exact .inr (.inr ⟨hc, rfl⟩)

/-- A line that can be broken is broken when it is too long, and nothing else is. A draft that is
left alone has no break point or has room for its line. -/
theorem settle_cases (d : Draft) :
    (∃ tail escapes, d.line = .loose tail escapes ∧ d.settle = d.rewind tail escapes) ∨
      (d.settle = d ∧ ∀ tail escapes, d.line = .loose tail escapes →
        ¬ (0 < d.width ∧ d.width < d.column)) := by
  unfold settle
  split
  · rename_i tail escapes hl
    split
    · exact .inl ⟨tail, escapes, hl, rfl⟩
    · rename_i hw
      exact .inr ⟨rfl, fun _ _ _ => hw⟩
  · rename_i hl
    exact .inr ⟨rfl, fun tail escapes hn => absurd hn (hl tail escapes)⟩

/-- The part of a draft that is the same before and after characters are written. Spans change the
text, the line and the column, and nothing else but what is owed. -/
structure Frame where
  /-- The width of a line. -/
  width : Int
  /-- The margins put down. -/
  segments : List String
  /-- The line breaks owed. -/
  owed : Owed
  /-- Whether lines are kept whole. -/
  keepsLines : Bool

/-- The frame of a draft. -/
def frame (d : Draft) : Frame :=
  ⟨d.width, d.segments, d.owed, d.keepsLines⟩

/-- Drafts of one frame break their lines at one width. -/
theorem width_of_frame {d d' : Draft} (h : d'.frame = d.frame) : d'.width = d.width :=
  congrArg Frame.width h

/-- Drafts of one frame owe the same breaks, so characters neither owe any nor pay them. -/
theorem owed_of_frame {d d' : Draft} (h : d'.frame = d.frame) : d'.owed = d.owed :=
  congrArg Frame.owed h

/-- Drafts of one frame keep their lines whole at the same times. -/
theorem keepsLines_of_frame {d d' : Draft} (h : d'.frame = d.frame) :
    d'.keepsLines = d.keepsLines :=
  congrArg Frame.keepsLines h

/-- Drafts of one frame have put down the same margins, one inside the other. -/
theorem segments_of_frame {d d' : Draft} (h : d'.frame = d.frame) : d'.segments = d.segments :=
  congrArg Frame.segments h

/-- Drafts of one frame open their lines with the same characters. -/
theorem margin_of_frame {d d' : Draft} (h : d'.frame = d.frame) : d'.margin = d.margin := by
  rw [margin, margin, segments_of_frame h]

/-- Drafts of one frame begin their lines in the same column. -/
theorem indent_of_frame {d d' : Draft} (h : d'.frame = d.frame) : d'.indent = d.indent := by
  rw [indent, indent, margin_of_frame h]

/-- The margin of a line is written without a change to the margins themselves. -/
@[simp] theorem frame_openLine (d : Draft) : d.openLine.frame = d.frame := by
  unfold openLine
  split <;> rfl

/-- A breakable blank changes the text and the column only, and at the start of a line nothing. -/
@[simp] theorem frame_placeBlank (d : Draft) : d.placeBlank.frame = d.frame := by
  unfold placeBlank
  split <;> rfl

/-- Characters that go behind the break point and those that go to a solid line leave the frame
alone. -/
@[simp] theorem frame_append (escapes : Bool) (cs : List Char) (d : Draft) :
    (d.append escapes cs).frame = d.frame := by
  unfold append
  split <;> rfl

/-- However a character is received, the frame stays: this is the three cases above put together. -/
@[simp] theorem frame_place (policy : Policy) (c : Char) (next : Option Char) (d : Draft) :
    (d.place policy c next).frame = d.frame := by
  rcases place_cases policy c next d with ⟨_, hp⟩ | ⟨_, hp⟩ | ⟨_, hp⟩ <;> rw [hp]
  · exact frame_placeBlank d
  · rfl
  · exact frame_append _ _ d

/-- A break moves the tail to a line under the same margins, and owes nothing for it. -/
@[simp] theorem frame_settle (d : Draft) : d.settle.frame = d.frame := by
  rcases settle_cases d with ⟨tail, escapes, _, hs⟩ | ⟨hs, _⟩ <;> rw [hs]
  rfl

/-- The step of a span: a character and the break that it may bring about keep the frame. -/
@[simp] theorem frame_put (policy : Policy) (c : Char) (next : Option Char) (d : Draft) :
    (d.put policy c next).frame = d.frame := by
  rw [put, frame_settle, frame_place, frame_openLine]

/-- A whole span keeps the frame, by induction on its characters. -/
@[simp] theorem frame_putAll (policy : Policy) (cs : List Char) (d : Draft) :
    (d.putAll policy cs).frame = d.frame := by
  induction cs generalizing d with
  | nil => rfl
  | cons c rest ih => rw [putAll, ih, frame_put]

/-- The column counts the characters written, wherever on the line they go. -/
@[simp] theorem column_append (escapes : Bool) (cs : List Char) (d : Draft) :
    (d.append escapes cs).column = d.column + cs.length := by
  unfold append
  split <;> rfl

/-- Breaks are paid under the margins that stand, and these stay. -/
@[simp] theorem segments_flush (d : Draft) : d.flush.segments = d.segments := by
  unfold flush
  split <;> rfl

/-- Breaks are paid without regard to the width, and leave it alone. -/
theorem width_flush (d : Draft) : d.flush.width = d.width := by
  unfold flush
  split <;> rfl

/-- A block that keeps its lines whole does so across the breaks paid before it. -/
theorem keepsLines_flush (d : Draft) : d.flush.keepsLines = d.keepsLines := by
  unfold flush
  split <;> rfl

/-- The line that a break begins opens with the margin of the line before it. -/
theorem margin_flush (d : Draft) : d.flush.margin = d.margin := by
  rw [margin, segments_flush, margin]

/-- A span leaves the margins as it finds them. Only `pushMargin` and `dropMargin` change them. -/
@[simp] theorem segments_emit (policy : Policy) (span : String) (d : Draft) :
    (d.emit policy span).segments = d.segments := by
  rw [emit, segments_of_frame (frame_putAll _ _ _), segments_flush]

/-- What is written behind a break point goes to the tail. The first span that writes there decides
whether the tail has escapes. -/
theorem line_append_of_loose {d : Draft} {tail : List Char} {first : Bool}
    (h : d.line = .loose tail first) (escapes : Bool) (cs : List Char) :
    (d.append escapes cs).line = .loose (tail ++ cs) (if tail = [] then escapes else first) := by
  cases tail <;> simp [append, h]

/-- Where there is no break point the line becomes solid, also if it held nothing but its margin. -/
theorem line_append_of_not_loose {d : Draft} (h : ∀ tail first, d.line ≠ .loose tail first)
    (escapes : Bool) (cs : List Char) :
    (d.append escapes cs).line = .solid := by
  obtain ⟨width, head, line, segments, column, owed, keepsLines⟩ := d
  cases line with
  | loose tail first => exact absurd rfl (h tail first)
  | _ => rfl

/-- What is written leaves a line that goes on behind its break point, or a solid one. The two cases
above are all there are. -/
theorem line_append_cases (escapes : Bool) (cs : List Char) (d : Draft) :
    (d.append escapes cs).line = .solid ∨
      ∃ tail first, d.line = .loose tail first ∧ (d.append escapes cs).line =
        .loose (tail ++ cs) (if tail = [] then escapes else first) := by
  cases hl : d.line with
  | loose tail first => exact .inr ⟨tail, first, rfl, line_append_of_loose hl escapes cs⟩
  | _ => exact .inl (line_append_of_not_loose (by simp [hl]) escapes cs)

/-- Behind characters a line has begun, even if they are none at all: no block can open there. -/
theorem atLineStart_append (escapes : Bool) (cs : List Char) (d : Draft) :
    (d.append escapes cs).atLineStart = false := by
  rcases line_append_cases escapes cs d with hl | ⟨tail, first, _, hl⟩ <;> simp [atLineStart, hl]

/-- A line that has begun has its margin already, so opening it does nothing. -/
theorem line_ne_fresh_of_begun {d : Draft} (h : d.atLineStart = false) : d.line ≠ .fresh := by
  intro hl
  simp [atLineStart, hl] at h

/-- Characters are added at the end of the text, on either side of the break point. -/
@[simp] theorem glyphs_append (escapes : Bool) (cs : List Char) (d : Draft) :
    (d.append escapes cs).glyphs = d.glyphs ++ Glyph.plain cs := by
  obtain ⟨width, head, line, segments, column, owed, keepsLines⟩ := d
  rcases line with _ | _ | _ | ⟨_ | ⟨t, tail⟩, first⟩ <;> simp [append, glyphs]

/-- The text as it reads grows by the characters written. -/
@[simp] theorem text_append (escapes : Bool) (cs : List Char) (d : Draft) :
    (d.append escapes cs).text = d.text ++ cs := by
  simp [text]

/-- Two pieces of a span may be written as one. The first must not be empty, or the second would be
the first to write behind a break point. -/
theorem append_append (escapes : Bool) {cs : List Char} (h : cs ≠ []) (ds : List Char) (d : Draft) :
    (d.append escapes cs).append escapes ds = d.append escapes (cs ++ ds) := by
  obtain ⟨c, cs, rfl⟩ := List.exists_cons_of_ne_nil h
  obtain ⟨width, head, line, segments, column, owed, keepsLines⟩ := d
  rcases line with _ | _ | _ | ⟨_ | ⟨t, tail⟩, first⟩ <;> simp [append] <;> omega

/-- A line to which a tail has been moved cannot be broken again. It is solid, or holds only its
margin when there was no tail to move. -/
theorem line_rewind_cases (tail : List Char) (escapes : Bool) (d : Draft) :
    (tail = [] ∧ (d.rewind tail escapes).line = .opened) ∨
      (tail ≠ [] ∧ (d.rewind tail escapes).line = .solid) := by
  by_cases ht : tail = []
  · exact .inl ⟨ht, if_pos ht⟩
  · exact .inr ⟨ht, if_neg ht⟩

/-- A break uses up its break point, so one line is never broken twice at one place. -/
theorem line_rewind_ne_loose (tail : List Char) (escapes : Bool) (d : Draft) (tail' : List Char)
    (escapes' : Bool) : (d.rewind tail escapes).line ≠ .loose tail' escapes' := by
  rcases line_rewind_cases tail escapes d with ⟨_, hl⟩ | ⟨_, hl⟩ <;> simp [hl]

/-- The line below a break has its margin, even where no tail follows. -/
theorem line_rewind_ne_fresh (tail : List Char) (escapes : Bool) (d : Draft) :
    (d.rewind tail escapes).line ≠ .fresh := by
  rcases line_rewind_cases tail escapes d with ⟨_, hl⟩ | ⟨_, hl⟩ <;> simp [hl]

/-- The text after a break: the blank has become a line end, the margin follows, and the tail comes
behind the backslash that it needs there. -/
theorem glyphs_rewind (tail : List Char) (escapes : Bool) (d : Draft) :
    (d.rewind tail escapes).glyphs =
      d.head ++ Glyph.plain ('\n' :: (d.margin ++ (tailGuard escapes tail ++ tail))) := by
  by_cases ht : tail = [] <;> simp [rewind, glyphs, ht]

/-- The same text as it reads, without the record of its breakable blanks. -/
theorem text_rewind (tail : List Char) (escapes : Bool) (d : Draft) :
    (d.rewind tail escapes).text =
      Glyph.chars d.head ++ '\n' :: (d.margin ++ (tailGuard escapes tail ++ tail)) := by
  simp [text, glyphs_rewind]

/-- The text of a line that can be broken ends with its blank and the tail behind it. -/
theorem text_of_loose {d : Draft} {tail : List Char} {escapes : Bool}
    (h : d.line = .loose tail escapes) : d.text = Glyph.chars d.head ++ ' ' :: tail := by
  simp [text, glyphs, h]

/-- A breakable blank at the start of a line is dropped: running text never begins a line with
one. -/
theorem placeBlank_of_atLineStart {d : Draft} (h : d.atLineStart = true) : d.placeBlank = d := by
  rw [placeBlank, if_pos h]

/-- On a line that has begun a breakable blank becomes the break point, and what stood behind the
former one can no longer be moved. -/
theorem placeBlank_of_begun {d : Draft} (h : d.atLineStart = false) :
    d.placeBlank =
      { d with head := d.glyphs, line := .loose [] false, column := d.column + 1 } := by
  rw [placeBlank, if_neg (by simp [h])]

/-- Behind a breakable blank there is no tail yet. -/
theorem line_placeBlank {d : Draft} (h : d.atLineStart = false) :
    d.placeBlank.line = .loose [] false := by
  rw [placeBlank_of_begun h]

/-- The text after a breakable blank on a line that has begun. It is the one place where a draft
gains a joint. -/
theorem glyphs_placeBlank {d : Draft} (h : d.atLineStart = false) :
    d.placeBlank.glyphs = d.glyphs ++ [Glyph.joint] := by
  rw [placeBlank_of_begun h]
  rfl

/-- The blank is read like any other. -/
theorem text_placeBlank {d : Draft} (h : d.atLineStart = false) :
    d.placeBlank.text = d.text ++ [' '] := by
  simp [text, glyphs_placeBlank h]

/-- The margin of a line is written once: a line that has it is left alone. -/
theorem openLine_of_ne_fresh {d : Draft} (h : d.line ≠ .fresh) : d.openLine = d := by
  unfold openLine
  split
  · exact absurd ‹_› h
  · rfl

/-- A line that has been opened has its margin, whatever it held before. -/
theorem openLine_line_ne_fresh (d : Draft) : d.openLine.line ≠ .fresh := by
  unfold openLine
  split
  · simp
  · assumption

/-- Characters open the line that they are written on, so it may as well be open before them.
Without characters the margin would be left behind. -/
theorem putAll_openLine {cs : List Char} (h : cs ≠ []) (policy : Policy) (d : Draft) :
    d.openLine.putAll policy cs = d.putAll policy cs := by
  obtain ⟨c, rest, rfl⟩ := List.exists_cons_of_ne_nil h
  rw [putAll, putAll, put, put, openLine_of_ne_fresh (openLine_line_ne_fresh d)]

/-- The characters that end a line are added to the text, behind the tail if there is one. -/
@[simp] theorem glyphs_endLine (cs : List Char) (d : Draft) :
    (d.endLine cs).glyphs = d.glyphs ++ Glyph.plain cs := rfl

/-- A line is ended by what it is ended with, and by nothing else. -/
@[simp] theorem text_endLine (cs : List Char) (d : Draft) :
    (d.endLine cs).text = d.text ++ cs := by
  simp [text]

/-- The first character of a line finds its margin written in front of it. -/
theorem glyphs_openLine_of_fresh {d : Draft} (h : d.line = .fresh) :
    d.openLine.glyphs = d.glyphs ++ Glyph.plain d.margin := by
  simp [openLine, glyphs, h]

/-- The same for the text as it reads. -/
theorem text_openLine_of_fresh {d : Draft} (h : d.line = .fresh) :
    d.openLine.text = d.text ++ d.margin := by
  simp [text, glyphs_openLine_of_fresh h]

/-- No character is swallowed: with or without a backslash something is written for it. -/
theorem spelled_ne_nil (escapes : Bool) (c : Char) (next : Option Char) (d : Draft) :
    d.spelled escapes c next ≠ [] := by
  unfold spelled
  split <;> simp

/-- A character that ends no line is spelled without line ends, so a draft stays on its line while
it writes one. -/
theorem newline_notMem_spelled {c : Char} (h : c ≠ '\n') (escapes : Bool) (next : Option Char)
    (d : Draft) : '\n' ∉ d.spelled escapes c next := by
  unfold spelled
  split <;> simp [h.symm]

/-- The backslash in front of a moved tail does not end the line either. -/
theorem newline_notMem_tailGuard (escapes : Bool) (tail : List Char) :
    '\n' ∉ tailGuard escapes tail := by
  unfold tailGuard
  split <;> simp

/-- The breaks owed begin with a line end, unless the text is empty or has just ended a line. In all
cases at most one blank line follows, and it holds its margin. -/
theorem breaksOwed_cases {d : Draft} (h : d.owed ≠ .nothing) :
    ((d.text = [] ∨ d.text.getLast? = some '\n') ∧
        (d.breaksOwed = [] ∨ d.breaksOwed = d.margin ++ ['\n'])) ∨
      (¬ (d.text = [] ∨ d.text.getLast? = some '\n') ∧
        (d.breaksOwed = ['\n'] ∨ d.breaksOwed = '\n' :: (d.margin ++ ['\n']))) := by
  have hblank : d.text = ['\n'] ∨ ['\n', '\n'] <:+ d.text → d.text.getLast? = some '\n' := by
    rintro (h | h)
    · rw [h]
      rfl
    · exact getLast?_of_pair_suffix h
  unfold breaksOwed
  cases ho : d.owed with
  | nothing => exact absurd ho h
  | lineEnd =>
    dsimp only
    split
    · rename_i ht
      exact .inl ⟨ht, .inl rfl⟩
    · rename_i ht
      exact .inr ⟨ht, .inl rfl⟩
  | blankLine =>
    dsimp only
    split
    · rename_i ht
      exact .inl ⟨ht.imp_right hblank, .inl rfl⟩
    · rename_i ht
      split
      · rename_i hl
        exact .inl ⟨.inr hl, .inr rfl⟩
      · rename_i hl
        exact .inr ⟨fun hn => hn.elim (fun he => ht (.inl he)) hl, .inr rfl⟩

/-- A line that has no break point is left as it is, however long it has become. -/
theorem settle_of_solid {d : Draft} (h : d.line = .solid) : d.settle = d := by
  unfold settle
  rw [h]

/-- What stands behind a break point is on one line. A tail is moved as a whole, so the text of a
broken line never holds a second line end. -/
def TailUnbroken (d : Draft) : Prop :=
  ∀ tail escapes, d.line = .loose tail escapes → '\n' ∉ tail

namespace TailUnbroken

variable {d : Draft}

/-- Without a break point there is no tail, and nothing to be said about it. -/
theorem of_not_loose (h : ∀ tail escapes, d.line ≠ .loose tail escapes) : d.TailUnbroken :=
  fun tail escapes hl => absurd hl (h tail escapes)

/-- The margin of a new line is written where no break point is. -/
theorem openLine (h : d.TailUnbroken) : d.openLine.TailUnbroken := by
  by_cases hf : d.line = .fresh
  · exact of_not_loose (by simp [Draft.openLine, hf])
  · rw [openLine_of_ne_fresh hf]
    exact h

/-- A new break point has nothing behind it. -/
theorem placeBlank (h : d.TailUnbroken) : d.placeBlank.TailUnbroken := by
  cases hs : d.atLineStart with
  | true =>
    rw [placeBlank_of_atLineStart hs]
    exact h
  | false =>
    intro tail escapes hl
    rw [line_placeBlank hs] at hl
    cases hl
    exact List.not_mem_nil

/-- Characters without a line end may join the tail. -/
theorem append (h : d.TailUnbroken) {cs : List Char} (hcs : '\n' ∉ cs) (escapes : Bool) :
    (d.append escapes cs).TailUnbroken := by
  intro tail' escapes' ht
  rcases line_append_cases escapes cs d with hs | ⟨tail, first, hl, hs⟩
  · rw [hs] at ht
    cases ht
  · rw [hs] at ht
    cases ht
    simpa [hcs] using h tail first hl

/-- The end of a line gives up the break point. -/
theorem endLine (cs : List Char) (d : Draft) : (d.endLine cs).TailUnbroken :=
  of_not_loose fun _ _ hl => by cases hl

/-- So does a break, which leaves the tail on a line of its own. -/
theorem rewind (tail : List Char) (escapes : Bool) (d : Draft) :
    (d.rewind tail escapes).TailUnbroken :=
  of_not_loose (line_rewind_ne_loose tail escapes d)

/-- A line is broken or left alone, and keeps to one line in both cases. -/
theorem settle (h : d.TailUnbroken) : d.settle.TailUnbroken := by
  rcases settle_cases d with ⟨tail, escapes, _, hs⟩ | ⟨hs, _⟩ <;> rw [hs]
  · exact rewind tail escapes d
  · exact h

/-- A character that is no line end may go behind the break point, and a line end takes the break
point away. This is the step of the invariant. -/
theorem put (h : d.TailUnbroken) (policy : Policy) (c : Char) (next : Option Char) :
    (d.put policy c next).TailUnbroken := by
  refine settle ?_
  rcases place_cases policy c next d.openLine with ⟨_, hp⟩ | ⟨_, hp⟩ | ⟨hc, hp⟩ <;> rw [hp]
  · exact h.openLine.placeBlank
  · exact endLine ['\n'] d.openLine
  · exact h.openLine.append (newline_notMem_spelled hc _ _ _) _

/-- The invariant holds along a span, by induction on its characters. -/
theorem putAll (h : d.TailUnbroken) (policy : Policy) (cs : List Char) :
    (d.putAll policy cs).TailUnbroken := by
  induction cs generalizing d with
  | nil => exact h
  | cons c rest ih => exact ih (h.put policy c rest.head?)

/-- Paying a break gives up the break point as well. -/
theorem flush (h : d.TailUnbroken) : d.flush.TailUnbroken := by
  unfold Draft.flush
  split
  · exact h
  · exact endLine d.breaksOwed d

end TailUnbroken

end Draft

end MarkdownLayout
