import MarkdownLayout.Text.Alphanumeric

/-!
# Filling lines

A text is laid out in lines of a given width. It is cut into pieces at the places where a line may
end: around gaps, after the hyphen between two parts of a word, and around a dash between words.
Each line takes as many pieces as fit. A piece longer than a whole line is broken, after a hyphen
if it has one and anywhere otherwise. Gaps at the ends of a line are left out.
-/

namespace MarkdownLayout.Text

/-- Whether a character is a gap between words: a blank, a tab or a line end of ASCII. -/
def isGap (c : Char) : Bool :=
  c == ' ' || (9 ≤ c.toNat && c.toNat ≤ 13)

/-- Write one blank for every run of gaps. -/
def squeezeGaps : List Char → List Char
  | [] => []
  | c :: rest =>
    if isGap c then
      match squeezeGaps rest with
      | ' ' :: tail => ' ' :: tail
      | tail => ' ' :: tail
    else c :: squeezeGaps rest

/-- Whether a character can stand before a dash: a word character or the punctuation that ends a
word. -/
def endsWord (c : Char) : Bool :=
  isWordChar c || ['!', '"', '\x27', '&', '.', ',', '?'].contains c

/-- Whether a text begins with two letters, between which a hyphen may stand. -/
def beginsWithLetters : List Char → Bool
  | a :: b :: rest =>
    isWordLetter a && (isWordLetter b || (b == '-' && rest.head?.any isWordLetter))
  | _ => false

/-- Whether a text begins with a dash, two or more hyphens, behind which stands a character that
satisfies `p`. -/
def beginsWithDash (p : Char → Bool) : List Char → Bool
  | '-' :: '-' :: rest => (rest.dropWhile (· == '-')).head?.any p
  | _ => false

/-- Whether a line may end between two parts of a text, of which the first is given backwards. -/
def mayBreak (before after : List Char) : Bool :=
  before.head?.any isGap != after.head?.any isGap ||
  (before.head? == some '-' && beginsWithLetters before.tail && beginsWithLetters after) ||
  (before.head?.any endsWord && beginsWithDash isWordChar after) ||
  (beginsWithDash endsWord before && after.head?.any isWordChar)

/-- Cut what follows `before`, which is given backwards, wherever a line may end. -/
def piecesAfter (before : List Char) : List Char → List (List Char)
  | [] => []
  | c :: rest =>
    match piecesAfter (c :: before) rest with
    | [] => [[c]]
    | piece :: pieces =>
      if mayBreak (c :: before) rest then [c] :: piece :: pieces else (c :: piece) :: pieces

/-- The pieces of a text. -/
def pieces (cs : List Char) : List (List Char) :=
  piecesAfter [] cs

/-- Cutting what follows loses nothing. -/
@[simp] theorem flatten_piecesAfter (before cs : List Char) :
    (piecesAfter before cs).flatten = cs := by
  induction cs generalizing before with
  | nil => rfl
  | cons c rest ih =>
    have h := ih (c :: before)
    unfold piecesAfter
    cases hp : piecesAfter (c :: before) rest with
    | nil => simp_all
    | cons piece pieces =>
      rw [hp] at h
      by_cases hb : mayBreak (c :: before) rest <;> simp_all

/-- The pieces of a text make up the text. -/
@[simp] theorem flatten_pieces (cs : List Char) : (pieces cs).flatten = cs :=
  flatten_piecesAfter [] cs

/-- Lines that are being filled. -/
structure Filling where
  /-- The lines that are full, the last one first. -/
  full : List (List Char) := []
  /-- The pieces of the line that is being filled, the last one first. -/
  line : List (List Char) := []
  /-- Whether the line has not been given anything yet. -/
  fresh : Bool := true
  deriving Repr

namespace Filling

/-- The length of the line that is being filled. -/
def length (f : Filling) : Nat :=
  f.line.flatten.length

/-- Go to the next line. A blank last piece is left out, and so is a line without pieces. -/
def close (f : Filling) : Filling :=
  let line :=
    match f.line with
    | last :: others => if last.all isBlank then others else f.line
    | [] => []
  { full := if line.isEmpty then f.full else line.reverse.flatten :: f.full }

/-- How much of a long piece goes into the room that is left: all up to the last hyphen there, if
more than hyphens stands before it, and otherwise as much as there is room for. -/
def share (room : Nat) (piece : List Char) : Nat :=
  let hyphened := ((piece.take room).reverse.dropWhile (· != '-')).reverse
  if hyphened.any (· != '-') then hyphened.length else room

/-- Put a piece into lines of a width, in at most `fuel` steps, each of which fills a line. A blank
piece at the start of a line is left out, except on the first one. -/
def place (width : Nat) : Nat → Filling → List Char → Filling
  | 0, f, _ => f
  | fuel + 1, f, piece =>
    if f.fresh && !f.full.isEmpty && piece.all isBlank then { f with fresh := false }
    else if f.length + piece.length ≤ width then
      { f with line := piece :: f.line, fresh := false }
    else if piece.length ≤ width then place width fuel f.close piece
    else
      let n := share (width - f.length) piece
      place width fuel ({ f with line := piece.take n :: f.line } : Filling).close (piece.drop n)

/-- The lines, the last one included. -/
def lines (f : Filling) : List (List Char) :=
  f.close.full.reverse

end Filling

/-- Lay a text out in lines of a width of at least one. A piece takes at most one line for each of
its characters, and one more at either end. -/
def fill (width : Nat) (s : String) : String :=
  let filling := (pieces s.toList).foldl
    (fun f piece => f.place width (piece.length + 2) piece) ({} : Filling)
  "\n".intercalate (filling.lines.map String.ofList)

end MarkdownLayout.Text
