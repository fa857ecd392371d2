import MarkdownLayout.Text.Blank

/-!
# Whole numbers in decimal

A whole number is read from an optional sign and decimal digits of any script; single underscores
may stand between digits, and blanks around the whole. It is written with a sign, when it is
negative, and ASCII digits. At most `maxDigits` digits are read or written.
-/

namespace MarkdownLayout.Text

/-- The zero of every run of ten decimal digits in Unicode 14, in increasing order. -/
def decimalZeros : List Nat := [
  48, 1632, 1776, 1984, 2406, 2534, 2662, 2790, 2918, 3046, 3174, 3302, 3430, 3558, 3664, 3792,
  3872, 4160, 4240, 6112, 6160, 6470, 6608, 6784, 6800, 6992, 7088, 7232, 7248, 42528, 43216,
  43264, 43472, 43504, 43600, 44016, 65296, 66720, 68912, 69734, 69872, 69942, 70096, 70384,
  70736, 70864, 71248, 71360, 71472, 71904, 72016, 72784, 73040, 73120, 92768, 92864, 93008,
  120782, 120792, 120802, 120812, 120822, 123200, 123632, 125264, 130032]

/-- The value of a decimal digit of any script. -/
def digitValue? (c : Char) : Option Nat :=
  (decimalZeros.find? fun base => base ≤ c.toNat && c.toNat ≤ base + 9).map (c.toNat - ·)

/-- The longest run of digits that is read or written as a number. -/
def maxDigits : Nat := 4300

/-- The digits of an unsigned number; a single underscore may stand between two of them. -/
def readDigits? : List Char → Option (List Nat)
  | [] => none
  | [c] => (digitValue? c).map fun d => [d]
  | c :: '_' :: rest => (digitValue? c).bind fun d => (readDigits? rest).map (d :: ·)
  | c :: rest => (digitValue? c).bind fun d => (readDigits? rest).map (d :: ·)

/-- The number that a list of decimal digits writes. -/
def ofDigits (ds : List Nat) : Nat :=
  ds.foldl (fun n d => 10 * n + d) 0

/-- The number that ASCII digits write, zero when there are none. -/
def ofAsciiDigits (cs : List Char) : Nat :=
  ofDigits (cs.map fun c => c.toNat - '0'.toNat)

/-- The value of an unsigned number that is not too long. -/
def readNatural? (cs : List Char) : Option Nat :=
  match readDigits? cs with
  | some ds => if ds.length ≤ maxDigits then some (ofDigits ds) else none
  | none => none

/-- Blanks that may surround a number: the separators U+001C to U+001F may not. -/
def isNumberBlank (c : Char) : Bool :=
  isBlank c && !(28 ≤ c.toNat && c.toNat ≤ 31)

/-- Read a whole number. -/
def readInteger? (s : String) : Option Int :=
  match trimBoth isNumberBlank s.toList with
  | '-' :: rest => (readNatural? rest).map fun n => -(n : Int)
  | '+' :: rest => (readNatural? rest).map fun n => (n : Int)
  | cs => (readNatural? cs).map fun n => (n : Int)

/-- The decimal numeral of a whole number, unless it has too many digits; the sign is no digit. -/
def numeral? (n : Int) : Option String :=
  if (toString n.natAbs).length ≤ maxDigits then some (toString n) else none

theorem numeral?_eq_some_iff {n : Int} {numeral : String} :
    numeral? n = some numeral ↔
      (toString n.natAbs).length ≤ maxDigits ∧ toString n = numeral := by
  rw [numeral?, Option.ite_none_right_eq_some, Option.some.injEq]

theorem numeral?_eq_none_iff {n : Int} :
    numeral? n = none ↔ maxDigits < (toString n.natAbs).length := by
  rw [numeral?, ite_eq_right_iff, ← Nat.not_le]
  simp

/-- The wording of a number that has too many digits to be written. -/
def longNumeralMessage : String :=
  "Exceeds the limit (" ++ toString maxDigits ++ " digits) for integer string conversion; " ++
    "use sys.set_int_max_str_digits() to increase the limit"

/-- A wording that ends with a number, or that of the number when it cannot be written. -/
def withNumeral (wording : String) (n : Int) : String :=
  ((numeral? n).map (wording ++ ·)).getD longNumeralMessage

end MarkdownLayout.Text
