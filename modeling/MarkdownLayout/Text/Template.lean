import MarkdownLayout.Text.Integer
import MarkdownLayout.Text.Quoted

/-!
# Templates

A template is a text with places that are filled from named texts. A place begins with a percent
sign. There follow, each of them optional, a name in parentheses, marks, a least width, a dot with
a greatest length and a letter for a size; last comes the letter that says how the place is filled.
A place with a name takes the text of that name. A place without a name takes all named texts
together, once and only before the first place with a name. Two percent signs stand for one.
-/

namespace MarkdownLayout.Text

/-- Why a template cannot be filled. -/
inductive TemplateError where
  /-- A name is not closed. -/
  | openName
  /-- The template ends inside a place. -/
  | openPlace
  /-- There is no text of that name. -/
  | unknownName (name : String)
  /-- Nothing is left for a place without a name. -/
  | nothingLeft
  /-- A width or length is left to a text, which is no number. -/
  | measureNotNumber
  /-- A width is too big. -/
  | widthTooBig
  /-- A length is too big. -/
  | lengthTooBig
  /-- A place for a number, of the given letter, takes something of another type. -/
  | notNumber (letter : Char) (typeName : String)
  /-- A place for a number with a fraction takes something of another type. -/
  | notFraction (typeName : String)
  /-- A place for a character takes something longer. -/
  | notCharacter
  /-- A letter, at an index of the template, that says nothing. -/
  | unknownLetter (letter : Char) (index : Nat)
  deriving DecidableEq, Repr

/-- The wording of the error. -/
def TemplateError.message : TemplateError → String
  | .openName => "incomplete format key"
  | .openPlace => "incomplete format"
  | .unknownName name => quote name
  | .nothingLeft => "not enough arguments for format string"
  | .measureNotNumber => "* wants int"
  | .widthTooBig => "width too big"
  | .lengthTooBig => "precision too big"
  | .notNumber letter typeName =>
    let wanted := if ['o', 'x', 'X'].contains letter then "an integer" else "a real number"
    "%" ++ letter.toString ++ " format: " ++ wanted ++ " is required, not " ++ typeName
  | .notFraction typeName => "must be real number, not " ++ typeName
  | .notCharacter => "%c requires int or char"
  | .unknownLetter letter index =>
    let shown := if 31 ≤ letter.toNat && letter.toNat ≤ 126 then letter else '?'
    "unsupported format character '" ++ shown.toString ++ "' (0x" ++
      String.ofList (hexadecimal 1 letter.toNat) ++ ") at index " ++ toString index

namespace Template

/-- What a place takes. -/
inductive Offer where
  /-- One text. -/
  | one (text : String)
  /-- All named texts. -/
  | all (fields : List (String × String))
  deriving DecidableEq, Repr

namespace Offer

/-- The name of the type of what is taken, as messages give it. -/
def typeName : Offer → String
  | .one _ => "str"
  | .all _ => "dict"

/-- What is taken, as messages show it. -/
def describe : Offer → String
  | .one text => quote text
  | .all fields =>
    "\x7b" ++ ", ".intercalate (fields.map fun (name, text) => quote name ++ ": " ++ quote text) ++
      "\x7d"

/-- What is taken, as it is. -/
def plain : Offer → String
  | .one text => text
  | .all fields => (Offer.all fields).describe

/-- Write what is taken, outside ASCII by the numbers of the characters. -/
def describeAscii (o : Offer) : String :=
  String.ofList (o.describe.toList.flatMap fun c => if c.toNat < 128 then [c] else numberEscape c)

end Offer

/-- How a place is filled. -/
structure Place where
  /-- Whether what is taken stands at the left of a wider place. -/
  left : Bool
  /-- The least width. -/
  width : Nat
  /-- The greatest length. -/
  length : Option Nat
  deriving DecidableEq, Repr

/-- Write into a place, with blanks up to its width. -/
def Place.pad (p : Place) (cs : List Char) : List Char :=
  let blanks := List.replicate (p.width - cs.length) ' '
  if p.left then cs ++ blanks else blanks ++ cs

/-- Write into a place what its length admits, with blanks up to its width. -/
def Place.write (p : Place) (s : String) : List Char :=
  p.pad (match p.length with
    | some n => s.toList.take n
    | none => s.toList)

/-- Fill a place as its letter, which stands at `index`, says. -/
def Place.fill (p : Place) (o : Offer) (letter : Char) (index : Nat) :
    Except TemplateError (List Char) :=
  if letter == 's' then .ok (p.write o.plain)
  else if letter == 'r' then .ok (p.write o.describe)
  else if letter == 'a' then .ok (p.write o.describeAscii)
  else if letter == 'c' then
    match o with
    | .one text => if text.length = 1 then .ok (p.pad text.toList) else .error .notCharacter
    | .all _ => .error .notCharacter
  else if ['d', 'i', 'u', 'o', 'x', 'X'].contains letter then
    .error (.notNumber letter o.typeName)
  else if ['e', 'E', 'f', 'F', 'g', 'G'].contains letter then .error (.notFraction o.typeName)
  else .error (.unknownLetter letter index)

/-- The name that `depth` more closing parentheses end, and what follows it. Parentheses inside a
name come in pairs. -/
def readName : Nat → List Char → Except TemplateError (List Char × List Char)
  | _, [] => .error .openName
  | depth, c :: rest =>
    if c == ')' && depth ≤ 1 then .ok ([], rest)
    else do
      let depth := if c == '(' then depth + 1 else if c == ')' then depth - 1 else depth
      let (name, rest) ← readName depth rest
      return (c :: name, rest)

/-- The greatest width. -/
def maxWidth : Nat := 0x7fffffffffffffff

/-- The greatest length that can be asked for. -/
def maxLength : Nat := 0x7fffffff

/-- Read a width or a length, which may be left out, and what follows it. A star asks for the
next offer, which is never a number. -/
def readMeasure (offer : Option Offer) (limit : Nat) (tooBig : TemplateError) (cs : List Char) :
    Except TemplateError (Nat × List Char) :=
  match cs with
  | '*' :: _ => .error (if offer.isSome then .measureNotNumber else .nothingLeft)
  | _ =>
    let n := ofAsciiDigits (cs.takeWhile Char.isDigit)
    if limit < n then .error tooBig else .ok (n, cs.dropWhile Char.isDigit)

/-- Read a dot with the length behind it, which may both be left out, and what follows them. -/
def readLength (offer : Option Offer) (cs : List Char) :
    Except TemplateError (Option Nat × List Char) :=
  match cs with
  | '.' :: rest => do
    let (n, rest) ← readMeasure offer maxLength .lengthTooBig rest
    return (some n, rest)
  | _ => .ok (none, cs)

/-- Fill the place of which marks, measures and letter follow in a template of `size` characters,
and give what follows the place. -/
def fillPlace (size : Nat) (offer : Option Offer) (cs : List Char) :
    Except TemplateError (List Char × List Char) := do
  let isMark (c : Char) : Bool := ['-', '+', ' ', '#', '0'].contains c
  let left := (cs.takeWhile isMark).contains '-'
  let (width, rest) ← readMeasure offer maxWidth .widthTooBig (cs.dropWhile isMark)
  let (length, rest) ← readLength offer rest
  let rest :=
    match rest with
    | c :: more => if ['h', 'l', 'L'].contains c then more else c :: more
    | [] => []
  match rest, offer with
  | [], _ => .error .openPlace
  | _ :: _, none => .error .nothingLeft
  | letter :: more, some o =>
    return (← Place.fill ⟨left, width, length⟩ o letter (size - rest.length), more)

/-- Fill the rest of a template of `size` characters in at most `fuel` steps, each of which takes
one character or one place. -/
def fillRest (fields : List (String × String)) (size : Nat) :
    Nat → Option Offer → List Char → Except TemplateError (List Char)
  | 0, _, cs => .ok cs
  | fuel + 1, offer, cs =>
    match cs with
    | [] => .ok []
    | '%' :: '%' :: rest => return '%' :: (← fillRest fields size fuel offer rest)
    | '%' :: '(' :: rest => do
      let (name, rest) ← readName 1 rest
      match fields.lookup (String.ofList name) with
      | none => .error (.unknownName (String.ofList name))
      | some text =>
        let (filled, rest) ← fillPlace size (some (.one text)) rest
        return filled ++ (← fillRest fields size fuel none rest)
    | '%' :: rest => do
      let (filled, rest) ← fillPlace size offer rest
      return filled ++ (← fillRest fields size fuel none rest)
    | c :: rest => return c :: (← fillRest fields size fuel offer rest)

/-- Whether a text begins somewhere inside another. -/
def occurs (part : List Char) : List Char → Bool
  | [] => part.isEmpty
  | c :: rest => part.isPrefixOf (c :: rest) || occurs part rest

/-- Whether a text has a place with the given name. -/
def names (name template : String) : Bool :=
  occurs ("%(" ++ name ++ ")").toList template.toList

/-- Fill a template from named texts. -/
def fill (fields : List (String × String)) (template : String) : Except TemplateError String :=
  let cs := template.toList
  (fillRest fields cs.length cs.length (some (.all fields)) cs).map String.ofList

end Template

end MarkdownLayout.Text
