import MarkdownLayout.Text.Integer
import MarkdownLayout.Text.Quoted

/-!
# Data of unknown shape

Values that reach the library from outside before their shape is known: the answer of a tokenizer,
the value given for an option, a place to write to that is none.
-/

namespace MarkdownLayout

/-- A value of unknown shape. -/
inductive Datum where
  /-- No value. -/
  | null
  /-- A truth value. -/
  | flag (value : Bool)
  /-- A whole number. -/
  | whole (value : Int)
  /-- A number with a fraction, as it is written. -/
  | fraction (written : String)
  /-- A text. -/
  | text (value : String)
  /-- A list of values. -/
  | list (items : List Datum)
  /-- Values under names. -/
  | record (fields : List (String × Datum))
  deriving Repr, Inhabited

namespace Datum

/-- The name of the value's type, as messages give it. -/
def typeName : Datum → String
  | .null => "NoneType"
  | .flag _ => "bool"
  | .whole _ => "int"
  | .fraction _ => "float"
  | .text _ => "str"
  | .list _ => "list"
  | .record _ => "dict"

/-- Whether a value counts as set: it is not absent, false, zero or empty. -/
def isSet : Datum → Bool
  | .null => false
  | .flag value => value
  | .whole value => value != 0
  | .fraction written => written.toList.any fun c => '1' ≤ c && c ≤ '9'
  | .text value => !value.isEmpty
  | .list items => !items.isEmpty
  | .record fields => !fields.isEmpty

/-- The value under a name. -/
def field? (name : String) : Datum → Option Datum
  | .record fields => fields.lookup name
  | _ => none

/-- The text that the value is. -/
def text? : Datum → Option String
  | .text value => some value
  | _ => none

/-- The whole number that the value is; truth values count as zero and one. -/
def whole? : Datum → Option Int
  | .whole value => some value
  | .flag value => some (if value then 1 else 0)
  | _ => none

/-- The items of the list that the value is, and none for anything else. -/
def items : Datum → List Datum
  | .list items => items
  | _ => []

mutual

/-- The value as messages show it, when every number in it can be written. -/
def describe? : Datum → Option String
  | .null => some "None"
  | .flag true => some "True"
  | .flag false => some "False"
  | .whole value => Text.numeral? value
  | .fraction written => some written
  | .text value => some (Text.quote value)
  | .list items => (describeAll? items).map fun shown => "[" ++ ", ".intercalate shown ++ "]"
  | .record fields =>
    (describeFields? fields).map fun shown => "\x7b" ++ ", ".intercalate shown ++ "\x7d"

/-- Each value as messages show it. -/
def describeAll? : List Datum → Option (List String)
  | [] => some []
  | item :: rest => do return (← item.describe?) :: (← describeAll? rest)

/-- Each named value as messages show it. -/
def describeFields? : List (String × Datum) → Option (List String)
  | [] => some []
  | (name, value) :: rest => do
    return (Text.quote name ++ ": " ++ (← value.describe?)) :: (← describeFields? rest)

end

end Datum

end MarkdownLayout
