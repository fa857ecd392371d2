import MarkdownLayout.Text.Integer
import MarkdownLayout.Text.Quoted
import MarkdownLayout.Text.Utf8

/-!
# Why a document cannot be laid out

The causes that stop a layout, and their wording. A margin error means that containers were not
left in the order in which they were entered.
-/

namespace MarkdownLayout

/-- The wording of a range of octets that is no character. -/
def Text.Utf8.Reason.message : Text.Utf8.Reason → String
  | .start => "invalid start byte"
  | .continuation => "invalid continuation byte"
  | .ending => "unexpected end of data"

/-- The wording of a fault: the octet when there is one, else the range of positions. -/
def Text.Utf8.Fault.message (fault : Text.Utf8.Fault) : String :=
  let range :=
    if fault.count = 1 then
      "byte 0x" ++ String.ofList (Text.hexadecimal 2 fault.octet.toNat) ++ " in position " ++
        toString fault.first
    else
      "bytes in position " ++ toString fault.first ++ "-" ++
        toString (fault.first + fault.count - 1)
  "'utf-8' codec can't decode " ++ range ++ ": " ++ fault.reason.message

/-- Why a document cannot be laid out. -/
inductive LayoutError where
  /-- A margin is taken back that was never put down. -/
  | marginEmpty
  /-- The innermost margin is not the expected one. -/
  | marginMismatch (expected found : String) (depth : Nat)
  /-- Margins are left at the end. -/
  | marginOpen (depth : Nat)
  /-- A node has a kind that has no layout. -/
  | unknownKind (kind : String)
  /-- A list item stands outside any list. -/
  | strayItem
  /-- The number of a list item has too many digits to be written. -/
  | longNumeral
  /-- The text moved to a new line does not begin at a character. -/
  | undecodable (fault : Text.Utf8.Fault)
  deriving DecidableEq, Repr

/-- What comes of a layout is an error or a result, and two outcomes can be compared. -/
instance decidableEqOutcome {ε α : Type} [DecidableEq ε] [DecidableEq α] :
    DecidableEq (Except ε α)
  | .ok a, .ok b => decidable_of_iff (a = b) ⟨congrArg Except.ok, Except.ok.inj⟩
  | .error e, .error f => decidable_of_iff (e = f) ⟨congrArg Except.error, Except.error.inj⟩
  | .ok _, .error _ => isFalse fun h => Except.noConfusion rfl rfl (heq_of_eq h)
  | .error _, .ok _ => isFalse fun h => Except.noConfusion rfl rfl (heq_of_eq h)

/-- The wording of an item outside any list. -/
def strayItemMessage : String := "ListItem is not attached to a List"

/-- The wording of the error. -/
def LayoutError.message : LayoutError → String
  | .marginEmpty => "Prefix popped with no matching push"
  | .marginMismatch expected found _ =>
    "Prefix pop expected " ++ Text.quote expected ++ " but found " ++ Text.quote found
  | .marginOpen depth => toString depth ++ " prefix segment(s) left open at end of render"
  | .unknownKind kind => "Cannot render node of unknown kind '" ++ kind ++ "'"
  | .strayItem => strayItemMessage
  | .longNumeral => Text.longNumeralMessage
  | .undecodable fault => fault.message

/-- The step of the layout at which the error is found. -/
def LayoutError.stage : LayoutError → Option String
  | .marginEmpty | .marginMismatch .. | .marginOpen _ => some "prefix"
  | .unknownKind _ | .strayItem => some "dispatch"
  | .longNumeral | .undecodable _ => none

/-- How many margins were open when the error was found. -/
def LayoutError.depth : LayoutError → Nat
  | .marginMismatch _ _ depth | .marginOpen depth => depth
  | _ => 0

end MarkdownLayout
