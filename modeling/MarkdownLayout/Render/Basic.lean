import MarkdownLayout.Node.Visit
import MarkdownLayout.Settings
import MarkdownLayout.Text.Cut
import MarkdownLayout.Writer.Emit

/-!
# Layout of a tree

Each visit of a tree writes the markup of its node. Containers that indent put down a margin when
they are entered and take it back when they are left; blocks owe the next one a blank line.
-/

namespace MarkdownLayout

open Writer (emit literal)

/-- The length of the longest run of a character. -/
def longestRun (c : Char) (cs : List Char) : Nat :=
  (cs.foldl (fun (run, best) d =>
    if d = c then (run + 1, max best (run + 1)) else (0, best)) (0, 0)).2

/-- The character that encloses code. -/
def tick : Char := '\x60'

/-- A line of ticks of the given length. -/
def ticks (n : Nat) : String :=
  String.ofList (List.replicate n tick)

/-- A line of blanks of the given length. -/
def blanks (n : Nat) : String :=
  String.ofList (List.replicate n ' ')

/-- What marks the first line of a list item and what opens the others. -/
structure ItemLayout where
  /-- The mark of the first line. -/
  marker : String
  /-- The margin of all other lines. -/
  margin : String
  deriving DecidableEq, Repr

/-- The layout of an item that has a numeral of its own. -/
def ItemLayout.ofNumeral (numeral : String) : ItemLayout :=
  let number := numeral ++ "."
  let width := max 4 (number.length + 1)
  ⟨number ++ blanks (width - number.length), blanks width⟩

/-- The layout of an item by its slot. There is none outside a list, and none for a number that
has too many digits to be written. -/
def Slot.layout (markers : MarkerStyle) : Slot → Except LayoutError ItemLayout
  | .stray => .error .strayItem
  | .bullet => .ok ⟨"- ", "  "⟩
  | .numbered ordinal =>
    match markers with
    | .fixed => .ok ⟨"1.  ", "    "⟩
    | .sequential =>
      match Text.numeral? ordinal with
      | none => .error .longNumeral
      | some numeral => .ok (.ofNumeral numeral)

/-- An item has a hyphen, the number one as every other, or a number of its own that can be
written. -/
theorem Slot.layout_eq_ok {markers : MarkerStyle} {slot : Slot} {item : ItemLayout}
    (h : slot.layout markers = .ok item) :
    item = ⟨"- ", "  "⟩ ∨ item = ⟨"1.  ", "    "⟩ ∨
      ∃ ordinal numeral, slot = .numbered ordinal ∧ Text.numeral? ordinal = some numeral ∧
        item = .ofNumeral numeral := by
  cases slot with
  | stray => cases h
  | bullet =>
    cases h
    exact .inl rfl
  | numbered ordinal =>
    cases markers with
    | fixed =>
      cases h
      exact .inr (.inl rfl)
    | sequential =>
      simp only [Slot.layout] at h
      cases hn : Text.numeral? ordinal with
      | none =>
        rw [hn] at h
        cases h
      | some numeral =>
        rw [hn] at h
        cases h
        exact .inr (.inr ⟨ordinal, numeral, rfl, hn, rfl⟩)

/-- Only two things keep an item from having a layout: it stands outside any list, or it has a
number of its own that cannot be written. -/
theorem Slot.layout_eq_error_iff {markers : MarkerStyle} {slot : Slot} {e : LayoutError} :
    slot.layout markers = .error e ↔
      (slot = .stray ∧ e = .strayItem) ∨
        ∃ ordinal, slot = .numbered ordinal ∧ markers = .sequential ∧
          Text.numeral? ordinal = none ∧ e = .longNumeral := by
  cases slot with
  | stray => simp [Slot.layout, eq_comm]
  | bullet => simp [Slot.layout]
  | numbered ordinal =>
    cases markers with
    | fixed => simp [Slot.layout]
    | sequential =>
      cases hn : Text.numeral? ordinal with
      | none => simp [Slot.layout, hn, eq_comm]
      | some numeral => simp [Slot.layout, hn]

/-- The margin of a quotation. -/
def quoteMargin : String := "> "

/-- The margin of code without fences. -/
def codeMargin : String := "    "

/-- The fence around code that holds no run of ticks as long. -/
def fenceFor (content : String) : String :=
  ticks (max 3 (longestRun tick content.toList + 1))

/-- The delimiter of code within a line. -/
def codeDelimiter (content : String) : String :=
  ticks (longestRun tick content.toList + 1)

/-- Code within a line, set off by a blank from a delimiter that it would run into. -/
def paddedCode (content : String) : String :=
  if content.toList.head? = some tick ∨ content.toList.getLast? = some tick then
    " " ++ content ++ " "
  else content

/-- Write a code block without fences. -/
def writeIndented (content : String) : Writing Unit := do
  literal codeMargin
  modify (Writer.pushMargin codeMargin)
  emit .verbatim content
  let _ ← Writer.popMargin (some codeMargin)

/-- Write a code block between fences. -/
def writeFenced (settings : RenderSettings) (content info : String) : Writing Unit := do
  literal (fenceFor content ++ " ")
  emit .verbatim info
  modify Writer.oweLineEnd
  emit ⟨false, settings.escapeFencedCode⟩ content
  modify Writer.oweLineEnd
  literal (fenceFor content)

/-- Write a leaf. -/
def Leaf.write (settings : RenderSettings) : Leaf → Writing Unit
  | .codeBlock content info => do
    modify Writer.oweBlankLine
    if isWritten info then writeFenced settings content (info.getD "") else writeIndented content
    modify Writer.oweBlankLine
  | .htmlBlock content => do
    modify Writer.oweBlankLine
    emit .verbatim content
    modify Writer.oweBlankLine
  | .thematicBreak => do
    modify Writer.oweBlankLine
    literal "-----"
    modify Writer.oweBlankLine
  | .text content => emit .prose content
  | .lineBreak => do
    literal "\\"
    modify Writer.oweLineEnd
  | .softBreak => emit .flowing " "
  | .code content => do
    literal (codeDelimiter content)
    emit .flowing (paddedCode content)
    literal (codeDelimiter content)
  | .htmlInline content => emit .flowing content
  | .foreign kind => throw (.unknownKind kind)

/-- Write the parts of a title with an escaped quote between them. -/
def writeTitleParts : List (List Char) → Writing Unit
  | [] => pure ()
  | [part] => emit .guarded (String.ofList part)
  | part :: rest => do
    emit .guarded (String.ofList part)
    literal "\\\""
    writeTitleParts rest

/-- Write a title between double quotes, when there is one. -/
def writeTitle (title : Option String) : Writing Unit :=
  match title with
  | none => pure ()
  | some text =>
    if text.isEmpty then pure ()
    else do
      literal " \""
      writeTitleParts (Text.cutAt '"' text.toList)
      literal "\""

/-- Write the destination and the title that end a link or an image. -/
def closeDestination (url : String) (title : Option String) : Writing Unit := do
  literal "]("
  emit .guarded url
  writeTitle title
  literal ")"

/-- End a document: it has a line end, and at least one line. -/
def endDocument : Writing Unit := do
  if (← get).buffer.isEmpty then literal "\n"
  modify Writer.oweLineEnd
  modify Writer.flush

/-- The mark that opens a heading of a level. -/
def headingMark (level : Int) : String :=
  String.ofList (List.replicate level.toNat '#' ++ [' '])

/-- Enter a container. -/
def Container.enter (settings : RenderSettings) (slot : Slot) : Container → Writing Unit
  | .document | .list .. | .paragraph => pure ()
  | .blockQuote => do
    literal quoteMargin
    modify (Writer.pushMargin quoteMargin)
  | .listItem =>
    match slot.layout settings.markers with
    | .error e => throw e
    | .ok item => do
      literal item.marker
      modify (Writer.pushMargin item.margin)
  | .heading level => do
    literal (headingMark level)
    modify fun w => { w with keepsLines := true }
  | .strong => literal "**"
  | .emphasis => literal "*"
  | .link .. => literal "["
  | .image .. => literal "!["
  | .foreign kind => throw (.unknownKind kind)

/-- Leave a container. -/
def Container.leave (settings : RenderSettings) (slot : Slot) : Container → Writing Unit
  | .document => endDocument
  | .list .. => pure ()
  | .paragraph => modify Writer.oweBlankLine
  | .blockQuote => do
    let _ ← Writer.popMargin (some quoteMargin)
    modify Writer.oweBlankLine
  | .listItem =>
    match slot.layout settings.markers with
    | .error e => throw e
    | .ok item => do
      let _ ← Writer.popMargin (some item.margin)
      modify Writer.oweLineEnd
  | .heading _ => modify fun w => { w with keepsLines := false }.oweBlankLine
  | .strong => literal "**"
  | .emphasis => literal "*"
  | .link url title | .image url title => closeDestination url title
  | .foreign kind => throw (.unknownKind kind)

/-- Write what a visit asks for. A leaf is written whatever happens to it. -/
def Visit.write (settings : RenderSettings) (visit : Visit) : Writing Unit :=
  match visit.element, visit.event with
  | .leaf leaf, _ => leaf.write settings
  | .container container, .enter => container.enter settings visit.slot
  | .container container, _ => container.leave settings visit.slot

/-- Write a list of visits and hand over the octets. -/
def layout (settings : RenderSettings) (visits : List Visit) : Writing (List UInt8) := do
  visits.forM (Visit.write settings)
  Writer.detach

/-- The writer with which a layout begins. -/
def RenderSettings.writer (settings : RenderSettings) : Writer :=
  { width := settings.width }

/-- The octets of a list of visits. -/
def octetsOfVisits (settings : RenderSettings) (visits : List Visit) :
    Except LayoutError (List UInt8) :=
  match layout settings visits settings.writer with
  | .ok octets _ => .ok octets
  | .error error _ => .error error

/-- The text of octets that a layout has handed over. -/
def textOfOctets (octets : List UInt8) : Except LayoutError String :=
  match Text.Utf8.text octets with
  | .ok text => .ok text
  | .error fault => .error (.undecodable fault)

/-- The octets of a tree. -/
def Node.renderOctets (settings : RenderSettings) (root : Node) :
    Except LayoutError (List UInt8) :=
  octetsOfVisits settings root.visits

/-- The text of a tree. -/
def Node.render (settings : RenderSettings) (root : Node) : Except LayoutError String :=
  (root.renderOctets settings).bind textOfOctets

end MarkdownLayout
