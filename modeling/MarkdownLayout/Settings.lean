import MarkdownLayout.Datum

/-!
# Settings

The choices that a layout and the reading of tokens depend on, the checks on them, and the
families of settings that can be made, changed and shown by name.
-/

namespace MarkdownLayout

/-- How the items of a numbered list are marked. -/
inductive MarkerStyle where
  /-- Every item has the number one. -/
  | fixed
  /-- Every item has its own number. -/
  | sequential
  deriving DecidableEq, Repr

/-- The name of the style. -/
def MarkerStyle.name : MarkerStyle → String
  | .fixed => "fixed"
  | .sequential => "sequential"

/-- The style of a name. -/
def MarkerStyle.ofName? (name : String) : Option MarkerStyle :=
  [MarkerStyle.fixed, .sequential].find? (·.name == name)

theorem MarkerStyle.ofName?_name (style : MarkerStyle) : ofName? style.name = some style := by
  cases style <;> rfl

/-- The choices of a layout. -/
structure RenderSettings where
  /-- The width of a line in columns; zero leaves lines unbroken. -/
  width : Nat := 65
  /-- How numbered items are marked. -/
  markers : MarkerStyle := .fixed
  /-- Whether fenced code is escaped like text. -/
  escapeFencedCode : Bool := true
  /-- A number that is carried and has no effect. -/
  flags : Int := 0
  deriving DecidableEq, Repr

/-- The choices of reading tokens. -/
structure ParseSettings where
  /-- Whether raw HTML stays in the tree. -/
  preserveHtml : Bool := true
  deriving DecidableEq, Repr

/-- A family of settings. -/
inductive SettingsFamily where
  /-- The settings of the layout. -/
  | render
  /-- The settings of reading tokens. -/
  | parse
  /-- Settings of a layout without any choice. -/
  | plainRender
  /-- Settings of reading without any choice. -/
  | plainParse
  deriving DecidableEq, Repr

/-- The name of the family. -/
def SettingsFamily.name : SettingsFamily → String
  | .render => "CommonMarkRendererOptions"
  | .parse => "MarkdownParserOptions"
  | .plainRender => "BaseRendererOptions"
  | .plainParse => "BaseParserOptions"

/-- The family of a name. -/
def SettingsFamily.ofName? (name : String) : Option SettingsFamily :=
  [SettingsFamily.render, .parse, .plainRender, .plainParse].find? (·.name == name)

/-- The options of a family with a sentence on each, in order. -/
def SettingsFamily.options : SettingsFamily → List (String × String)
  | .render =>
    [("width", "Soft wrap width in columns (0 disables wrapping)"),
      ("ordered_list_marker",
        "Ordered list marker style: 'fixed' (always 1.) or 'sequential' (true ordinal)"),
      ("escape_fenced_code", "Escape special characters inside fenced code blocks"),
      ("flags", "Reserved option flags (currently unused)")]
  | .parse => [("preserve_html", "Keep raw HTML blocks and inline HTML")]
  | .plainRender | .plainParse => []

/-- What an option is for. -/
def SettingsFamily.help? (family : SettingsFamily) (option : String) : Option String :=
  family.options.lookup option

/-- Why settings cannot be made. -/
inductive SettingsError where
  /-- The width is below zero. -/
  | negativeWidth (width : Int)
  /-- The width is no number but something of another type. -/
  | widthNotNumber (typeName : String)
  /-- There is no such style of numbered items. -/
  | unknownMarker (marker : Datum)
  /-- The family has no options of these names; the value is that of the first. -/
  | noSuchOption (family : SettingsFamily) (names : List String) (value : Datum)
  /-- A value is given under a name that the family does not have. -/
  | unexpected (family : SettingsFamily) (name : String)
  deriving Repr

/-- The wording of the error. -/
def SettingsError.message : SettingsError → String
  | .negativeWidth width => Text.withNumeral "width must be non-negative, got " width
  | .widthNotNumber typeName =>
    "'<' not supported between instances of '" ++ typeName ++ "' and 'int'"
  | .unknownMarker marker =>
    (marker.describe?.map ("ordered_list_marker must be 'fixed' or 'sequential', got " ++ ·)).getD
      Text.longNumeralMessage
  | .noSuchOption family names _ =>
    family.name ++ " has no option(s) " ++ ", ".intercalate names
  | .unexpected family name =>
    family.name ++ " takes no value under the name " ++ Text.quote name

/-- Settings of some family. -/
inductive Settings where
  /-- The settings of the layout. -/
  | render (settings : RenderSettings)
  /-- The settings of reading tokens. -/
  | parse (settings : ParseSettings)
  /-- Settings of a layout without any choice. -/
  | plainRender
  /-- Settings of reading without any choice. -/
  | plainParse
  deriving DecidableEq, Repr

namespace Settings

/-- The family that the settings belong to. -/
def family : Settings → SettingsFamily
  | .render _ => .render
  | .parse _ => .parse
  | .plainRender => .plainRender
  | .plainParse => .plainParse

/-- The settings of a family before anything is chosen. -/
def default : SettingsFamily → Settings
  | .render => .render {}
  | .parse => .parse {}
  | .plainRender => .plainRender
  | .plainParse => .plainParse

/-- The chosen values, in order. -/
def values : Settings → List (String × Datum)
  | .render s =>
    [("width", .whole s.width), ("ordered_list_marker", .text s.markers.name),
      ("escape_fenced_code", .flag s.escapeFencedCode), ("flags", .whole s.flags)]
  | .parse s => [("preserve_html", .flag s.preserveHtml)]
  | .plainRender | .plainParse => []

/-- The settings as messages show them, when every number in them can be written. -/
def describe? (s : Settings) : Option String := do
  let shown ← s.values.mapM fun (name, value) => value.describe?.map (name ++ "=" ++ ·)
  return s.family.name ++ "(" ++ ", ".intercalate shown ++ ")"

end Settings

/-- Settings of a layout from chosen values, the width checked before the style of markers. -/
def RenderSettings.check (width : Int) (marker : Datum) (escapeFencedCode : Bool) (flags : Int) :
    Except SettingsError RenderSettings :=
  if width < 0 then .error (.negativeWidth width)
  else
    match marker.text?.bind MarkerStyle.ofName? with
    | none => .error (.unknownMarker marker)
    | some markers => .ok { width := width.toNat, markers, escapeFencedCode, flags }

/-- The width that is chosen among named values, if one is. -/
def RenderSettings.chosenWidth (s : RenderSettings) (values : List (String × Datum)) :
    Except SettingsError Int :=
  match values.lookup "width" with
  | none => .ok s.width
  | some given =>
    match given.whole? with
    | some width => .ok width
    | none => .error (.widthNotNumber given.typeName)

/-- Change the named choices of a layout and check the result. -/
def RenderSettings.choose (s : RenderSettings) (values : List (String × Datum)) :
    Except SettingsError RenderSettings := do
  RenderSettings.check (← s.chosenWidth values)
    ((values.lookup "ordered_list_marker").getD (.text s.markers.name))
    (((values.lookup "escape_fenced_code").map Datum.isSet).getD s.escapeFencedCode)
    (((values.lookup "flags").bind Datum.whole?).getD s.flags)

/-- Change the named choices of reading tokens. -/
def ParseSettings.choose (s : ParseSettings) (values : List (String × Datum)) : ParseSettings :=
  { preserveHtml := ((values.lookup "preserve_html").map Datum.isSet).getD s.preserveHtml }

/-- Change the width alone. -/
def RenderSettings.withWidth (s : RenderSettings) (width : Int) :
    Except SettingsError RenderSettings :=
  s.choose [("width", .whole width)]

namespace Settings

/-- Change the named choices and check the result. -/
def choose (s : Settings) (values : List (String × Datum)) : Except SettingsError Settings :=
  match s with
  | .render s => (s.choose values).map .render
  | .parse s => .ok (.parse (s.choose values))
  | .plainRender => .ok .plainRender
  | .plainParse => .ok .plainParse

/-- The names that are no option of the family. -/
def strangeNames (family : SettingsFamily) (values : List (String × Datum)) : List String :=
  (values.map (·.1)).filter fun name => (family.help? name).isNone

/-- Make settings of a family. -/
def make (family : SettingsFamily) (values : List (String × Datum)) :
    Except SettingsError Settings :=
  match strangeNames family values with
  | name :: _ => .error (.unexpected family name)
  | [] => (default family).choose values

/-- Change settings; names that are no option are refused, in alphabetical order. -/
def update (s : Settings) (values : List (String × Datum)) : Except SettingsError Settings :=
  match (strangeNames s.family values).mergeSort (· ≤ ·) with
  | [] => s.choose values
  | name :: rest =>
    .error (.noSuchOption s.family (name :: rest) ((values.lookup name).getD .null))

end Settings

/-- Settings of the wrong family were given. -/
structure FamilyMismatch where
  /-- What the settings were given to. -/
  receiver : String
  /-- The family that it takes. -/
  expected : SettingsFamily
  /-- The family that it was given. -/
  received : SettingsFamily
  deriving DecidableEq, Repr

/-- The settings that a layout takes. -/
def Settings.forRender : Settings → Except FamilyMismatch RenderSettings
  | .render s => .ok s
  | s => .error ⟨"commonmark", .render, s.family⟩

/-- The settings that the reading of tokens takes. -/
def Settings.forParse : Settings → Except FamilyMismatch ParseSettings
  | .parse s => .ok s
  | s => .error ⟨"markdown", .parse, s.family⟩

end MarkdownLayout
