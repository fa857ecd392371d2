import MarkdownLayout.Render.Basic
import MarkdownLayout.Session
import MarkdownLayout.Token.Tree

/-!
# Reformatting

The whole way of a document: its text is read, tokenized, made into a tree, laid out and handed
over. Every step leaves records in the journal.
-/

namespace MarkdownLayout

/-- The tokenizer that has to be at hand. -/
def tokenizerRequirement : Requirement :=
  ⟨"mistune", "mistune", ">=3.0.0"⟩

/-- Go on only if the tokenizer is at hand. -/
def Host.demandTokenizer (host : Host) : Except Failure Unit :=
  host.inventory.demand host.accepts "markdown" [tokenizerRequirement]

/-- The name of the part that reads documents. -/
def parseLogger : String := "mdreflow.parsers.markdown"

/-- The name of the part that lays documents out. -/
def renderLogger : String := "mdreflow.renderers.commonmark"

/-- The name of the part that does both. -/
def reformatLogger : String := "mdreflow.api"

/-- Give a text to the tokenizer. -/
def tokenize (host : Host) (text : String) : Run Tokens := do
  modify fun s => { s with tokenized := s.tokenized ++ [text] }
  modify (Session.finished host parseLogger "Parsing (markdown)")
  return host.tokenizer text

/-- The tokens in an answer of the tokenizer. -/
def Tokens.get : Tokens → Except Failure (List Token)
  | .list tokens => .ok tokens
  | .other value =>
    .error (.reported
      (.parsing ("mistune returned " ++ value.typeName ++ " instead of a token list")
        (some "tokenize"))
      none)

/-- Read a document from tokens and record what was passed over. -/
def readTokens (host : Host) (settings : ParseSettings) (tokens : List Token) : Run Node :=
  fun s =>
    let noted (notes : Array Skipped) : Session :=
      notes.foldl (fun s note => s.debug host parseLogger note.message) s
    match Node.ofTokens settings tokens #[] with
    | .ok node notes => .ok node (noted notes)
    | .error e notes => .error (.build e) (noted notes)

/-- Read a document. -/
def parseSource (host : Host) (settings : ParseSettings) (source : Source) : Run Node := do
  Run.ofExcept host.demandTokenizer
  let text ← Run.ofExcept (source.read (← get).disk)
  let tokens ← Run.ofExcept (← tokenize host text).get
  readTokens host settings tokens

/-- Lay a tree out and record it. -/
def renderTree (host : Host) (settings : RenderSettings) (root : Node) : Run (List UInt8) := do
  modify (Session.debug host renderLogger
    ("Rendering " ++ root.element.kind ++ " to CommonMark (width=" ++ toString settings.width ++
      ")"))
  let octets ← Run.timed host renderLogger "Rendering (commonmark)"
    (Run.ofExcept ((root.renderOctets settings).mapError LayoutError.failure))
  modify (Session.debug host renderLogger
    ("Rendered " ++ toString octets.length ++ " bytes of CommonMark"))
  return octets

/-- The text of octets that have been laid out. -/
def renderedText (octets : List UInt8) : Run String :=
  Run.ofExcept (decodeText octets)

/-- What reformatting takes besides the document. -/
structure ReformatSettings where
  /-- A width that goes before that of the layout. -/
  width : Option Int := none
  /-- The choices of the layout. -/
  render : RenderSettings := {}
  /-- The choices of reading. -/
  parse : ParseSettings := {}
  deriving DecidableEq, Repr

/-- The choices of the layout with the width that goes before. -/
def ReformatSettings.effective (settings : ReformatSettings) : Except Failure RenderSettings :=
  match settings.width with
  | none => .ok settings.render
  | some width => (settings.render.withWidth width).mapError SettingsError.failure

/-- Read a document and lay it out. -/
def reformatOctets (host : Host) (settings : RenderSettings) (parse : ParseSettings)
    (source : Source) : Run (List UInt8) := do
  let root ← parseSource host parse source
  renderTree host settings root

/-- Reformat a document and return its text. -/
def reformat (host : Host) (settings : ReformatSettings) (source : Source) : Run String := do
  let render ← Run.ofExcept settings.effective
  Run.timed host reformatLogger "Reformat" do
    renderedText (← reformatOctets host render settings.parse source)

/-- Reformat a document and write it to a target. -/
def reformatTo (host : Host) (settings : ReformatSettings) (source : Source) (target : Target) :
    Run Receipt := do
  let render ← Run.ofExcept settings.effective
  Run.timed host reformatLogger "Reformat" do
    let octets ← reformatOctets host render settings.parse source
    Run.onDisk (target.deliver (.octets octets))

/-- Lay a tree out and write it to a target. -/
def renderTo (host : Host) (settings : RenderSettings) (root : Node) (target : Target) :
    Run Receipt := do
  let octets ← renderTree host settings root
  Run.onDisk (target.deliver (.octets octets))

end MarkdownLayout
