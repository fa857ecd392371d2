import MarkdownLayout.Proofs.Draft.Step
import MarkdownLayout.Render.Basic

/-!
# Scripts

What a visit asks of the writer, as a list of steps. Only the end of a document looks at the writer:
its script depends on whether anything has been written. The main statement is `Node.render_eq`: the
text of a tree is the text of the draft that its scripts produce, once all margins are taken back.
-/

namespace MarkdownLayout

open Text.Utf8 (encode)

/-- The steps of a code block without fences. -/
def indentedSteps (content : String) : List Step :=
  [.emit .verbatim codeMargin, .push codeMargin, .emit .verbatim content, .pop (some codeMargin)]

/-- The steps of a code block between fences. -/
def fencedSteps (settings : RenderSettings) (content info : String) : List Step :=
  [.emit .verbatim (fenceFor content ++ " "), .emit .verbatim info, .owe .lineEnd,
    .emit ⟨false, settings.escapeFencedCode⟩ content, .owe .lineEnd,
    .emit .verbatim (fenceFor content)]

/-- What a leaf asks for. -/
def Leaf.script (settings : RenderSettings) : Leaf → Except LayoutError (List Step)
  | .codeBlock content info =>
    .ok ([.owe .blankLine] ++
      (if isWritten info then fencedSteps settings content (info.getD "")
        else indentedSteps content) ++ [.owe .blankLine])
  | .htmlBlock content => .ok [.owe .blankLine, .emit .verbatim content, .owe .blankLine]
  | .thematicBreak => .ok [.owe .blankLine, .emit .verbatim "-----", .owe .blankLine]
  | .text content => .ok [.emit .prose content]
  | .lineBreak => .ok [.emit .verbatim "\\", .owe .lineEnd]
  | .softBreak => .ok [.emit .flowing " "]
  | .code content =>
    .ok [.emit .verbatim (codeDelimiter content), .emit .flowing (paddedCode content),
      .emit .verbatim (codeDelimiter content)]
  | .htmlInline content => .ok [.emit .flowing content]
  | .foreign kind => .error (.unknownKind kind)

/-- The steps of the parts of a title. -/
def titlePartSteps : List (List Char) → List Step
  | [] => []
  | [part] => [.emit .guarded (String.ofList part)]
  | part :: rest =>
    .emit .guarded (String.ofList part) :: .emit .verbatim "\\\"" :: titlePartSteps rest

/-- The steps of a title. -/
def titleSteps (title : Option String) : List Step :=
  match title with
  | none => []
  | some text =>
    if text.isEmpty then []
    else
      .emit .verbatim " \"" ::
        (titlePartSteps (Text.cutAt '"' text.toList) ++ [.emit .verbatim "\""])

/-- The steps of the destination and the title of a link or an image. -/
def destinationSteps (url : String) (title : Option String) : List Step :=
  .emit .verbatim "](" :: .emit .guarded url :: (titleSteps title ++ [.emit .verbatim ")"])

/-- What the entry into a container asks for. -/
def Container.enterScript (settings : RenderSettings) (slot : Slot) :
    Container → Except LayoutError (List Step)
  | .document | .list .. | .paragraph => .ok []
  | .blockQuote => .ok [.emit .verbatim quoteMargin, .push quoteMargin]
  | .listItem =>
    match slot.layout settings.markers with
    | .error error => .error error
    | .ok item => .ok [.emit .verbatim item.marker, .push item.margin]
  | .heading level => .ok [.emit .verbatim (headingMark level), .keepLines true]
  | .strong => .ok [.emit .verbatim "**"]
  | .emphasis => .ok [.emit .verbatim "*"]
  | .link .. => .ok [.emit .verbatim "["]
  | .image .. => .ok [.emit .verbatim "!["]
  | .foreign kind => .error (.unknownKind kind)

/-- What the exit from a container asks for. `unwritten` tells whether the text is empty. -/
def Container.leaveScript (settings : RenderSettings) (unwritten : Bool) (slot : Slot) :
    Container → Except LayoutError (List Step)
  | .document =>
    .ok ((if unwritten then [.emit .verbatim "\n"] else []) ++ [.owe .lineEnd, .flush])
  | .list .. => .ok []
  | .paragraph => .ok [.owe .blankLine]
  | .blockQuote => .ok [.pop (some quoteMargin), .owe .blankLine]
  | .listItem =>
    match slot.layout settings.markers with
    | .error error => .error error
    | .ok item => .ok [.pop (some item.margin), .owe .lineEnd]
  | .heading _ => .ok [.keepLines false, .owe .blankLine]
  | .strong => .ok [.emit .verbatim "**"]
  | .emphasis => .ok [.emit .verbatim "*"]
  | .link url title | .image url title => .ok (destinationSteps url title)
  | .foreign kind => .error (.unknownKind kind)

/-- What a visit asks for. -/
def Visit.script (settings : RenderSettings) (unwritten : Bool) (visit : Visit) :
    Except LayoutError (List Step) :=
  match visit.element, visit.event with
  | .leaf leaf, _ => leaf.script settings
  | .container container, .enter => container.enterScript settings visit.slot
  | .container container, _ => container.leaveScript settings unwritten visit.slot

/-- Follow a script, or fail as it says. -/
def follow : Except LayoutError (List Step) → Writing Unit
  | .ok steps => steps.forM Step.act
  | .error error => throw error

theorem Writer.oweLineEnd_eq : Writer.oweLineEnd = Writer.owe .lineEnd := rfl

theorem Writer.oweBlankLine_eq : Writer.oweBlankLine = Writer.owe .blankLine := rfl

/-- Code between fences is written by its steps. -/
theorem writeFenced_eq (settings : RenderSettings) (content info : String) :
    writeFenced settings content info = (fencedSteps settings content info).forM Step.act := by
  simp [writeFenced, fencedSteps, Step.act, Writer.literal, Writer.oweLineEnd_eq]

/-- Code without fences is written by its steps. -/
theorem writeIndented_eq (content : String) :
    writeIndented content = (indentedSteps content).forM Step.act := by
  simp [writeIndented, indentedSteps, Step.act, Writer.literal]

/-- A leaf is written by its script. -/
theorem Leaf.write_eq (settings : RenderSettings) (leaf : Leaf) :
    leaf.write settings = follow (leaf.script settings) := by
  cases leaf with
  | codeBlock content info =>
    simp only [Leaf.write, Leaf.script, follow, writeFenced_eq, writeIndented_eq]
    split <;> simp [Step.act, Writer.oweBlankLine_eq]
  | htmlBlock | thematicBreak | text | lineBreak | softBreak | code | htmlInline | foreign =>
    simp [Leaf.write, Leaf.script, follow, Step.act, Writer.literal, Writer.oweBlankLine_eq,
      Writer.oweLineEnd_eq]

/-- The parts of a title are written by their steps. -/
theorem writeTitleParts_eq (parts : List (List Char)) :
    writeTitleParts parts = (titlePartSteps parts).forM Step.act := by
  fun_induction writeTitleParts parts with
  | case1 => rfl
  | case2 part => simp [titlePartSteps, Step.act]
  | case3 part rest hne ih =>
    rw [titlePartSteps]
    · simp [Step.act, ih, Writer.literal]
    · exact hne

/-- A title is written by its steps. -/
theorem writeTitle_eq (title : Option String) :
    writeTitle title = (titleSteps title).forM Step.act := by
  cases title with
  | none => rfl
  | some text =>
    rw [writeTitle, titleSteps]
    split
    · rfl
    · simp [writeTitleParts_eq, Step.act, Writer.literal]

/-- A destination is written by its steps. -/
theorem closeDestination_eq (url : String) (title : Option String) :
    closeDestination url title = (destinationSteps url title).forM Step.act := by
  simp [closeDestination, destinationSteps, writeTitle_eq, Step.act, Writer.literal]

/-- A container is entered by its script. -/
theorem Container.enter_eq (settings : RenderSettings) (slot : Slot) (container : Container) :
    container.enter settings slot = follow (container.enterScript settings slot) := by
  cases container with
  | listItem =>
    simp only [Container.enter, Container.enterScript]
    cases slot.layout settings.markers with
    | error error => rfl
    | ok item => simp [follow, Step.act, Writer.literal]
  | document | blockQuote | list | heading | paragraph | strong | emphasis | link | image
  | foreign => simp [Container.enter, Container.enterScript, follow, Step.act, Writer.literal]

/-- The end of a document is written by its steps. -/
theorem endDocument_eq (w : Writer) :
    endDocument w =
      ((if w.buffer.isEmpty then [Step.emit .verbatim "\n"] else []) ++
        [Step.owe .lineEnd, Step.flush]).forM Step.act w := by
  show (if w.buffer.isEmpty then (do
      Writer.literal "\n"
      modify Writer.oweLineEnd
      modify Writer.flush)
    else (do
      modify Writer.oweLineEnd
      modify Writer.flush) : Writing Unit) w = _
  cases w.buffer.isEmpty <;> rfl

/-- A container is left by its script. -/
theorem Container.leave_eq (settings : RenderSettings) (slot : Slot) (container : Container)
    (w : Writer) :
    container.leave settings slot w =
      follow (container.leaveScript settings w.buffer.isEmpty slot) w := by
  cases container with
  | document => exact endDocument_eq w
  | listItem =>
    simp only [Container.leave, Container.leaveScript]
    cases slot.layout settings.markers with
    | error error => rfl
    | ok item => simp [follow, Step.act, Writer.oweLineEnd_eq]
  | link url title | image url title =>
    rw [Container.leave, closeDestination_eq]
    rfl
  | heading level => rfl
  | blockQuote | list | paragraph | strong | emphasis | foreign =>
    simp [Container.leave, Container.leaveScript, follow, Step.act, Writer.literal,
      Writer.oweBlankLine_eq]

/-- A visit is written by its script. -/
theorem Visit.write_eq (settings : RenderSettings) (visit : Visit) (w : Writer) :
    visit.write settings w = follow (visit.script settings w.buffer.isEmpty) w := by
  obtain ⟨event, element, slot⟩ := visit
  cases element with
  | leaf leaf => exact congrFun (Leaf.write_eq settings leaf) w
  | container container =>
    cases event with
    | enter => exact congrFun (Container.enter_eq settings slot container) w
    | exit | done => exact Container.leave_eq settings slot container w

namespace Draft

/-- Write what a visit asks for. -/
def visit (settings : RenderSettings) (d : Draft) (visit : Visit) : Except LayoutError Draft := do
  d.perform (← visit.script settings d.text.isEmpty)

/-- Hand over the text, once all margins are taken back. -/
def detach (d : Draft) : Except LayoutError (List Char) :=
  if d.segments.isEmpty then .ok d.text else .error (.marginOpen d.segments.length)

/-- A visit of a writer follows the script of the draft that it stands for. -/
theorem write_toWriter (settings : RenderSettings) (v : Visit) (d : Draft) :
    v.write settings d.toWriter = follow (v.script settings d.text.isEmpty) d.toWriter := by
  have he : d.toWriter.buffer.isEmpty = d.text.isEmpty := by
    rw [Bool.eq_iff_iff, List.isEmpty_iff, Array.isEmpty_iff]
    simp [toWriter]
  rw [Visit.write_eq, he]

/-- A visit of a writer is the visit of the draft that it stands for. -/
theorem visit_toWriter (settings : RenderSettings) (v : Visit) (d : Draft) :
    match d.visit settings v with
    | .ok d' => v.write settings d.toWriter = .ok () d'.toWriter
    | .error error => ∃ w, v.write settings d.toWriter = .error error w := by
  rw [write_toWriter, visit]
  cases v.script settings d.text.isEmpty with
  | error error => exact ⟨_, rfl⟩
  | ok steps => exact forM_act_toWriter steps d

end Draft

/-- The draft of a list of visits. -/
def draftOfVisits (settings : RenderSettings) (visits : List Visit) (d : Draft) :
    Except LayoutError Draft :=
  visits.foldlM (Draft.visit settings) d

/-- The draft of a tree. -/
def Node.draft (settings : RenderSettings) (root : Node) : Except LayoutError Draft :=
  draftOfVisits settings root.visits { width := settings.width }

/-- Visits of a writer are the visits of the draft that it stands for. -/
theorem forM_write_toWriter (settings : RenderSettings) (visits : List Visit) (d : Draft) :
    match draftOfVisits settings visits d with
    | .ok d' => visits.forM (Visit.write settings) d.toWriter = .ok () d'.toWriter
    | .error error => ∃ w, visits.forM (Visit.write settings) d.toWriter = .error error w := by
  induction visits generalizing d with
  | nil => rfl
  | cons v visits ih =>
    have hv := Draft.visit_toWriter settings v d
    have hb : (v :: visits).forM (Visit.write settings) d.toWriter =
        EStateM.bind (v.write settings) (fun _ => visits.forM (Visit.write settings)) d.toWriter :=
      rfl
    have hd : draftOfVisits settings (v :: visits) d =
        (d.visit settings v).bind (draftOfVisits settings visits) := rfl
    rw [hb, hd]
    unfold EStateM.bind
    cases h : d.visit settings v with
    | error error =>
      rw [h] at hv
      obtain ⟨w, hw⟩ := hv
      exact ⟨w, by rw [hw]⟩
    | ok d' =>
      rw [h] at hv
      rw [hv]
      exact ih d'

/-- The octets of a tree are those of the text of its draft. -/
theorem Node.renderOctets_eq (settings : RenderSettings) (root : Node) :
    root.renderOctets settings =
      (root.draft settings).bind fun d => d.detach.map encode := by
  have hf := forM_write_toWriter settings root.visits { width := settings.width }
  have hw : settings.writer = Draft.toWriter { width := settings.width } := rfl
  have hl : layout settings root.visits (Draft.toWriter { width := settings.width }) =
      EStateM.bind (root.visits.forM (Visit.write settings)) (fun _ => Writer.detach)
        (Draft.toWriter { width := settings.width }) := rfl
  unfold Node.renderOctets octetsOfVisits Node.draft
  rw [hw, hl]
  unfold EStateM.bind
  cases h : draftOfVisits settings root.visits { width := settings.width } with
  | error error =>
    rw [h] at hf
    obtain ⟨w, hf⟩ := hf
    rw [hf]
    rfl
  | ok d =>
    rw [h] at hf
    rw [hf]
    show _ = d.detach.map encode
    dsimp only
    unfold Writer.detach Draft.detach
    have hs : d.toWriter.segments = d.segments := rfl
    rw [hs]
    cases d.segments.isEmpty <;> rfl

/-- The text of a tree is the text of its draft. -/
theorem Node.render_eq (settings : RenderSettings) (root : Node) :
    root.render settings = (root.draft settings).bind fun d => d.detach.map String.ofList := by
  rw [Node.render, Node.renderOctets_eq]
  cases root.draft settings with
  | error error => rfl
  | ok d =>
    show (d.detach.map encode).bind textOfOctets = d.detach.map String.ofList
    cases d.detach with
    | error error => rfl
    | ok cs =>
      show textOfOctets (encode cs) = .ok (String.ofList cs)
      rw [textOfOctets, Text.Utf8.text, Text.Utf8.decode_encode]
      rfl

theorem draftOfVisits_cons (settings : RenderSettings) (v : Visit) (visits : List Visit)
    (d : Draft) :
    draftOfVisits settings (v :: visits) d =
      (d.visit settings v).bind (draftOfVisits settings visits) := rfl

theorem draftOfVisits_append (settings : RenderSettings) (visits more : List Visit) (d : Draft) :
    draftOfVisits settings (visits ++ more) d =
      (draftOfVisits settings visits d).bind (draftOfVisits settings more) :=
  List.foldlM_append

theorem draftOfVisits_singleton (settings : RenderSettings) (v : Visit) (d : Draft) :
    draftOfVisits settings [v] d = d.visit settings v := by
  rw [draftOfVisits_cons]
  cases d.visit settings v <;> rfl

/-- What succeeds after something else does so after its success. -/
theorem exists_of_bind_eq_ok {ε α β : Type} {result : Except ε α}
    {next : α → Except ε β} {b : β} (h : result.bind next = .ok b) :
    ∃ a, result = .ok a ∧ next a = .ok b := by
  cases result with
  | error error => cases h
  | ok a => exact ⟨a, rfl, h⟩

/-- A tree has a text when it has a draft that leaves no margin open. -/
theorem Node.render_eq_ok_iff {settings : RenderSettings} {root : Node} {text : String} :
    root.render settings = .ok text ↔
      ∃ d, root.draft settings = .ok d ∧ d.segments = [] ∧ d.text = text.toList := by
  rw [Node.render_eq]
  cases root.draft settings with
  | error error =>
    constructor
    · intro h
      cases h
    · rintro ⟨d, hd, _⟩
      cases hd
  | ok d =>
    show d.detach.map String.ofList = .ok text ↔ _
    unfold Draft.detach
    constructor
    · intro h
      split at h
      · rename_i hs
        cases h
        exact ⟨d, rfl, List.isEmpty_iff.mp hs, String.toList_ofList.symm⟩
      · cases h
    · rintro ⟨d', hd, hs, ht⟩
      cases hd
      rw [hs, ht]
      exact congrArg Except.ok String.ofList_toList

/-- Whether a script may hold a step: its margins are that of a quotation and blanks. -/
def Step.isScripted : Step → Bool
  | .push segment => segment = quoteMargin || segment.toList.all (· = ' ')
  | .startLine | .setWidth _ => false
  | _ => true

@[simp] theorem Step.isScripted_emit (policy : Policy) (span : String) :
    (Step.emit policy span).isScripted := rfl

@[simp] theorem Step.isScripted_owe (owed : Owed) : (Step.owe owed).isScripted := rfl

@[simp] theorem Step.isScripted_flush : Step.flush.isScripted := rfl

@[simp] theorem Step.isScripted_pop (expected : Option String) :
    (Step.pop expected).isScripted := rfl

@[simp] theorem Step.isScripted_keepLines (on : Bool) : (Step.keepLines on).isScripted := rfl

@[simp] theorem Step.isScripted_push_quoteMargin : (Step.push quoteMargin).isScripted := rfl

@[simp] theorem Step.isScripted_push_codeMargin : (Step.push codeMargin).isScripted := rfl

/-- The margin of an item is blank. -/
theorem Slot.margin_blank {markers : MarkerStyle} {slot : Slot} {item : ItemLayout}
    (h : slot.layout markers = .ok item) : item.margin.toList.all (· = ' ') := by
  obtain rfl | rfl | ⟨_, numeral, _, _, rfl⟩ := Slot.layout_eq_ok h
  · rfl
  · rfl
  · simp [ItemLayout.ofNumeral, blanks]

/-- The parts of a title are nothing but spans. -/
theorem exists_emit_of_mem_titlePartSteps (parts : List (List Char)) :
    ∀ s ∈ titlePartSteps parts, ∃ policy span, s = .emit policy span := by
  fun_induction titlePartSteps parts with
  | case1 => simp
  | case2 part => simp
  | case3 part rest _ ih => simpa using ih

/-- So are a destination and its title. -/
theorem exists_emit_of_mem_destinationSteps (url : String) (title : Option String) :
    ∀ s ∈ destinationSteps url title, ∃ policy span, s = .emit policy span := by
  have ht : ∀ s ∈ titleSteps title, ∃ policy span, s = .emit policy span := by
    unfold titleSteps
    split
    · simp
    · split
      · simp
      · simpa [or_imp, forall_and] using exists_emit_of_mem_titlePartSteps _
  simpa [destinationSteps, or_imp, forall_and] using ht

/-- An item that has a layout is entered by its mark and its margin. -/
theorem Visit.script_enter_listItem {settings : RenderSettings} {slot : Slot} {item : ItemLayout}
    (h : slot.layout settings.markers = .ok item) (unwritten : Bool) :
    Visit.script settings unwritten ⟨.enter, .container .listItem, slot⟩ =
      .ok [.emit .verbatim item.marker, .push item.margin] := by
  simp only [Visit.script, Container.enterScript, h]

/-- It is left by the return of its margin. -/
theorem Visit.script_exit_listItem {settings : RenderSettings} {slot : Slot} {item : ItemLayout}
    (h : slot.layout settings.markers = .ok item) (unwritten : Bool) :
    Visit.script settings unwritten ⟨.exit, .container .listItem, slot⟩ =
      .ok [.pop (some item.margin), .owe .lineEnd] := by
  simp only [Visit.script, Container.leaveScript, h]

/-- An item without a layout can be neither entered nor left. -/
theorem Visit.script_listItem_error {settings : RenderSettings} {slot : Slot} {error : LayoutError}
    (h : slot.layout settings.markers = .error error) (unwritten : Bool) (event : Event) :
    Visit.script settings unwritten ⟨event, .container .listItem, slot⟩ = .error error := by
  cases event <;> simp only [Visit.script, Container.enterScript, Container.leaveScript, h]

/-- What an item asks for is one of the two. -/
theorem Visit.script_listItem {settings : RenderSettings} {unwritten : Bool} {event : Event}
    {slot : Slot} {steps : List Step}
    (h : Visit.script settings unwritten ⟨event, .container .listItem, slot⟩ = .ok steps) :
    ∃ item, slot.layout settings.markers = .ok item ∧
      (steps = [.emit .verbatim item.marker, .push item.margin] ∨
        steps = [.pop (some item.margin), .owe .lineEnd]) := by
  cases hi : slot.layout settings.markers with
  | error error =>
    rw [Visit.script_listItem_error hi] at h
    cases h
  | ok item =>
    refine ⟨item, rfl, ?_⟩
    cases event <;>
      simp only [Visit.script, Container.enterScript, Container.leaveScript, hi,
        Except.ok.injEq] at h
    · exact .inl h.symm
    · exact .inr h.symm
    · exact .inr h.symm

/-- Every step of a script is of that kind. -/
theorem Visit.script_isScripted {settings : RenderSettings} {unwritten : Bool} {v : Visit}
    {steps : List Step} (h : v.script settings unwritten = .ok steps) :
    ∀ s ∈ steps, s.isScripted := by
  obtain ⟨event, element, slot⟩ := v
  cases element with
  | leaf leaf =>
    cases leaf with
    | foreign kind => cases h
    | codeBlock content info =>
      cases h
      split <;> simp [indentedSteps, fencedSteps]
    | _ =>
      cases h
      simp
  | container container =>
    cases container with
    | foreign kind => cases event <;> cases h
    | listItem =>
      obtain ⟨item, hi, rfl | rfl⟩ := Visit.script_listItem h
      · simp [Step.isScripted, Slot.margin_blank hi]
      · simp
    | document => cases unwritten <;> cases event <;> cases h <;> simp
    | link url title | image url title =>
      have hdestination : ∀ s ∈ destinationSteps url title, s.isScripted := by
        intro s hs
        obtain ⟨policy, span, rfl⟩ := exists_emit_of_mem_destinationSteps url title s hs
        rfl
      cases event <;> cases h
      · simp
      · exact hdestination
      · exact hdestination
    | _ => cases event <;> cases h <;> simp

/-- A draft of visits is a run of such steps. -/
theorem exists_run_of_draftOfVisits {settings : RenderSettings} {visits : List Visit} {d d' : Draft}
    (h : draftOfVisits settings visits d = .ok d') :
    ∃ steps, d' = d.run steps ∧ ∀ s ∈ steps, s.isScripted := by
  induction visits generalizing d with
  | nil =>
    cases h
    exact ⟨[], rfl, fun s hs => absurd hs List.not_mem_nil⟩
  | cons v visits ih =>
    obtain ⟨mid, hv, hrest⟩ := exists_of_bind_eq_ok h
    obtain ⟨steps, hscript, hsteps⟩ := exists_of_bind_eq_ok hv
    obtain ⟨more, hmore, hs⟩ := ih hrest
    refine ⟨steps ++ more, ?_, ?_⟩
    · rw [Draft.run_append, Draft.run_of_perform hsteps, hmore]
    · exact List.forall_mem_append.mpr ⟨Visit.script_isScripted hscript, hs⟩

namespace Draft

/-- The end of a document: a text without anything in it is one line end. -/
def finish (d : Draft) : Draft :=
  ((if d.text.isEmpty then d.emit .verbatim "\n" else d).owe .lineEnd).flush

/-- The end of a paragraph and of the document that it stands in. -/
def conclude (d : Draft) : Draft :=
  (d.owe .blankLine).finish

/-- A blank line outweighs every other break. -/
theorem owe_blankLine (d : Draft) : d.owe .blankLine = { d with owed := .blankLine } := by
  obtain ⟨width, head, line, segments, column, owed, keepsLines⟩ := d
  cases owed <;> rfl

theorem finish_of_text_ne_nil {d : Draft} (h : d.text ≠ []) :
    d.finish = (d.owe .lineEnd).flush := by
  have hempty : ¬ d.text.isEmpty = true := by rwa [List.isEmpty_iff]
  rw [finish, if_neg hempty]

/-- Where a blank line is owed, the end of a document is that line. -/
theorem finish_of_owed {d : Draft} (h : d.text ≠ []) (hd : d.owed = .blankLine) :
    d.finish = d.flush := by
  have howe : d.owe .lineEnd = d := by
    rw [owe, hd]
    rfl
  rw [finish_of_text_ne_nil h, howe]

/-- Where there is text, only a blank line is owed to its end. -/
theorem conclude_of_text_ne_nil {d : Draft} (h : d.text ≠ []) :
    d.conclude = ({ d with owed := .blankLine } : Draft).flush := by
  rw [conclude, owe_blankLine]
  exact finish_of_owed h rfl

theorem segments_finish (d : Draft) : d.finish.segments = d.segments := by
  have howe : ∀ e : Draft, (e.owe .lineEnd).segments = e.segments := by
    intro e
    unfold owe
    split <;> rfl
  unfold finish
  rw [segments_flush, howe]
  split
  · exact segments_emit .verbatim "\n" d
  · rfl

/-- A blank line behind text on the current line: the line ends, and the next one has a margin. -/
theorem flush_of_last {d : Draft} (ho : d.owed = .blankLine) {c : Char}
    (hlast : d.text.getLast? = some c) (hc : c ≠ '\n') :
    d.flush = { d.endLine ('\n' :: (d.margin ++ ['\n'])) with owed := .nothing } := by
  have hnewline : d.text.getLast? ≠ some '\n' := by
    rw [hlast]
    exact fun he => hc (Option.some.inj he)
  have hended : ¬ (d.text = [] ∨ d.text = ['\n'] ∨ ['\n', '\n'] <:+ d.text) := by
    rintro (he | he | he)
    · rw [he] at hlast
      cases hlast
    · exact hnewline (by rw [he]; rfl)
    · exact hnewline (getLast?_of_pair_suffix he)
  have hbreaks : d.breaksOwed = '\n' :: (d.margin ++ ['\n']) := by
    unfold breaksOwed
    rw [ho]
    dsimp only
    rw [if_neg hended, if_neg hnewline]
  rw [flush, if_neg (by simp [ho]), hbreaks]

/-- Nothing is owed at the start of a text. -/
theorem breaksOwed_of_text_nil {d : Draft} (h : d.text = []) : d.breaksOwed = [] := by
  unfold breaksOwed
  cases d.owed <;> simp [h]

theorem text_flush_of_text_nil {d : Draft} (h : d.text = []) : d.flush.text = [] := by
  unfold flush
  split
  · exact h
  · show (d.endLine d.breaksOwed).text = []
    rw [text_endLine, breaksOwed_of_text_nil h, h]
    rfl

theorem owed_flush (d : Draft) : d.flush.owed = .nothing := by
  unfold flush
  split
  · assumption
  · rfl

/-- A line end in a text without anything in it and without margins. -/
theorem emit_newline_of_text_nil {d : Draft} (h : d.text = []) (hs : d.segments = []) :
    (d.emit .verbatim "\n").text = ['\n'] ∧ (d.emit .verbatim "\n").owed = .nothing := by
  have hemit : d.emit .verbatim "\n" = d.flush.openLine.endLine ['\n'] := rfl
  have hmargin : d.flush.margin = [] := by simp [margin, hs]
  have htext := text_flush_of_text_nil h
  rw [hemit]
  refine ⟨?_, ?_⟩
  · rw [text_endLine]
    by_cases hf : d.flush.line = .fresh
    · rw [text_openLine_of_fresh hf, htext, hmargin]
      rfl
    · rw [openLine_of_ne_fresh hf, htext]
      rfl
  · show d.flush.openLine.owed = .nothing
    rw [owed_of_frame (frame_openLine d.flush), owed_flush]

/-- A text without anything in it becomes a line end. -/
theorem text_finish_of_text_nil {d : Draft} (h : d.text = []) (hs : d.segments = []) :
    d.finish.text = ['\n'] := by
  obtain ⟨htext, howed⟩ := emit_newline_of_text_nil h hs
  have hempty : d.text.isEmpty = true := by
    rw [h]
    rfl
  unfold finish
  rw [if_pos hempty]
  generalize d.emit .verbatim "\n" = e at htext howed
  have howe : e.owe .lineEnd = { e with owed := .lineEnd } := by
    rw [owe, howed]
    rfl
  have hnone : ({ e with owed := .lineEnd } : Draft).breaksOwed = [] := if_pos (.inr (by
    show e.text.getLast? = some '\n'
    rw [htext]
    rfl))
  rw [howe, flush, if_neg (by simp), hnone]
  show (e.endLine []).text = ['\n']
  rw [text_endLine, htext]
  rfl

theorem conclude_of_text_nil {d : Draft} (h : d.text = []) (hs : d.segments = []) :
    d.conclude.text = ['\n'] ∧ d.conclude.segments = [] := by
  rw [conclude, owe_blankLine, segments_finish]
  exact ⟨text_finish_of_text_nil (d := { d with owed := .blankLine }) h hs, hs⟩

/-- A text without margins is followed by at most two line ends, and by two if it has not just ended
a line. -/
theorem text_conclude {d : Draft} (hs : d.segments = []) :
    d.conclude.segments = [] ∧ ∃ count, count ≤ 2 ∧
      d.conclude.text = d.text ++ List.replicate count '\n' ∧
      (d.text.getLast? = some '\n' → count ≤ 1) ∧
      (d.text ≠ [] → d.text.getLast? ≠ some '\n' → count = 2) := by
  by_cases hne : d.text = []
  · obtain ⟨ht, hclosed⟩ := conclude_of_text_nil hne hs
    exact ⟨hclosed, 1, by omega, by rw [ht, hne]; rfl, fun _ => by omega, fun h => absurd hne h⟩
  · have hmargin : d.margin = [] := by simp [margin, hs]
    have ht : d.conclude.text = d.text ++
        (if d.text = [] ∨ d.text = ['\n'] ∨ ['\n', '\n'] <:+ d.text then []
          else if d.text.getLast? = some '\n' then d.margin ++ ['\n']
          else '\n' :: (d.margin ++ ['\n'])) := by
      rw [conclude_of_text_ne_nil hne, flush, if_neg (by simp)]
      show Glyph.chars (d.glyphs ++ Glyph.plain _) = _
      rw [Glyph.chars_append, Glyph.chars_plain]
      rfl
    have hclosed : d.conclude.segments = [] := by
      rw [conclude_of_text_ne_nil hne, segments_flush, hs]
    refine ⟨hclosed, ?_⟩
    rw [ht, hmargin]
    split
    · rename_i hb
      refine ⟨0, by omega, rfl, fun _ => by omega, fun _ hl => absurd ?_ hl⟩
      rcases hb with hb | hb | hb
      · exact absurd hb hne
      · rw [hb]
        rfl
      · exact getLast?_of_pair_suffix hb
    · split
      · rename_i hl
        exact ⟨1, by omega, rfl, fun _ => by omega, fun _ hn => absurd hl hn⟩
      · rename_i hl
        exact ⟨2, by omega, rfl, fun hn => absurd hn hl, fun _ _ => rfl⟩

end Draft

/-- The draft of a document is that of what stands in it, with the end of the document. -/
theorem Node.draft_document (settings : RenderSettings) (children : List Node) :
    (Node.branch .document children).draft settings =
      (draftOfVisits settings (Node.visitsUnder .document 0 children)
        { width := settings.width }).map Draft.finish := by
  have hv : (Node.branch .document children).visits =
      ⟨.enter, .container .document, .stray⟩ :: (Node.visitsUnder .document 0 children ++
        [⟨.exit, .container .document, .stray⟩]) := rfl
  rw [Node.draft, hv]
  show draftOfVisits settings (_ ++ _) _ = _
  rw [draftOfVisits_append]
  cases draftOfVisits settings (Node.visitsUnder .document 0 children)
      { width := settings.width } with
  | error error => rfl
  | ok d =>
    show draftOfVisits settings [⟨.exit, .container .document, .stray⟩] d = .ok d.finish
    unfold Draft.finish
    rw [draftOfVisits_cons, Draft.visit]
    dsimp only [Visit.script, Container.leaveScript]
    cases d.text.isEmpty <;> rfl

/-- A paragraph is what stands in it, with a blank line owed. -/
theorem draftOfVisits_paragraph (settings : RenderSettings) (container : Container) (position : Nat)
    (inlines : List Node) (d : Draft) :
    draftOfVisits settings (Node.visitsUnder container position [.branch .paragraph inlines]) d =
      (draftOfVisits settings (Node.visitsUnder .paragraph 0 inlines) d).map
        (Draft.owe .blankLine) := by
  have hv : Node.visitsUnder container position [.branch .paragraph inlines] =
      ⟨.enter, .container .paragraph, container.slot position⟩ ::
        (Node.visitsUnder .paragraph 0 inlines ++
          [⟨.exit, .container .paragraph, container.slot position⟩]) := by
    simp [Node.visitsIn, Node.visitsUnder]
  rw [hv]
  show draftOfVisits settings (_ ++ _) _ = _
  rw [draftOfVisits_append]
  cases draftOfVisits settings (Node.visitsUnder .paragraph 0 inlines) d <;> rfl

/-- The text of a document of one paragraph. -/
theorem Node.render_paragraph {settings : RenderSettings} {inlines : List Node} {d : Draft}
    (hd : draftOfVisits settings (Node.visitsUnder .paragraph 0 inlines)
      { width := settings.width } = .ok d) (hs : d.conclude.segments = []) :
    (Node.branch .document [.branch .paragraph inlines]).render settings =
      .ok (String.ofList d.conclude.text) := by
  refine Node.render_eq_ok_iff.mpr ⟨d.conclude, ?_, hs, String.toList_ofList.symm⟩
  rw [Node.draft_document, draftOfVisits_paragraph, hd]
  rfl

end MarkdownLayout
