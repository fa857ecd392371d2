import MarkdownLayout.Proofs.Defects
import MarkdownLayout.Proofs.Draft.Behind

/-!
# Documents one after the other

Blocks that follow other blocks are laid out as if they came first, provided that a blank line is
owed to them: no column, break point or margin is left over from one block to the next, and lines
are no longer kept whole. The octets of a document of two lists of blocks are therefore those of the
first list followed by those of the second. The main statement is `renderOctets_append`.

The two drafts of the second list are compared step by step. At first one of them has no text and
the other one waits to pay its blank line; from the first span on they differ by the text in front.
-/

namespace MarkdownLayout

open Text.Utf8 (encode)

/-- A block that owes the next one a blank line. -/
def Element.separates : Element → Bool
  | .leaf l =>
    match l with
    | .codeBlock .. | .htmlBlock _ | .thematicBreak => true
    | _ => false
  | .container c =>
    match c with
    | .blockQuote | .heading _ | .paragraph => true
    | _ => false

/-- Steps that write before they put down a margin. -/
def writesFirst : List Step → Bool
  | [] => true
  | .emit .. :: _ | .flush :: _ => true
  | .push _ :: _ | .startLine :: _ | .setWidth _ :: _ => false
  | .owe _ :: steps | .pop _ :: steps | .keepLines _ :: steps => writesFirst steps

/-- A margin is put down only behind the mark of its first line. -/
theorem Visit.writesFirst_script {settings : RenderSettings} {unwritten : Bool} {v : Visit}
    {steps : List Step} (h : v.script settings unwritten = .ok steps) : writesFirst steps := by
  obtain ⟨event, element, slot⟩ := v
  cases element with
  | leaf leaf =>
    cases leaf with
    | foreign kind => cases h
    | codeBlock content info =>
      cases h
      split <;> rfl
    | _ =>
      cases h
      rfl
  | container container =>
    cases container with
    | foreign kind => cases event <;> cases h
    | listItem =>
      obtain ⟨item, _, rfl | rfl⟩ := Visit.script_listItem h <;> rfl
    | document => cases unwritten <;> cases event <;> cases h <;> rfl
    | _ => cases event <;> cases h <;> rfl

namespace Draft

/-- Nothing has been written and no margin has been put down. -/
structure Unwritten (d : Draft) : Prop where
  head : d.head = []
  line : d.line = .fresh
  column : d.column = 0
  segments : d.segments = []

namespace Unwritten

variable {d : Draft}

/-- Where nothing has been written there is no text. -/
theorem text_eq (h : d.Unwritten) : d.text = [] := by
  rw [text, glyphs, h.line, h.head]
  rfl

/-- Breaks owed at the start of a text are dropped. -/
theorem flush_eq (h : d.Unwritten) : d.flush = { d with owed := .nothing } := by
  have htext := h.text_eq
  obtain ⟨width, head, line, segments, column, owed, keepsLines⟩ := d
  obtain ⟨rfl, rfl, rfl, rfl⟩ := h
  unfold flush
  split
  · rename_i hn
    cases hn
    rfl
  · rw [breaksOwed_of_text_nil htext]
    rfl

end Unwritten

/-- Paying breaks and keeping lines whole do not touch each other. -/
theorem flush_keepLines (on : Bool) (d : Draft) :
    ({ d with keepsLines := on } : Draft).flush = { d.flush with keepsLines := on } := by
  unfold flush
  split <;> rfl

/-- `e` owes a blank line to its text, which with that line is `front`. Apart from that it stands
where `d` stands, which has no text. -/
structure Awaits (front : List Glyph) (d e : Draft) : Prop where
  unwritten : d.Unwritten
  owed : e.owed = .blankLine
  flush_eq : e.flush = ({ d with owed := .nothing } : Draft).behind front

/-- `e` goes on behind `front` as `d` does without it. -/
def Continues (front : List Glyph) (d e : Draft) : Prop :=
  Awaits front d e ∨ e = d.behind front

namespace Awaits

variable {front : List Glyph} {d e : Draft}

/-- The blank line that is owed makes the text in front end with one, and the rest is as at the
start. -/
theorem flush_behind (h : Awaits front d e) : e.flush = d.flush.behind front := by
  rw [h.unwritten.flush_eq, h.flush_eq]

/-- Both drafts keep their lines whole at the same times, so they write a span by one policy. -/
theorem effective_eq (h : Awaits front d e) (policy : Policy) :
    e.effective policy = d.effective policy := by
  have hkeeps : e.keepsLines = d.keepsLines := by
    rw [← keepsLines_flush, h.flush_eq]
    rfl
  rw [effective, effective, hkeeps]

/-- The first span pays the blank line. -/
theorem emit (h : Awaits front d e) (hfront : Glyph.EndsBlank front) (policy : Policy)
    (span : String) : e.emit policy span = (d.emit policy span).behind front := by
  rw [Draft.emit, h.effective_eq, h.flush_behind, putAll_behind hfront]
  rfl

/-- A break that is owed at the start of a text is dropped there, and the blank line outweighs it
here. -/
theorem owe (h : Awaits front d e) (owed : Owed) : Awaits front (d.owe owed) (e.owe owed) := by
  have he : e.owe owed = e := by
    unfold Draft.owe
    rw [h.owed]
    cases owed <;> rfl
  rw [he]
  unfold Draft.owe
  split
  · exact ⟨⟨h.unwritten.head, h.unwritten.line, h.unwritten.column, h.unwritten.segments⟩,
      h.owed, h.flush_eq⟩
  · exact h

/-- A heading may begin before anything is written. -/
theorem keepLines (h : Awaits front d e) (on : Bool) :
    Awaits front { d with keepsLines := on } { e with keepsLines := on } := by
  refine ⟨⟨h.unwritten.head, h.unwritten.line, h.unwritten.column, h.unwritten.segments⟩,
    h.owed, ?_⟩
  rw [flush_keepLines, h.flush_eq]
  rfl

/-- Steps that write before they put down a margin. No margin is there to be taken back. -/
theorem perform (h : Awaits front d e) (hfront : Glyph.EndsBlank front) {steps : List Step}
    (hsteps : writesFirst steps) {d' : Draft} (hd : d.perform steps = .ok d') :
    ∃ e', e.perform steps = .ok e' ∧ Continues front d' e' := by
  induction steps generalizing d e with
  | nil =>
    cases hd
    exact ⟨e, rfl, .inl h⟩
  | cons s steps ih =>
    cases s with
    | emit policy span =>
      have hrest : (d.emit policy span).perform steps = .ok d' := hd
      refine ⟨d'.behind front, ?_, .inr rfl⟩
      show (e.emit policy span).perform steps = _
      rw [h.emit hfront, perform_behind hfront, hrest]
      rfl
    | flush =>
      have hrest : d.flush.perform steps = .ok d' := hd
      refine ⟨d'.behind front, ?_, .inr rfl⟩
      show e.flush.perform steps = _
      rw [h.flush_behind, perform_behind hfront, hrest]
      rfl
    | owe owed => exact ih (h.owe owed) hsteps hd
    | keepLines on => exact ih (h.keepLines on) hsteps hd
    | pop expected =>
      have hrefused : d.refusal (.pop expected) = some .marginEmpty := by
        rw [refusal, h.unwritten.segments]
        rfl
      rw [Draft.perform, hrefused] at hd
      cases hd
    | push segment | startLine | setWidth width => cases hsteps

end Awaits

/-- A visit other than that of a document goes on as it would without the text in front. -/
theorem Continues.visit {front : List Glyph} (hfront : Glyph.EndsBlank front) {d e : Draft}
    (h : Continues front d e) {settings : RenderSettings} {v : Visit}
    (hv : v.element ≠ .container .document) {d' : Draft} (hd : d.visit settings v = .ok d') :
    ∃ e', e.visit settings v = .ok e' ∧ Continues front d' e' := by
  obtain ⟨steps, hscript, hsteps⟩ := exists_of_bind_eq_ok hd
  have hscript' : v.script settings e.text.isEmpty = .ok steps := by
    rw [← hscript]
    obtain ⟨event, element, slot⟩ := v
    rcases element with leaf | container
    · rfl
    · cases container with
      | document => exact absurd rfl hv
      | _ => cases event <;> rfl
  have hperform : ∃ e', e.perform steps = .ok e' ∧ Continues front d' e' := by
    rcases h with hwaits | rfl
    · exact hwaits.perform hfront (Visit.writesFirst_script hscript) hsteps
    · refine ⟨d'.behind front, ?_, .inr rfl⟩
      rw [perform_behind hfront, hsteps]
      rfl
  rw [Draft.visit, hscript']
  exact hperform

/-- So do visits one after the other. -/
theorem Continues.draftOfVisits {front : List Glyph} (hfront : Glyph.EndsBlank front) {d e : Draft}
    (h : Continues front d e) {settings : RenderSettings} {visits : List Visit}
    (hvisits : ∀ v ∈ visits, v.element ≠ .container .document) {d' : Draft}
    (hd : draftOfVisits settings visits d = .ok d') :
    ∃ e', draftOfVisits settings visits e = .ok e' ∧ Continues front d' e' := by
  induction visits generalizing d e with
  | nil =>
    cases hd
    exact ⟨e, rfl, h⟩
  | cons v visits ih =>
    obtain ⟨hv, hrest⟩ := List.forall_mem_cons.mp hvisits
    obtain ⟨mid, hmid, hd'⟩ := exists_of_bind_eq_ok hd
    obtain ⟨emid, hemid, hcontinues⟩ := h.visit hfront hv hmid
    rw [draftOfVisits_cons, hemid]
    exact ih hcontinues hrest hd'

end Draft

namespace Draft

/-- The steps of scripts leave the width alone. -/
theorem width_apply {s : Step} (h : s.isScripted) (d : Draft) : (d.apply s).width = d.width := by
  cases s with
  | emit policy span => exact (width_of_frame (frame_putAll _ _ _)).trans (width_flush d)
  | owe owed => rcases d.apply_owe_cases owed with he | he <;> rw [he]
  | flush => exact width_flush d
  | pop expected =>
    rcases d.apply_pop_cases expected with he | he <;> rw [he]
    rfl
  | push segment | keepLines on => rfl
  | startLine | setWidth width => cases h

/-- No script changes the width. -/
theorem width_run {steps : List Step} (h : ∀ s ∈ steps, s.isScripted) (d : Draft) :
    (d.run steps).width = d.width := by
  induction steps generalizing d with
  | nil => rfl
  | cons s steps ih =>
    obtain ⟨hs, hrest⟩ := List.forall_mem_cons.mp h
    rw [run_cons, ih hrest, width_apply hs]

/-- No step but one begins to keep lines whole. -/
theorem keepsLines_apply {d : Draft} (hd : d.keepsLines = false) {s : Step}
    (hs : s ≠ .keepLines true) : (d.apply s).keepsLines = false := by
  cases s with
  | emit policy span =>
    exact (keepsLines_of_frame (frame_putAll _ _ _)).trans ((keepsLines_flush d).trans hd)
  | owe owed => rcases d.apply_owe_cases owed with he | he <;> rw [he] <;> exact hd
  | flush => exact (keepsLines_flush d).trans hd
  | pop expected => rcases d.apply_pop_cases expected with he | he <;> rw [he] <;> exact hd
  | keepLines on =>
    cases on with
    | false => rfl
    | true => exact absurd rfl hs
  | push segment | startLine | setWidth width => exact hd

/-- Nor do steps without that one among them. -/
theorem keepsLines_run {d : Draft} (hd : d.keepsLines = false) {steps : List Step}
    (h : .keepLines true ∉ steps) : (d.run steps).keepsLines = false := by
  induction steps generalizing d with
  | nil => exact hd
  | cons s steps ih =>
    rw [List.mem_cons, not_or] at h
    exact ih (keepsLines_apply hd (Ne.symm h.1)) h.2

end Draft

/-- Only the entry into a heading begins to keep lines whole. -/
theorem Visit.keepLines_notMem_script {settings : RenderSettings} {unwritten : Bool} {v : Visit}
    (hv : ∀ level, v.element = .container (.heading level) → v.event ≠ .enter) {steps : List Step}
    (h : v.script settings unwritten = .ok steps) : .keepLines true ∉ steps := by
  obtain ⟨event, element, slot⟩ := v
  cases element with
  | leaf leaf =>
    cases leaf with
    | foreign kind => cases h
    | codeBlock content info =>
      cases h
      split <;> simp [indentedSteps, fencedSteps]
    | _ =>
      cases h
      simp
  | container container =>
    cases container with
    | foreign kind => cases event <;> cases h
    | listItem =>
      obtain ⟨item, _, rfl | rfl⟩ := Visit.script_listItem h <;> simp
    | document => cases unwritten <;> cases event <;> cases h <;> simp
    | heading level =>
      cases event with
      | enter => exact absurd rfl (hv level rfl)
      | exit | done =>
        cases h
        simp
    | link url title | image url title =>
      have hdestination : .keepLines true ∉ destinationSteps url title := by
        intro hs
        obtain ⟨_, _, he⟩ := exists_emit_of_mem_destinationSteps url title _ hs
        cases he
      cases event <;> cases h
      · simp
      · exact hdestination
      · exact hdestination
    | _ => cases event <;> cases h <;> simp

/-- A visit other than the entry into a heading does not begin to keep lines whole. -/
theorem Draft.keepsLines_visit {settings : RenderSettings} {v : Visit}
    (hv : ∀ level, v.element = .container (.heading level) → v.event ≠ .enter) {d d' : Draft}
    (hd : d.keepsLines = false) (h : d.visit settings v = .ok d') : d'.keepsLines = false := by
  obtain ⟨steps, hscript, hsteps⟩ := exists_of_bind_eq_ok h
  rw [← Draft.run_of_perform hsteps]
  exact Draft.keepsLines_run hd (Visit.keepLines_notMem_script hv hscript)

mutual

/-- A heading that keeps lines whole ceases to do so when it is left, so a tree does too. -/
theorem Node.keepsLines_visitsIn {settings : RenderSettings} {slot : Slot} {node : Node}
    {d d' : Draft} (hd : d.keepsLines = false)
    (h : draftOfVisits settings (node.visitsIn slot) d = .ok d') : d'.keepsLines = false := by
  match node with
  | .leaf l =>
    rw [Node.visitsIn, draftOfVisits_singleton] at h
    exact Draft.keepsLines_visit (fun _ he => by cases he) hd h
  | .branch container children =>
    rw [Node.visitsIn, draftOfVisits_cons] at h
    obtain ⟨entered, henter, hrest⟩ := exists_of_bind_eq_ok h
    rw [draftOfVisits_append] at hrest
    obtain ⟨last, hunder, hexit⟩ := exists_of_bind_eq_ok hrest
    rw [draftOfVisits_singleton] at hexit
    by_cases hc : ∃ level, container = .heading level
    · obtain ⟨level, rfl⟩ := hc
      cases hexit
      show (Draft.owe .blankLine { last with keepsLines := false }).keepsLines = false
      rw [Draft.owe_blankLine]
    · have hne : ∀ level, Element.container container ≠ .container (.heading level) :=
        fun level he => hc ⟨level, Element.container.inj he⟩
      have hentered := Draft.keepsLines_visit (fun level he => absurd he (hne level)) hd henter
      have hlast := Node.keepsLines_visitsUnder hentered hunder
      exact Draft.keepsLines_visit (fun level he => absurd he (hne level)) hlast hexit

/-- So do trees one after the other. -/
theorem Node.keepsLines_visitsUnder {settings : RenderSettings} {container : Container}
    {position : Nat} {nodes : List Node} {d d' : Draft} (hd : d.keepsLines = false)
    (h : draftOfVisits settings (Node.visitsUnder container position nodes) d = .ok d') :
    d'.keepsLines = false := by
  match nodes with
  | [] =>
    cases h
    exact hd
  | child :: rest =>
    rw [Node.visitsUnder, draftOfVisits_append] at h
    obtain ⟨mid, hchild, hrest⟩ := exists_of_bind_eq_ok h
    exact Node.keepsLines_visitsUnder (Node.keepsLines_visitsIn hd hchild) hrest

end

/-- A block of such a kind ends with a blank line owed. -/
theorem Node.owed_visitsIn {settings : RenderSettings} {slot : Slot} {node : Node}
    (hnode : node.element.separates) {d d' : Draft}
    (h : draftOfVisits settings (node.visitsIn slot) d = .ok d') : d'.owed = .blankLine := by
  have hlast : ∀ {v : Visit} {d d' : Draft},
      (∃ steps, v.script settings d.text.isEmpty = .ok (steps ++ [.owe .blankLine])) →
      d.visit settings v = .ok d' → d'.owed = .blankLine := by
    rintro v d d' ⟨steps, hv⟩ hd
    rw [Draft.visit, hv] at hd
    have hrun := Draft.run_of_perform hd
    rw [Draft.run_append] at hrun
    rw [← hrun]
    show (Draft.owe .blankLine _).owed = .blankLine
    rw [Draft.owe_blankLine]
  cases node with
  | leaf l =>
    rw [Node.visitsIn, draftOfVisits_singleton] at h
    refine hlast ?_ h
    cases l with
    | codeBlock content info => exact ⟨_, rfl⟩
    | htmlBlock content => exact ⟨[_, _], rfl⟩
    | thematicBreak => exact ⟨[_, _], rfl⟩
    | _ => cases hnode
  | branch container children =>
    rw [Node.visitsIn, draftOfVisits_cons] at h
    obtain ⟨entered, _, hrest⟩ := exists_of_bind_eq_ok h
    rw [draftOfVisits_append] at hrest
    obtain ⟨last, _, hexit⟩ := exists_of_bind_eq_ok hrest
    rw [draftOfVisits_singleton] at hexit
    refine hlast ?_ hexit
    cases container with
    | blockQuote => exact ⟨[_], rfl⟩
    | heading level => exact ⟨[_], rfl⟩
    | paragraph => exact ⟨[], rfl⟩
    | _ => cases hnode

mutual

/-- Only the node and its descendants are visited. -/
theorem Node.mem_visitsIn {slot : Slot} {node : Node} {v : Visit} (h : v ∈ node.visitsIn slot) :
    ∃ visited ∈ node :: node.descendants, v.element = visited.element := by
  match node with
  | .leaf l =>
    rw [Node.visitsIn, List.mem_singleton] at h
    exact ⟨.leaf l, List.mem_cons_self, by rw [h]; rfl⟩
  | .branch container children =>
    rw [Node.visitsIn, List.mem_cons, List.mem_append, List.mem_singleton] at h
    rcases h with rfl | h | rfl
    · exact ⟨.branch container children, List.mem_cons_self, rfl⟩
    · obtain ⟨visited, hvisited, he⟩ := Node.mem_visitsUnder h
      exact ⟨visited, List.mem_cons_of_mem _ hvisited, he⟩
    · exact ⟨.branch container children, List.mem_cons_self, rfl⟩

/-- The same for nodes under a container. -/
theorem Node.mem_visitsUnder {container : Container} {position : Nat} {nodes : List Node}
    {v : Visit} (h : v ∈ Node.visitsUnder container position nodes) :
    ∃ visited ∈ Node.preorderOf nodes, v.element = visited.element := by
  match nodes with
  | [] => cases h
  | child :: rest =>
    rw [Node.visitsUnder, List.mem_append] at h
    rw [Node.preorderOf, ← List.cons_append]
    rcases h with h | h
    · obtain ⟨visited, hvisited, he⟩ := Node.mem_visitsIn h
      exact ⟨visited, List.mem_append_left _ hvisited, he⟩
    · obtain ⟨visited, hvisited, he⟩ := Node.mem_visitsUnder h
      exact ⟨visited, List.mem_append_right _ hvisited, he⟩

end

/-- In a document no block knows its position. -/
theorem Node.visitsUnder_document (position : Nat) (nodes : List Node) :
    Node.visitsUnder .document position nodes = nodes.flatMap (Node.visitsIn .stray) := by
  induction nodes generalizing position with
  | nil => rfl
  | cons child rest ih =>
    rw [Node.visitsUnder, ih, List.flatMap_cons]
    rfl

namespace Draft

/-- The end of a document behind a text is that of the document alone, unless the document is empty:
then it is a line end of its own. -/
theorem finish_behind {front : List Glyph} (hfront : Glyph.EndsBlank front) {d : Draft}
    (h : d.text ≠ []) : (d.behind front).finish = d.finish.behind front := by
  have hbehind : (d.behind front).text ≠ [] := by simp [h]
  rw [finish_of_text_ne_nil h, finish_of_text_ne_nil hbehind, owe_behind, flush_behind hfront]

/-- A blank line without a margin ends a text with it, unless there is nothing but a line end. -/
theorem endsBlank_flush {d : Draft} (hs : d.segments = []) (ho : d.owed = .blankLine)
    (h : d.text ≠ []) (hne : d.flush.text ≠ ['\n']) : Glyph.EndsBlank d.flush.glyphs := by
  have hmargin : d.margin = [] := by simp [margin, hs]
  have hflush : d.flush.text = d.text ++ d.breaksOwed := by
    rw [flush, if_neg (by simp [ho])]
    exact text_endLine _ _
  show ['\n', '\n'] <:+ d.flush.text
  rw [hflush] at hne ⊢
  unfold breaksOwed at hne ⊢
  rw [ho, hmargin] at hne ⊢
  dsimp only at hne ⊢
  split
  · rename_i hblank
    rw [if_pos hblank, List.append_nil] at hne
    rw [List.append_nil]
    exact (hblank.resolve_left h).resolve_left hne
  · split
    · rename_i hlast
      obtain ⟨before, hb⟩ := List.getLast?_eq_some_iff.mp hlast
      rw [hb]
      exact ⟨before, by simp⟩
    · exact ⟨d.text, rfl⟩

end Draft

/-- The octets of a document in terms of the draft of its blocks. -/
theorem Node.renderOctets_document_eq_ok_iff {settings : RenderSettings} {blocks : List Node}
    {octets : List UInt8} :
    (Node.branch .document blocks).renderOctets settings = .ok octets ↔
      ∃ d, draftOfVisits settings (Node.visitsUnder .document 0 blocks)
          { width := settings.width } = .ok d ∧ encode d.finish.text = octets := by
  rw [Node.renderOctets_eq, Node.draft_document]
  have hsettles := Node.settles_visitsUnder settings .document 0 blocks { width := settings.width }
  cases hd : draftOfVisits settings (Node.visitsUnder .document 0 blocks)
      { width := settings.width } with
  | error error =>
    constructor
    · intro h
      cases h
    · rintro ⟨d, h, _⟩
      cases h
  | ok d =>
    rw [hd] at hsettles
    have hdetach : d.finish.detach = .ok d.finish.text := by
      rw [Draft.detach, Draft.segments_finish, hsettles.segments_eq]
      rfl
    show d.finish.detach.map encode = .ok octets ↔ _
    rw [hdetach]
    constructor
    · intro h
      exact ⟨d, rfl, Except.ok.inj h⟩
    · rintro ⟨d', h, he⟩
      cases h
      exact congrArg Except.ok he

/-- A text without anything in it has the octets of a line end. -/
theorem text_ne_nil_of_encode_finish {d : Draft} (hs : d.segments = [])
    (h : encode d.finish.text ≠ [Writer.newline]) : d.text ≠ [] := by
  intro hn
  refine h ?_
  rw [Draft.text_finish_of_text_nil hn hs]
  decide

/-- The draft of the first list, once its blank line is paid, is the start of a draft behind its
text. -/
theorem Draft.awaits_of_blocks {settings : RenderSettings} {blocks : List Node} {e : Draft}
    (he : draftOfVisits settings (Node.visitsUnder .document 0 blocks)
      { width := settings.width } = .ok e)
    (hs : e.segments = []) (howed : e.owed = .blankLine) :
    Awaits e.flush.glyphs { width := settings.width } e := by
  obtain ⟨steps, hrun, hsteps⟩ := exists_run_of_draftOfVisits he
  have hwidth : e.width = settings.width := by rw [hrun, Draft.width_run hsteps]
  have hkeeps : e.keepsLines = false := Node.keepsLines_visitsUnder rfl he
  refine ⟨⟨rfl, rfl, rfl, rfl⟩, howed, ?_⟩
  have hflush : e.flush = { e.endLine e.breaksOwed with owed := .nothing } := by
    rw [flush, if_neg (by simp [howed])]
  rw [hflush]
  simp [endLine, behind, glyphs, hwidth, hkeeps, hs]

/-- What the last block owes is owed by the list. -/
theorem owed_of_blocks {settings : RenderSettings} {blocks : List Node} {d e : Draft}
    (hlast : blocks.getLast?.any fun block => block.element.separates)
    (he : draftOfVisits settings (Node.visitsUnder .document 0 blocks) d = .ok e) :
    e.owed = .blankLine := by
  obtain ⟨last, hl, hseparates⟩ := (Option.any_eq_true _ _).mp hlast
  obtain ⟨init, rfl⟩ := List.getLast?_eq_some_iff.mp hl
  rw [Node.visitsUnder_document, List.flatMap_append, draftOfVisits_append] at he
  obtain ⟨mid, _, hmid⟩ := exists_of_bind_eq_ok he
  rw [List.flatMap_singleton] at hmid
  exact Node.owed_visitsIn hseparates hmid

/-- The octets of two lists of blocks are those of the first followed by those of the second. -/
theorem renderOctets_append (settings : RenderSettings) {blocks more : List Node}
    {octets octets' : List UInt8}
    (hblocks : (Node.branch .document blocks).renderOctets settings = .ok octets)
    (hmore : (Node.branch .document more).renderOctets settings = .ok octets')
    (hne : octets ≠ [Writer.newline]) (hne' : octets' ≠ [Writer.newline])
    (hlast : blocks.getLast?.any fun block => block.element.separates)
    (hdocument : ∀ node ∈ Node.preorderOf more, node.element ≠ .container .document) :
    (Node.branch .document (blocks ++ more)).renderOctets settings = .ok (octets ++ octets') := by
  obtain ⟨e, he, rfl⟩ := Node.renderOctets_document_eq_ok_iff.mp hblocks
  obtain ⟨d, hd, rfl⟩ := Node.renderOctets_document_eq_ok_iff.mp hmore
  have hsettles := Node.settles_visitsUnder settings .document 0
  have hes : e.segments = [] := (he ▸ hsettles blocks { width := settings.width }).segments_eq
  have hds : d.segments = [] := (hd ▸ hsettles more { width := settings.width }).segments_eq
  have hetext := text_ne_nil_of_encode_finish hes hne
  have hdtext := text_ne_nil_of_encode_finish hds hne'
  have howed := owed_of_blocks hlast he
  have hfinish : e.finish = e.flush := Draft.finish_of_owed hetext howed
  have hfront : Glyph.EndsBlank e.flush.glyphs := by
    refine Draft.endsBlank_flush hes howed hetext fun hn => hne ?_
    rw [hfinish, hn]
    decide
  have hvisits : ∀ v ∈ Node.visitsUnder .document 0 more, v.element ≠ .container .document := by
    intro v hv
    obtain ⟨node, hnode, helement⟩ := Node.mem_visitsUnder hv
    rw [helement]
    exact hdocument node hnode
  obtain ⟨e', he', hcontinues⟩ :=
    Draft.Continues.draftOfVisits hfront (.inl (Draft.awaits_of_blocks he hes howed)) hvisits hd
  -- The second list has a text, so its blank line has been paid.
  have hbehind : e' = d.behind e.flush.glyphs :=
    hcontinues.resolve_left fun hwaits => hdtext hwaits.unwritten.text_eq
  refine Node.renderOctets_document_eq_ok_iff.mpr ⟨e', ?_, ?_⟩
  · rw [Node.visitsUnder_document] at he he' ⊢
    rw [List.flatMap_append, draftOfVisits_append, he]
    exact he'
  · rw [hbehind, Draft.finish_behind hfront hdtext, Draft.text_behind, Text.Utf8.encode_append,
      hfinish]
    rfl

/-- A heading and a quotation that ends with a digit, then a full stop and a numbered list. -/
theorem renderOctets_append_heading_list :
    (Node.branch .document [.branch (.heading 2) [.leaf (.text "a b c")],
        .branch .blockQuote [.branch .paragraph [.leaf (.text "d e 1")]]]).renderOctets
      { width := 6, markers := .sequential } = .ok (encode "## a b c\n\n> d e\n> 1\n\n".toList) ∧
    (Node.branch .document [.branch .paragraph [.leaf (.text ". f")],
        .branch (.list true 9) [.branch .listItem [.branch .paragraph
          [.leaf (.text "g h")]]]]).renderOctets
      { width := 6, markers := .sequential } = .ok (encode ". f\n\n9.  g\n    h\n\n".toList) ∧
    (Node.branch .document ([.branch (.heading 2) [.leaf (.text "a b c")],
        .branch .blockQuote [.branch .paragraph [.leaf (.text "d e 1")]]] ++
        [.branch .paragraph [.leaf (.text ". f")],
          .branch (.list true 9) [.branch .listItem [.branch .paragraph
            [.leaf (.text "g h")]]]])).renderOctets
      { width := 6, markers := .sequential } =
        .ok (encode "## a b c\n\n> d e\n> 1\n\n".toList ++
          encode ". f\n\n9.  g\n    h\n\n".toList) := by
  have hblocks : (Node.branch .document [.branch (.heading 2) [.leaf (.text "a b c")],
        .branch .blockQuote [.branch .paragraph [.leaf (.text "d e 1")]]]).renderOctets
      { width := 6, markers := .sequential } =
        .ok (encode "## a b c\n\n> d e\n> 1\n\n".toList) := by
    decide +kernel
  have hmore : (Node.branch .document [.branch .paragraph [.leaf (.text ". f")],
        .branch (.list true 9) [.branch .listItem [.branch .paragraph
          [.leaf (.text "g h")]]]]).renderOctets
      { width := 6, markers := .sequential } =
        .ok (encode ". f\n\n9.  g\n    h\n\n".toList) := by
    decide +kernel
  exact ⟨hblocks, hmore,
    renderOctets_append _ hblocks hmore (by decide) (by decide) (by decide) (by decide)⟩

end MarkdownLayout
