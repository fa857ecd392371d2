import MarkdownLayout.Proofs.Reflow

/-!
# Trees whose lines cannot be broken

The width of a layout is looked at in one place only: when a line that has a break point has become
too long. A break point is a blank of a span that may be broken, and headings keep their lines
whole. A tree without such blanks outside its headings therefore has the same text at every width,
or the same error.

Two layouts are followed side by side. After every visit they differ in their width and in nothing
else, and their line has no break point. The main statement is `renderOctets_eq_of_unbreakable`.
-/

namespace MarkdownLayout

/-- Whether a leaf has no blank at which a line may be broken. Code that is set off from its
delimiter has one. -/
def Leaf.unbreakable : Leaf → Bool
  | .text content | .htmlInline content => ' ' ∉ content.toList
  | .softBreak => false
  | .code content =>
    ' ' ∉ content.toList && content.toList.head? ≠ some tick && content.toList.getLast? ≠ some tick
  | _ => true

/-- Whether a container is a heading. -/
def Container.isHeading : Container → Bool
  | .heading _ => true
  | _ => false

mutual

/-- Whether no line of a tree can be broken: its leaves outside headings have no blank for that, and
no heading stands in another one, as the end of the inner one would let go of the lines of the outer
one. -/
def Node.unbreakable (inHeading : Bool) : Node → Bool
  | .leaf l => inHeading || l.unbreakable
  | .branch container children =>
    !(inHeading && container.isHeading) &&
      Node.allUnbreakable (inHeading || container.isHeading) children

/-- Whether no line of a list of trees can be broken. -/
def Node.allUnbreakable (inHeading : Bool) : List Node → Bool
  | [] => true
  | child :: rest => child.unbreakable inHeading && Node.allUnbreakable inHeading rest

end

namespace Draft

/-- A draft with another width. -/
def withWidth (width : Int) (d : Draft) : Draft :=
  { d with width }

/-- The margin of a line does not depend on the width. -/
theorem openLine_withWidth (width : Int) (d : Draft) :
    (d.withWidth width).openLine = d.openLine.withWidth width := by
  obtain ⟨_, head, line, segments, column, owed, keepsLines⟩ := d
  cases line <;> rfl

/-- Nor does what is written where the line stands. -/
theorem append_withWidth (width : Int) (escapes : Bool) (cs : List Char) (d : Draft) :
    (d.withWidth width).append escapes cs = (d.append escapes cs).withWidth width := by
  obtain ⟨_, head, line, segments, column, owed, keepsLines⟩ := d
  rcases line with _ | _ | _ | ⟨_ | ⟨t, tail⟩, first⟩ <;> rfl

/-- Only the break of a line looks at the width. -/
theorem place_withWidth (width : Int) (policy : Policy) (c : Char) (next : Option Char)
    (d : Draft) :
    (d.withWidth width).place policy c next = (d.place policy c next).withWidth width := by
  unfold place
  split
  · unfold placeBlank
    show (if d.atLineStart then _ else _) = withWidth width (if d.atLineStart then _ else _)
    split <;> rfl
  · split
    · rfl
    · exact append_withWidth width _ _ d

/-- Nor do the breaks that are owed. -/
theorem flush_withWidth (width : Int) (d : Draft) :
    (d.withWidth width).flush = d.flush.withWidth width := by
  unfold flush
  show (if d.owed = .nothing then _ else _) = withWidth width (if d.owed = .nothing then _ else _)
  split <;> rfl

/-- The current line has no break point. -/
def Firm (d : Draft) : Prop :=
  ∀ tail escapes, d.line ≠ .loose tail escapes

namespace Firm

variable {d : Draft}

/-- Opening a line sets no break point. -/
theorem openLine (h : d.Firm) : d.openLine.Firm := by
  by_cases hf : d.line = .fresh
  · intro tail escapes hl
    simp [Draft.openLine, hf] at hl
  · rw [openLine_of_ne_fresh hf]
    exact h

/-- Ending a line takes the break point away. -/
theorem endLine (cs : List Char) (d : Draft) : (d.endLine cs).Firm :=
  fun _ _ hl => by cases hl

/-- A character that is no breakable blank leaves a line without a break point. -/
theorem place (h : d.Firm) {policy : Policy} {c : Char} (hc : ¬ (c = ' ' ∧ policy.wraps))
    (next : Option Char) : (d.place policy c next).Firm := by
  unfold Draft.place
  rw [if_neg hc]
  split
  · exact endLine ['\n'] d
  · intro tail escapes hl
    rw [line_append_of_not_loose h] at hl
    cases hl

/-- Without a break point no line is broken, whatever the width. -/
theorem settle_eq (h : d.Firm) : d.settle = d := by
  rcases settle_cases d with ⟨tail, escapes, hl, _⟩ | ⟨hs, _⟩
  · exact absurd hl (h tail escapes)
  · exact hs

/-- A character at which no line may be broken sets no break point, and is written alike at all
widths. -/
theorem put (h : d.Firm) {policy : Policy} {c : Char} (hc : ¬ (c = ' ' ∧ policy.wraps))
    (next : Option Char) (width : Int) :
    (d.put policy c next).Firm ∧
      (d.withWidth width).put policy c next = (d.put policy c next).withWidth width := by
  have hplace := h.openLine.place hc next
  have hother : ((d.openLine.place policy c next).withWidth width).Firm := hplace
  rw [Draft.put, Draft.put, openLine_withWidth, place_withWidth, hplace.settle_eq, hother.settle_eq]
  exact ⟨hplace, rfl⟩

/-- So are the characters of a span without breakable blanks. -/
theorem putAll (h : d.Firm) {policy : Policy} {cs : List Char}
    (hcs : policy.wraps = true → ' ' ∉ cs) (width : Int) :
    (d.putAll policy cs).Firm ∧
      (d.withWidth width).putAll policy cs = (d.putAll policy cs).withWidth width := by
  induction cs generalizing d with
  | nil => exact ⟨h, rfl⟩
  | cons c rest ih =>
    have hc : ¬ (c = ' ' ∧ policy.wraps) := by
      rintro ⟨rfl, hw⟩
      exact hcs hw List.mem_cons_self
    have hrest : policy.wraps = true → ' ' ∉ rest := fun hw hm =>
      hcs hw (List.mem_cons_of_mem c hm)
    obtain ⟨hput, heq⟩ := h.put hc rest.head? width
    rw [Draft.putAll, Draft.putAll, heq]
    exact ih hput hrest

/-- Breaks that are paid set no break point. -/
theorem flush (h : d.Firm) : d.flush.Firm := by
  unfold Draft.flush
  split
  · exact h
  · exact endLine d.breaksOwed d

end Firm

end Draft

namespace Step

/-- Whether a step leaves lines unbreakable. `kept` tells whether lines are kept whole. -/
def isFirm (kept : Bool) : Step → Bool
  | .emit policy span => kept || !policy.wraps || ' ' ∉ span.toList
  | .setWidth _ => false
  | _ => true

/-- Whether lines are kept whole after a step. -/
def keptAfter (kept : Bool) : Step → Bool
  | .keepLines on => on
  | _ => kept

/-- Each of the steps leaves lines unbreakable, and `after` tells whether lines are kept whole in
the end. -/
def Firms (kept : Bool) (after : Bool) : List Step → Prop
  | [] => kept = after
  | s :: steps => s.isFirm kept ∧ Firms (s.keptAfter kept) after steps

end Step

namespace Draft

/-- The current line has no break point, and `kept` tells whether lines are kept whole. -/
structure Rigid (kept : Bool) (d : Draft) : Prop where
  firm : d.Firm
  keeps : d.keepsLines = kept

namespace Rigid

variable {kept : Bool} {d : Draft}

/-- Spans without breakable blanks do not look at the width. -/
theorem emit (h : d.Rigid kept) {policy : Policy} {span : String}
    (hs : (Step.emit policy span).isFirm kept) (width : Int) :
    (d.emit policy span).Rigid kept ∧
      (d.withWidth width).emit policy span = (d.emit policy span).withWidth width := by
  have hcs : (d.effective policy).wraps = true →
      ' ' ∉ charsOf (d.effective policy) span := by
    intro hw hm
    rw [charsOf, if_pos hw] at hm
    have hspan := Writer.mem_of_mem_squeezeAfter hm
    have hboth : policy.wraps = true ∧ kept = false := by simpa [effective, h.keeps] using hw
    simp [Step.isFirm, hboth, hspan] at hs
  obtain ⟨hfirm, heq⟩ := h.firm.flush.putAll hcs width
  refine ⟨⟨hfirm, ?_⟩, ?_⟩
  · exact (keepsLines_of_frame (frame_putAll _ _ _)).trans ((keepsLines_flush d).trans h.keeps)
  · rw [Draft.emit, flush_withWidth]
    exact heq

/-- What a step keeps. -/
theorem apply (h : d.Rigid kept) {s : Step} (hs : s.isFirm kept) (width : Int) :
    (d.apply s).Rigid (s.keptAfter kept) ∧
      (d.withWidth width).apply s = (d.apply s).withWidth width := by
  cases s with
  | emit policy span => exact h.emit hs width
  | owe owed =>
    refine ⟨?_, ?_⟩
    · rcases d.apply_owe_cases owed with he | he <;> rw [he] <;> exact ⟨h.firm, h.keeps⟩
    · show owe owed (d.withWidth width) = withWidth width (owe owed d)
      unfold owe
      show (if d.owed.level < owed.level then _ else _) =
        withWidth width (if d.owed.level < owed.level then _ else _)
      split <;> rfl
  | flush => exact ⟨⟨h.firm.flush, (keepsLines_flush d).trans h.keeps⟩, flush_withWidth width d⟩
  | pop expected =>
    refine ⟨?_, ?_⟩
    · rcases d.apply_pop_cases expected with he | he <;> rw [he] <;> exact ⟨h.firm, h.keeps⟩
    · have hr : (d.withWidth width).refusal (.pop expected) = d.refusal (.pop expected) := rfl
      simp only [Draft.apply, hr]
      split <;> rfl
  | push segment => exact ⟨⟨h.firm, h.keeps⟩, rfl⟩
  | keepLines on => exact ⟨⟨h.firm, rfl⟩, rfl⟩
  | startLine => exact ⟨⟨Firm.endLine [] d, h.keeps⟩, rfl⟩
  | setWidth other => cases hs

end Rigid

/-- Two results are the same error, or drafts that differ in their width alone and have no break
point. -/
inductive Alike (width : Int) (kept : Bool) :
    Except LayoutError Draft → Except LayoutError Draft → Prop
  | error (error : LayoutError) : Alike width kept (.error error) (.error error)
  | ok {d : Draft} (h : d.Rigid kept) : Alike width kept (.ok d) (.ok (d.withWidth width))

/-- What goes on alike from drafts that differ in their width alone ends alike. -/
theorem Alike.bind {width : Int} {kept after : Bool} {result other : Except LayoutError Draft}
    {next next' : Draft → Except LayoutError Draft} (h : Alike width kept result other)
    (hnext : ∀ d, d.Rigid kept → Alike width after (next d) (next' (d.withWidth width))) :
    Alike width after (result.bind next) (other.bind next') := by
  cases h with
  | error error => exact .error error
  | ok h => exact hnext _ h

/-- What does not look at the width has the same outcome. -/
theorem Alike.bind_eq {α : Type} {width : Int} {kept : Bool}
    {result other : Except LayoutError Draft}
    (h : Alike width kept result other) {next : Draft → Except LayoutError α}
    (hnext : ∀ d : Draft, next (d.withWidth width) = next d) :
    other.bind next = result.bind next := by
  cases h with
  | error error => rfl
  | ok h => exact hnext _

/-- What steps keep. -/
theorem Rigid.perform {kept after : Bool} {d : Draft} (h : d.Rigid kept) {steps : List Step}
    (hsteps : Step.Firms kept after steps) (width : Int) :
    Alike width after (d.perform steps) ((d.withWidth width).perform steps) := by
  induction steps generalizing d kept with
  | nil =>
    cases hsteps
    exact .ok h
  | cons s steps ih =>
    obtain ⟨hs, hsteps⟩ := hsteps
    have hr : (d.withWidth width).refusal s = d.refusal s := by cases s <;> rfl
    obtain ⟨hstep, heq⟩ := h.apply hs width
    rw [Draft.perform, Draft.perform, hr]
    cases d.refusal s with
    | some error => exact .error error
    | none =>
      dsimp only
      rw [heq]
      exact ih hstep hsteps

end Draft

namespace Step

/-- Steps that neither set a break point nor change whether lines are kept whole may follow one
another. -/
theorem firms_of_forall {kept : Bool} {steps : List Step}
    (h : ∀ s ∈ steps, s.isFirm kept ∧ s.keptAfter kept = kept) : Firms kept kept steps := by
  induction steps with
  | nil => rfl
  | cons s steps ih =>
    obtain ⟨⟨hs, hkept⟩, hsteps⟩ := List.forall_mem_cons.mp h
    refine ⟨hs, ?_⟩
    rw [hkept]
    exact ih hsteps

end Step

/-- The parts of a title are written without breakable blanks. -/
theorem firms_titlePartSteps (kept : Bool) (parts : List (List Char)) :
    ∀ s ∈ titlePartSteps parts, s.isFirm kept ∧ s.keptAfter kept = kept := by
  fun_induction titlePartSteps parts with
  | case1 => simp
  | case2 part => simp [Step.isFirm, Step.keptAfter, Policy.guarded]
  | case3 part rest _ ih =>
    simpa [Step.isFirm, Step.keptAfter, Policy.guarded, Policy.verbatim] using ih

/-- The blanks of destinations and titles stay blanks. -/
theorem firms_destinationSteps (kept : Bool) (url : String) (title : Option String) :
    Step.Firms kept kept (destinationSteps url title) := by
  have ht : ∀ s ∈ titleSteps title, s.isFirm kept ∧ s.keptAfter kept = kept := by
    unfold titleSteps
    split
    · simp
    · split
      · simp
      · simpa [Step.isFirm, Step.keptAfter, Policy.verbatim, or_imp, forall_and] using
          firms_titlePartSteps kept _
  refine Step.firms_of_forall ?_
  simpa [destinationSteps, Step.isFirm, Step.keptAfter, Policy.verbatim, Policy.guarded, or_imp,
    forall_and] using ht

/-- Code that does not run into its delimiter gets no blank. -/
theorem blank_notMem_paddedCode {content : String} (h : (Leaf.code content).unbreakable) :
    ' ' ∉ (paddedCode content).toList := by
  obtain ⟨⟨hblank, hfirst⟩, hlast⟩ : (' ' ∉ content.toList ∧ content.toList.head? ≠ some tick) ∧
      content.toList.getLast? ≠ some tick := by simpa [Leaf.unbreakable] using h
  have hends : ¬ (content.toList.head? = some tick ∨ content.toList.getLast? = some tick) :=
    fun he => he.elim hfirst hlast
  rw [paddedCode, if_neg hends]
  exact hblank

/-- A leaf that has no breakable blank, or stands where lines are kept whole. -/
theorem Leaf.firms_script {settings : RenderSettings} {kept : Bool} {leaf : Leaf}
    (hl : kept || leaf.unbreakable) {steps : List Step} (h : leaf.script settings = .ok steps) :
    Step.Firms kept kept steps := by
  cases leaf with
  | foreign kind => cases h
  | codeBlock content info =>
    cases h
    split <;>
      simp [Step.Firms, indentedSteps, fencedSteps, Step.isFirm, Step.keptAfter, Policy.verbatim]
  | code content =>
    cases h
    have hcontent : kept = true ∨ ' ' ∉ (paddedCode content).toList :=
      (Bool.or_eq_true_iff.mp hl).imp_right blank_notMem_paddedCode
    simpa [Step.Firms, Step.isFirm, Step.keptAfter, Policy.verbatim, Policy.flowing] using hcontent
  | text content | htmlInline content | softBreak =>
    cases h
    simpa [Step.Firms, Step.isFirm, Step.keptAfter, Policy.prose, Policy.flowing,
      Leaf.unbreakable] using hl
  | htmlBlock content | thematicBreak | lineBreak =>
    cases h
    simp [Step.Firms, Step.isFirm, Step.keptAfter, Policy.verbatim]

/-- A heading keeps lines whole, and every other container leaves it at that. -/
theorem Container.firms_enterScript {settings : RenderSettings} {slot : Slot} {kept : Bool}
    {container : Container} {steps : List Step}
    (h : container.enterScript settings slot = .ok steps) :
    Step.Firms kept (kept || container.isHeading) steps := by
  cases container with
  | foreign kind => cases h
  | listItem =>
    rw [Container.enterScript] at h
    split at h
    · cases h
    · cases h
      simp [Step.Firms, Step.isFirm, Step.keptAfter, Container.isHeading, Policy.verbatim]
  | _ =>
    cases h
    simp [Step.Firms, Step.isFirm, Step.keptAfter, Container.isHeading, Policy.verbatim]

/-- The end of a heading lets go of the lines. -/
theorem Container.firms_leaveScript {settings : RenderSettings} {unwritten : Bool} {slot : Slot}
    {kept : Bool} {container : Container} (hc : container.isHeading → kept = false)
    {steps : List Step} (h : container.leaveScript settings unwritten slot = .ok steps) :
    Step.Firms (kept || container.isHeading) kept steps := by
  cases container with
  | foreign kind => cases h
  | listItem =>
    rw [Container.leaveScript] at h
    split at h
    · cases h
    · cases h
      simp [Step.Firms, Step.isFirm, Step.keptAfter, Container.isHeading]
  | heading level =>
    cases h
    rw [hc rfl]
    simp [Step.Firms, Step.isFirm, Step.keptAfter]
  | link url title | image url title =>
    cases h
    simpa [Container.isHeading] using firms_destinationSteps kept url title
  | document =>
    cases h
    cases unwritten <;>
      simp [Step.Firms, Step.isFirm, Step.keptAfter, Container.isHeading, Policy.verbatim]
  | _ =>
    cases h
    simp [Step.Firms, Step.isFirm, Step.keptAfter, Container.isHeading, Policy.verbatim]

/-- A visit of two drafts that differ in their width alone, each under the settings of its own
width. -/
theorem Draft.Rigid.visit {settings : RenderSettings} {kept after : Bool} {d : Draft}
    (h : d.Rigid kept) {v : Visit}
    (hv : ∀ unwritten steps, v.script settings unwritten = .ok steps → Step.Firms kept after steps)
    (width : Nat) :
    Draft.Alike width after (d.visit settings v)
      ((d.withWidth width).visit { settings with width } v) := by
  have hscript : v.script { settings with width } (d.withWidth width).text.isEmpty =
      v.script settings d.text.isEmpty := rfl
  rw [Draft.visit, Draft.visit, hscript]
  cases hs : v.script settings d.text.isEmpty with
  | error error => exact .error error
  | ok steps => exact h.perform (hv _ _ hs) width

mutual

/-- Visits of a tree without breakable blanks. -/
theorem Node.alike_visitsIn (settings : RenderSettings) (width : Nat) {kept : Bool} (node : Node)
    (hn : node.unbreakable kept) (slot : Slot) {d : Draft} (h : d.Rigid kept) :
    Draft.Alike width kept (draftOfVisits settings (node.visitsIn slot) d)
      (draftOfVisits { settings with width } (node.visitsIn slot) (d.withWidth width)) := by
  match node with
  | .leaf l =>
    rw [Node.visitsIn, draftOfVisits_singleton, draftOfVisits_singleton]
    rw [Node.unbreakable] at hn
    have hleaf : ∀ unwritten steps, Visit.script settings unwritten ⟨.enter, .leaf l, slot⟩ =
        .ok steps →
        Step.Firms kept kept steps := fun _ _ hs => Leaf.firms_script hn hs
    exact h.visit hleaf width
  | .branch container children =>
    obtain ⟨hheading, hchildren⟩ : (container.isHeading → kept = false) ∧
        Node.allUnbreakable (kept || container.isHeading) children := by
      rw [Node.unbreakable, Bool.and_eq_true] at hn
      exact ⟨fun hc => by simpa [hc] using hn.1, hn.2⟩
    have henter : ∀ unwritten steps,
        Visit.script settings unwritten ⟨.enter, .container container, slot⟩ = .ok steps →
          Step.Firms kept (kept || container.isHeading) steps :=
      fun _ _ hs => Container.firms_enterScript hs
    have hleave : ∀ unwritten steps,
        Visit.script settings unwritten ⟨.exit, .container container, slot⟩ = .ok steps →
          Step.Firms (kept || container.isHeading) kept steps :=
      fun _ _ hs => Container.firms_leaveScript hheading hs
    rw [Node.visitsIn, draftOfVisits_cons, draftOfVisits_cons]
    refine (h.visit henter width).bind fun mid hmid => ?_
    rw [draftOfVisits_append, draftOfVisits_append]
    refine (Node.alike_visitsUnder settings width children hchildren container 0 hmid).bind
      fun last hlast => ?_
    rw [draftOfVisits_singleton, draftOfVisits_singleton]
    exact hlast.visit hleave width

/-- Visits of trees without breakable blanks in a container. -/
theorem Node.alike_visitsUnder (settings : RenderSettings) (width : Nat) {kept : Bool}
    (nodes : List Node) (hn : Node.allUnbreakable kept nodes) (container : Container)
    (position : Nat) {d : Draft} (h : d.Rigid kept) :
    Draft.Alike width kept (draftOfVisits settings (Node.visitsUnder container position nodes) d)
      (draftOfVisits { settings with width } (Node.visitsUnder container position nodes)
        (d.withWidth width)) := by
  match nodes with
  | [] => exact .ok h
  | child :: rest =>
    have hboth : child.unbreakable kept ∧ Node.allUnbreakable kept rest := by
      simpa [Node.allUnbreakable] using hn
    rw [Node.visitsUnder, draftOfVisits_append, draftOfVisits_append]
    refine (Node.alike_visitsIn settings width child hboth.1 _ h).bind fun mid hmid => ?_
    exact Node.alike_visitsUnder settings width rest hboth.2 container (position + 1) hmid

end

/-- A tree without breakable blanks outside its headings, and without a heading in another, gives
the same octets and the same text at every width, or the same error. -/
theorem renderOctets_eq_of_unbreakable {root : Node} (h : root.unbreakable false)
    (settings : RenderSettings) (width width' : Nat) :
    root.renderOctets { settings with width } =
        root.renderOctets { settings with width := width' } ∧
      root.render { settings with width } = root.render { settings with width := width' } := by
  have hstart : ({ width } : Draft).Rigid false := {
    firm := fun _ _ hl => by cases hl
    keeps := rfl }
  have halike := Node.alike_visitsIn { settings with width } width' root h .stray hstart
  have hoctets : root.renderOctets { settings with width } =
      root.renderOctets { settings with width := width' } := by
    rw [Node.renderOctets_eq, Node.renderOctets_eq]
    exact (halike.bind_eq fun _ => rfl).symm
  exact ⟨hoctets, congrArg (Except.bind · textOfOctets) hoctets⟩

/-- A heading with blanks and a soft break, code and markup with blanks, a link whose destination
and title have blanks, and texts without any, at five columns and without a limit. -/
theorem renderOctets_eq_of_unbreakable_five :
    ∃ root : Node,
      root = .branch .document [
        .branch (.heading 2) [.leaf (.text "a b  c"), .leaf .softBreak, .leaf (.code " d")],
        .leaf (.codeBlock "e f g" none), .leaf (.htmlBlock "<h i j>"),
        .branch .blockQuote [.branch .paragraph [
          .leaf (.text "long-text"), .branch (.link "k l" (some "m n o")) [.leaf (.code "p.q")]]]] ∧
      root.unbreakable false ∧
      root.render { width := 5 } = root.render { width := 0 } ∧
      root.render { width := 5 } = .ok ("## a b  c \x60 d\x60\n\n    e f g\n\n<h i j>\n\n" ++
        "> long-text[\x60p.q\x60](k l \"m n o\")\n\n") := by
  refine ⟨_, rfl, by decide, ?_, by decide +kernel⟩
  exact (renderOctets_eq_of_unbreakable (by decide) {} 5 0).2

end MarkdownLayout
