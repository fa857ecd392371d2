import MarkdownLayout.Proofs.CodeBlocks
import MarkdownLayout.Proofs.Openings
import MarkdownLayout.Proofs.Separation

/-!
# How list items begin

What an item holds follows its mark. Most blocks write their first character right there, and so do
the spans of a paragraph, unless blanks or a line end come first: the content may then begin on the
next line, and behind a second line end there is a blank line below the mark. Code blocks, raw
markup and thematic breaks ask for a blank line before they write anything, although nothing but the
mark is in front of them, and the line below the mark stays blank. `Node.opening` says which of
these a node comes to, and `render_item_start` ties it to the text of every item of every tree.
-/

namespace MarkdownLayout

/-- What comes first in a text or in a node. -/
inductive Lead where
  /-- Nothing but blanks is written, and no break is owed. -/
  | blanks
  /-- Blanks may be written, then a character that is neither a blank nor a line end. -/
  | content
  /-- Something else comes before any content, such as a line end or a break. -/
  | other
  deriving DecidableEq, Repr

/-- What comes first where `l` is followed by `next`. -/
def Lead.andThen : Lead → Lead → Lead
  | .blanks, next => next
  | l, _ => l

/-- What comes first in a text. -/
def leadOf : List Char → Lead
  | [] => .blanks
  | c :: rest => if c = ' ' then leadOf rest else if c = '\n' then .other else .content

/-- What a leaf writes first. -/
def Leaf.lead : Leaf → Lead
  | .text content | .htmlInline content => leadOf content.toList
  | .softBreak => .blanks
  | .lineBreak | .code _ => .content
  | .codeBlock .. | .htmlBlock _ | .thematicBreak | .foreign _ => .other

/-- What the entry into a container writes first. -/
def Container.enterLead : Container → Lead
  | .document | .list .. | .paragraph => .blanks
  | .heading level => if 0 < level then .content else .other
  | .blockQuote | .listItem | .strong | .emphasis | .link .. | .image .. => .content
  | .foreign _ => .other

/-- What the exit from a container writes first. -/
def Container.leaveLead : Container → Lead
  | .list .. => .blanks
  | _ => .other

mutual

/-- What a node writes first. -/
def Node.lead : Node → Lead
  | .leaf l => l.lead
  | .branch container children =>
    container.enterLead.andThen ((Node.leadOfAll children).andThen container.leaveLead)

/-- What nodes write first. -/
def Node.leadOfAll : List Node → Lead
  | [] => .blanks
  | child :: rest => child.lead.andThen (Node.leadOfAll rest)

end

/-- How a leaf opens an item. Blocks without children owe a blank line and write something behind it
at once. -/
def Leaf.opening (leaf : Leaf) (o : Opening) : Opening :=
  match leaf with
  | .text content | .htmlInline content => o.emit content
  | .softBreak => o.emit " "
  | .lineBreak | .code _ => o.mark
  | .codeBlock .. | .htmlBlock _ | .thematicBreak => (o.owe .blankLine).flush
  | .foreign _ => o

/-- How the entry into a container opens an item. -/
def Container.enterOpening (container : Container) (o : Opening) : Opening :=
  match container with
  | .document | .list .. | .paragraph | .foreign _ => o
  | .heading level => if 0 < level then o.mark else o.unmake
  | .blockQuote | .listItem | .strong | .emphasis | .link .. | .image .. => o.mark

/-- How the exit from a container opens an item. All that do more than this have written markup on
their entry. -/
def Container.leaveOpening (container : Container) (o : Opening) : Opening :=
  match container with
  | .document => (o.owe .lineEnd).flush
  | .paragraph => o.owe .blankLine
  | _ => o

mutual

/-- How a node opens an item: its entry, its children and its exit one after the other. -/
def Node.opening : Node → Opening → Opening
  | .leaf l, o => l.opening o
  | .branch container children, o =>
    container.leaveOpening (Node.openingOf children (container.enterOpening o))

/-- How nodes open an item. -/
def Node.openingOf : List Node → Opening → Opening
  | [], o => o
  | child :: rest, o => Node.openingOf rest (child.opening o)

end

namespace Opening.IsDone

variable {o : Opening}

/-- Where nothing is waited for, no leaf changes that. -/
theorem leaf (h : o.IsDone) (l : Leaf) : l.opening o = o := by
  cases l with
  | text | htmlInline | softBreak => exact h.emit _
  | lineBreak | code => exact h.mark
  | codeBlock | htmlBlock | thematicBreak => rw [Leaf.opening, h.owe, h.flush]
  | foreign => rfl

/-- Nor does the entry into a container. -/
theorem enter (h : o.IsDone) (container : Container) : container.enterOpening o = o := by
  cases container with
  | heading level =>
    rw [Container.enterOpening]
    split
    · exact h.mark
    · exact h.unmake
  | document | list | paragraph | foreign => rfl
  | blockQuote | listItem | strong | emphasis | link | image => exact h.mark

/-- Nor does the exit from one. -/
theorem leave (h : o.IsDone) (container : Container) : container.leaveOpening o = o := by
  cases container with
  | document => rw [Container.leaveOpening, h.owe, h.flush]
  | paragraph => exact h.owe .blankLine
  | _ => rfl

end Opening.IsDone

mutual

/-- Where nothing is waited for, no node changes that. The recursion is that of `Node.opening`. -/
theorem Node.opening_of_isDone {o : Opening} (h : o.IsDone) (node : Node) : node.opening o = o := by
  match node with
  | .leaf l => exact h.leaf l
  | .branch container children =>
    rw [Node.opening, h.enter, Node.openingOf_of_isDone h children, h.leave]

/-- Nor do several. -/
theorem Node.openingOf_of_isDone {o : Opening} (h : o.IsDone) (nodes : List Node) :
    Node.openingOf nodes o = o := by
  match nodes with
  | [] => rfl
  | child :: rest =>
    rw [Node.openingOf, Node.opening_of_isDone h child, Node.openingOf_of_isDone h rest]

end

/-- A run of blanks counts as one, and a text leads with the same in both spellings. -/
theorem leadOf_squeezeAfter (after : Bool) (cs : List Char) :
    leadOf (Writer.squeezeAfter after cs) = leadOf cs := by
  induction cs generalizing after with
  | nil => rfl
  | cons c rest ih =>
    by_cases hc : c = ' '
    · cases after <;> simp [Writer.squeezeAfter, leadOf, hc, ih]
    · simp [Writer.squeezeAfter, leadOf, hc]

/-- What comes first, as far as it settles how an item is opened. -/
def Lead.Settles : Lead → Opening → Prop
  | .blanks, o => ∃ place, o = .waiting place .nothing
  | .content, o => o = .met
  | .other, _ => True

/-- What comes first in two parts settles how they open an item, if each part does. Behind content
the second part must not matter. -/
theorem Lead.Settles.andThen {l next : Lead} {o : Opening} (f : Opening → Opening)
    (h : l.Settles o) (hnext : ∀ place, next.Settles (f (.waiting place .nothing)))
    (hmet : f .met = .met) : (l.andThen next).Settles (f o) := by
  cases l with
  | blanks =>
    obtain ⟨place, rfl⟩ := h
    exact hnext place
  | content =>
    cases h
    exact hmet
  | other => trivial

/-- Markup is content where nothing but blanks has come. -/
theorem Opening.mark_waiting (place : Stand) :
    (Opening.waiting place .nothing).mark = .met := by
  cases place <;> rfl

/-- A text that begins with content, behind blanks at most, is met. The room plays no part: a blank
that becomes a line end puts the content on the next line. -/
theorem leadOf_settles (place : Stand) (cs : List Char) :
    (leadOf cs).Settles (cs.foldl Opening.put (.waiting place .nothing)) := by
  induction cs generalizing place with
  | nil => exact ⟨place, rfl⟩
  | cons c rest ih =>
    rw [leadOf, List.foldl_cons]
    split
    · rename_i hc
      subst hc
      exact ih place.blank
    split
    · trivial
    · rename_i hblank hnewline
      have hmet : Opening.put (.waiting place .nothing) c = .met := by
        simp [Opening.put, hblank, hnewline]
      rw [hmet]
      exact Opening.isDone_met.foldl_put rest

/-- The same for running text, in which runs of blanks are written as one. -/
theorem Opening.emit_settles (place : Stand) (span : String) :
    (leadOf span.toList).Settles (Opening.emit span (.waiting place .nothing)) := by
  have hlead := leadOf_settles place (Writer.squeeze span.toList)
  rw [Writer.squeeze, leadOf_squeezeAfter] at hlead
  cases place <;> exact hlead

/-- A leaf that writes content first is met, and one that writes blanks leaves the layout
waiting. -/
theorem Leaf.lead_settles (leaf : Leaf) (place : Stand) :
    leaf.lead.Settles (leaf.opening (.waiting place .nothing)) := by
  cases leaf with
  | text content | htmlInline content => exact Opening.emit_settles place content
  | softBreak => exact Opening.emit_settles place " "
  | lineBreak | code => exact Opening.mark_waiting place
  | codeBlock | htmlBlock | thematicBreak | foreign => trivial

/-- So does the entry into a container. -/
theorem Container.enterLead_settles (container : Container) (place : Stand) :
    container.enterLead.Settles (container.enterOpening (.waiting place .nothing)) := by
  cases container with
  | document | list | paragraph => exact ⟨place, rfl⟩
  | heading level =>
    rw [Container.enterLead, Container.enterOpening]
    split
    · exact Opening.mark_waiting place
    · trivial
  | blockQuote | listItem | strong | emphasis | link | image => exact Opening.mark_waiting place
  | foreign => trivial

mutual

/-- A node that writes content first opens an item with it, whatever room the line has. -/
theorem Node.lead_settles (node : Node) (place : Stand) :
    node.lead.Settles (node.opening (.waiting place .nothing)) := by
  match node with
  | .leaf l => exact l.lead_settles place
  | .branch container children =>
    rw [Node.lead, Node.opening]
    refine (container.enterLead_settles place).andThen
      (fun o => container.leaveOpening (Node.openingOf children o)) (fun entered => ?_) ?_
    · refine (Node.leadOfAll_settles children entered).andThen container.leaveOpening
        (fun filled => ?_) (Opening.isDone_met.leave container)
      cases container with
      | list => exact ⟨filled, rfl⟩
      | _ => trivial
    · rw [Node.openingOf_of_isDone Opening.isDone_met, Opening.isDone_met.leave]

/-- So do nodes. -/
theorem Node.leadOfAll_settles (nodes : List Node) (place : Stand) :
    (Node.leadOfAll nodes).Settles (Node.openingOf nodes (.waiting place .nothing)) := by
  match nodes with
  | [] => exact ⟨place, rfl⟩
  | child :: rest =>
    exact (Node.lead_settles child place).andThen (Node.openingOf rest)
      (fun next => Node.leadOfAll_settles rest next)
      (Node.openingOf_of_isDone Opening.isDone_met rest)

end

/-- An item is entered by its mark and its margin. -/
theorem Visit.script_enter_item {settings : RenderSettings} {unwritten : Bool} {slot : Slot}
    {steps : List Step}
    (h : Visit.script settings unwritten ⟨.enter, .container .listItem, slot⟩ = .ok steps) :
    ∃ item, slot.layout settings.markers = .ok item ∧
      steps = [.emit .verbatim item.marker, .push item.margin] := by
  cases hi : slot.layout settings.markers with
  | error error =>
    rw [Visit.script_listItem_error hi] at h
    cases h
  | ok item =>
    rw [Visit.script_enter_listItem hi] at h
    cases h
    exact ⟨item, rfl, rfl⟩

/-- A block without children asks for a blank line first. -/
theorem Leaf.exists_script_of_isBlock {leaf : Leaf} (h : (Element.leaf leaf).isBlock)
    (settings : RenderSettings) :
    ∃ policy span rest, leaf.script settings =
      .ok (.owe .blankLine :: .emit policy span :: rest) := by
  cases leaf with
  | codeBlock content info =>
    rw [Leaf.script]
    split
    · exact ⟨_, _, _, rfl⟩
    · exact ⟨_, _, _, rfl⟩
  | htmlBlock | thematicBreak => exact ⟨_, _, _, rfl⟩
  | _ => cases h

/-- Whether the entry into a container writes markup. -/
def Container.isMarked : Container → Bool
  | .document | .list .. | .paragraph | .foreign _ => false
  | _ => true

/-- Behind the markup of a container nothing is waited for. -/
theorem Container.isDone_enterOpening {container : Container} (h : container.isMarked)
    (o : Opening) : (container.enterOpening o).IsDone := by
  cases container with
  | document | list | paragraph | foreign => cases h
  | heading level =>
    rw [Container.enterOpening]
    split
    · exact o.isDone_mark
    · exact o.isDone_unmake
  | blockQuote | listItem | strong | emphasis | link | image => exact o.isDone_mark

namespace Mark.Opens

variable {m : Mark} {o : Opening} {d d' : Draft} {settings : RenderSettings}

/-- A block without children leaves the line below the mark blank. -/
theorem visit_block (h : m.Opens o d) {leaf : Leaf} (hleaf : (Element.leaf leaf).isBlock)
    {slot : Slot} (hd : d.visit settings ⟨.enter, .leaf leaf, slot⟩ = .ok d') :
    m.Opens (o.owe .blankLine).flush d' := by
  rcases o.isDone_or_waiting with hdone | ⟨place, owed, rfl⟩
  · rw [hdone.owe, hdone.flush]
    exact h.visit_of_isDone hdone hd
  obtain ⟨policy, span, rest, hscript⟩ := leaf.exists_script_of_isBlock hleaf settings
  obtain ⟨steps, hsteps, hperform⟩ := exists_of_bind_eq_ok hd
  cases hscript.symm.trans hsteps
  have hflush := (h.owe .blankLine).flush
  rw [Opening.flush_owe_blankLine] at hflush ⊢
  have hparted : m.Parted (Glyph.chars (d.apply (.owe .blankLine)).flush.head) := hflush
  rw [← Draft.run_of_perform hperform]
  refine hparted.mono (List.IsPrefix.map Glyph.char ?_)
  exact (Draft.head_prefix_putAll _ _ _).trans (Draft.head_prefix_run rest _)

/-- The visit to a leaf does to an opening what the leaf says. Each kind of leaf is one of the cases
running text, markup and block. -/
theorem visit_leaf (h : m.Opens o d) {leaf : Leaf} {slot : Slot}
    (hd : d.visit settings ⟨.enter, .leaf leaf, slot⟩ = .ok d') : m.Opens (leaf.opening o) d' := by
  cases leaf with
  | text content | htmlInline content =>
    cases hd
    exact h.emit rfl content
  | softBreak =>
    cases hd
    exact h.emit rfl " "
  | lineBreak => exact h.visit_of_mark rfl ⟨'\\', [], rfl, by decide, by decide⟩ hd
  | code content =>
    have hticks : (codeDelimiter content).toList =
        tick :: List.replicate (longestRun tick content.toList) tick := by
      simp [codeDelimiter, ticks, List.replicate_succ]
    exact h.visit_of_mark rfl ⟨_, _, hticks, by decide, by decide⟩ hd
  | codeBlock | htmlBlock | thematicBreak => exact h.visit_block rfl hd
  | foreign => cases hd

/-- So does the entry into a container, which writes markup or nothing. -/
theorem visit_enter (h : m.Opens o d) {container : Container} {slot : Slot}
    (hd : d.visit settings ⟨.enter, .container container, slot⟩ = .ok d') :
    m.Opens (container.enterOpening o) d' := by
  cases container with
  | document | list | paragraph =>
    cases hd
    exact h
  | blockQuote => exact h.visit_of_mark rfl ⟨'>', [' '], rfl, by decide, by decide⟩ hd
  | listItem =>
    obtain ⟨steps, hscript, _⟩ := exists_of_bind_eq_ok hd
    obtain ⟨item, hlayout, rfl⟩ := Visit.script_enter_item hscript
    exact h.visit_of_mark hscript (Slot.proper_layout hlayout).marked hd
  | heading level =>
    rw [Container.enterOpening]
    split
    · rename_i hlevel
      obtain ⟨k, rfl⟩ : ∃ k : Nat, level = k + 1 := ⟨(level - 1).toNat, by omega⟩
      have hmark : (headingMark (k + 1)).toList = '#' :: (List.replicate k '#' ++ [' ']) := by
        have hk : ((k : Int) + 1).toNat = k + 1 := by omega
        simp [headingMark, hk, List.replicate_succ]
      exact h.visit_of_mark rfl ⟨_, _, hmark, by decide, by decide⟩ hd
    · rcases o.isDone_or_waiting with hdone | ⟨place, owed, rfl⟩
      · rw [hdone.unmake]
        exact h.visit_of_isDone hdone hd
      · trivial
  | strong => exact h.visit_of_mark rfl ⟨'*', ['*'], rfl, by decide, by decide⟩ hd
  | emphasis => exact h.visit_of_mark rfl ⟨'*', [], rfl, by decide, by decide⟩ hd
  | link url title => exact h.visit_of_mark rfl ⟨'[', [], rfl, by decide, by decide⟩ hd
  | image url title => exact h.visit_of_mark rfl ⟨'!', ['['], rfl, by decide, by decide⟩ hd
  | foreign kind => cases hd

/-- So does the exit from one. A container that has written markup is left when nothing is waited
for any more. -/
theorem visit_leave (h : m.Opens o d) {container : Container}
    (hmarked : container.isMarked → o.IsDone)
    {slot : Slot} (hd : d.visit settings ⟨.exit, .container container, slot⟩ = .ok d') :
    m.Opens (container.leaveOpening o) d' := by
  rcases o.isDone_or_waiting with hdone | ⟨place, owed, rfl⟩
  · rw [hdone.leave]
    exact h.visit_of_isDone hdone hd
  cases container with
  | document =>
    have hwritten : d.text.isEmpty = false := by
      rw [List.isEmpty_eq_false_iff]
      exact Waits.text_ne_nil h
    rw [Draft.visit, hwritten] at hd
    cases hd
    exact (h.owe .lineEnd).flush
  | paragraph =>
    cases hd
    exact h.owe .blankLine
  | list =>
    cases hd
    exact h
  | foreign => cases hd
  | _ => exact absurd rfl (hmarked rfl place owed)

end Mark.Opens

mutual

/-- A node opens an item as its opening says, where a layout waits for the first content. The
induction follows the visits: entry, children and exit. -/
theorem Mark.Opens.visitsIn {m : Mark} {settings : RenderSettings} {o : Opening} {d d' : Draft}
    (h : m.Opens o d) (node : Node) {slot : Slot}
    (hd : draftOfVisits settings (node.visitsIn slot) d = .ok d') :
    m.Opens (node.opening o) d' := by
  match node with
  | .leaf l =>
    rw [Node.visitsIn, draftOfVisits_singleton] at hd
    exact h.visit_leaf hd
  | .branch container children =>
    rw [Node.visitsIn, draftOfVisits_cons] at hd
    obtain ⟨entered, henter, hrest⟩ := exists_of_bind_eq_ok hd
    rw [draftOfVisits_append] at hrest
    obtain ⟨filled, hchildren, hleave⟩ := exists_of_bind_eq_ok hrest
    rw [draftOfVisits_singleton] at hleave
    have hfilled := Mark.Opens.visitsUnder (h.visit_enter henter) container 0 children hchildren
    refine hfilled.visit_leave (fun hmarked => ?_) hleave
    -- What was met by the mark of the container is not lost in its children.
    have hdone := Container.isDone_enterOpening hmarked o
    rwa [Node.openingOf_of_isDone hdone]

/-- So do nodes. -/
theorem Mark.Opens.visitsUnder {m : Mark} {settings : RenderSettings} {o : Opening} {d d' : Draft}
    (h : m.Opens o d) (container : Container) (position : Nat) (nodes : List Node)
    (hd : draftOfVisits settings (Node.visitsUnder container position nodes) d = .ok d') :
    m.Opens (Node.openingOf nodes o) d' := by
  match nodes with
  | [] =>
    cases hd
    exact h
  | child :: rest =>
    rw [Node.visitsUnder, draftOfVisits_append] at hd
    obtain ⟨mid, hchild, hrest⟩ := exists_of_bind_eq_ok hd
    exact Mark.Opens.visitsUnder (Mark.Opens.visitsIn h child hchild) container (position + 1) rest
      hrest

end

namespace Draft

/-- Markup behind a break point is moved together with what stands there already, or not at all. -/
theorem putAll_verbatim_of_loose {d : Draft} {tail : List Char} {first : Bool}
    (hl : d.line = .loose tail first) {cs : List Char} (hcs : cs ≠ []) (hn : '\n' ∉ cs) :
    ((d.putAll .verbatim cs).line = .solid ∧ ∃ guard, '\n' ∉ guard ∧
        Glyph.chars (d.putAll .verbatim cs).head =
          Glyph.chars d.head ++ '\n' :: (d.margin ++ guard ++ tail ++ cs)) ∨
      ((d.putAll .verbatim cs).head = d.head ∧
        ∃ first', (d.putAll .verbatim cs).line = .loose (tail ++ cs) first') := by
  induction cs generalizing d tail first with
  | nil => exact absurd rfl hcs
  | cons c rest ih =>
    obtain ⟨hc, hrest⟩ : '\n' ≠ c ∧ '\n' ∉ rest := by simpa using hn
    have hput : d.put .verbatim c rest.head? = (d.append false [c]).settle := by
      rw [put, openLine_of_ne_fresh (by simp [hl])]
      unfold place
      rw [if_neg (by simp [Policy.verbatim]), if_neg hc.symm]
      rfl
    have hloose := line_append_of_loose hl false [c]
    have hhead := head_append_of_loose hl false [c]
    rw [putAll, hput]
    have hmargin := margin_of_frame (frame_append false [c] d)
    rcases settle_cases_of_loose hloose (by simp) with ⟨hsolid, guard, hguard, hs⟩ | hs
    · rw [hhead, hmargin] at hs
      refine .inl ?_
      cases rest with
      | nil => exact ⟨hsolid, guard, hguard, by simpa [putAll] using hs⟩
      | cons e rest =>
        rw [putAll_verbatim (by simp [hsolid]) (by simp [hsolid]) (List.cons_ne_nil e rest) hrest]
        refine ⟨line_append_of_not_loose (by simp [hsolid]) _ _, guard, hguard, ?_⟩
        rw [head_append_of_not_loose (by simp [hsolid]), Glyph.chars_append, hs]
        simp
    · rw [hs]
      cases rest with
      | nil => exact .inr ⟨hhead, _, hloose⟩
      | cons e rest =>
        have hmore := ih hloose (List.cons_ne_nil e rest) hrest
        rw [hhead, hmargin] at hmore
        simpa using hmore

end Draft

/-- The mark of an item that is about to be written. -/
def ItemLayout.mark (item : ItemLayout) (d : Draft) : Mark where
  front := d.flush.openLine.text
  outer := d.margin
  marker := item.marker.toList
  indent := item.margin.toList

/-- The draft once an item has been entered. -/
def ItemLayout.enter (item : ItemLayout) (d : Draft) : Draft :=
  (d.emit .verbatim item.marker).pushMargin item.margin

namespace ItemLayout.Proper

variable {item : ItemLayout}

/-- The mark of a layout ends with a blank, and so does its margin. -/
theorem mark (h : item.Proper) (d : Draft) : (item.mark d).Proper :=
  ⟨h.last_marker, h.last_margin, h.newline_notMem_margin⟩

/-- Behind a mark that has just been written a layout waits for the first content of its item. The
line in front of the mark may have been broken for it. -/
theorem waits_enter (h : item.Proper) (d : Draft) :
    (item.mark d).Waits (.behind (item.enter d).room) .nothing (item.enter d) ∧
      ∃ front, Recast d.margin (item.mark d).front front ∧
      (item.enter d).text = front ++ item.marker.toList := by
  have hemit : d.emit .verbatim item.marker =
      d.flush.openLine.putAll .verbatim item.marker.toList := by
    rw [Draft.putAll_openLine h.marker_ne_nil]
    rfl
  have hframe : (d.emit .verbatim item.marker).frame = d.flush.frame := by
    rw [hemit, Draft.frame_putAll, Draft.frame_openLine]
  have howed : (item.enter d).owed = .nothing := (Draft.owed_of_frame hframe).trans d.owed_flush
  have hmargin : (item.enter d).margin = (item.mark d).margin := by
    simp [ItemLayout.enter, ItemLayout.mark, Mark.margin, Draft.pushMargin, Draft.margin]
  have hfresh := d.flush.openLine_line_ne_fresh
  cases hline : d.flush.openLine.line with
  | fresh => exact absurd hline hfresh
  | opened | solid =>
    have hnot : ∀ tail first, d.flush.openLine.line ≠ .loose tail first := by simp [hline]
    rw [Draft.putAll_verbatim hfresh hnot h.marker_ne_nil h.unbroken] at hemit
    have hsolid : (item.enter d).line = .solid := by
      show (d.emit .verbatim item.marker).line = .solid
      rw [hemit]
      exact Draft.line_append_of_not_loose hnot _ _
    have htext : (item.enter d).text = (item.mark d).front ++ item.marker.toList := by
      show (d.emit .verbatim item.marker).text = _
      rw [hemit, Draft.text_append]
      rfl
    refine ⟨⟨h.mark d, howed, hmargin, rfl, .solid .same (List.forall_mem_nil _) ?_ hsolid⟩,
      _, .same, htext⟩
    simpa [Draft.text, Draft.glyphs, hsolid, ItemLayout.mark] using htext
  | loose tail first =>
    have hfront : (item.mark d).front = Glyph.chars d.flush.openLine.head ++ ' ' :: tail :=
      Draft.text_of_loose hline
    -- The mark itself may make the line in front of it too long.
    have hwritten := Draft.putAll_verbatim_of_loose hline h.marker_ne_nil h.unbroken
    rw [← hemit] at hwritten
    have htext : (item.enter d).text = (d.emit .verbatim item.marker).text := rfl
    rw [htext]
    rcases hwritten with ⟨hsolid, guard, hguard, hhead⟩ | ⟨hhead, first', hl⟩
    · have houter : d.flush.openLine.margin = d.margin := by
        rw [Draft.margin_of_frame d.flush.frame_openLine, Draft.margin_flush]
      rw [houter] at hhead
      refine ⟨⟨h.mark d, howed, hmargin, rfl,
        .solid (.broken hfront hguard) (List.forall_mem_nil _) ?_ hsolid⟩,
        _, .broken hfront hguard, ?_⟩
      · simpa [ItemLayout.enter, Draft.pushMargin, ItemLayout.mark] using hhead
      · simp [Draft.text, Draft.glyphs, hsolid, hhead]
    · have hloose : (item.enter d).line = .loose (tail ++ (item.mark d).marker ++ []) first' := by
        simpa [ItemLayout.enter, Draft.pushMargin, ItemLayout.mark] using hl
      rw [← hhead] at hfront
      refine ⟨⟨h.mark d, howed, hmargin, rfl,
        .movable hfront (List.forall_mem_nil _) hloose⟩, _, .same, ?_⟩
      rw [Draft.text_of_loose hl, hfront]
      simp

/-- A block without children gets a blank line although it is the first one in its item, and no
blank comes between the mark and the line end. -/
theorem detached_of_isBlock (h : item.Proper) {settings : RenderSettings} {d d' : Draft}
    {leaf : Leaf} (hleaf : (Element.leaf leaf).isBlock) {slot : Slot}
    (hd : (item.enter d).visit settings ⟨.enter, .leaf leaf, slot⟩ = .ok d') :
    (item.mark d).Detached (Glyph.chars d'.head) := by
  obtain ⟨hwaits, front, hfront, htext⟩ := h.waits_enter d
  obtain ⟨policy, span, rest, hscript⟩ := leaf.exists_script_of_isBlock hleaf settings
  obtain ⟨steps, hsteps, hperform⟩ := exists_of_bind_eq_ok hd
  cases hscript.symm.trans hsteps
  rw [← Draft.run_of_perform hperform, Draft.run_cons, Draft.run_cons, Draft.apply, Draft.apply,
    Draft.owe_blankLine]
  have hlast : (item.enter d).text.getLast? = some ' ' := by
    rw [htext, List.getLast?_append, h.last_marker, Option.some_or]
  have hflush :=
    Draft.flush_of_last (d := { item.enter d with owed := .blankLine }) rfl hlast (by decide)
  have hdetached : (item.mark d).Detached
      (Glyph.chars ({ item.enter d with owed := .blankLine } : Draft).flush.head) := by
    refine ⟨front, [], hfront, ?_⟩
    rw [hflush]
    show Glyph.chars ((item.enter d).glyphs ++
      Glyph.plain ('\n' :: ((item.enter d).margin ++ ['\n']))) = _
    rw [Glyph.chars_append, Glyph.chars_plain, hwaits.margin]
    exact congrArg (· ++ _) htext
  refine hdetached.mono (List.IsPrefix.map Glyph.char ?_)
  exact (Draft.head_prefix_putAll _ _ _).trans (Draft.head_prefix_run rest _)

end ItemLayout.Proper

/-- The visits before the node at a path. -/
def Node.visitsTo (slot : Slot) : Node → List Nat → List Visit
  | .branch container children, position :: path =>
    ⟨.enter, .container container, slot⟩ ::
      (Node.visitsUnder container 0 (children.take position) ++
        match children[position]? with
        | some child => child.visitsTo (container.slot position) path
        | none => [])
  | _, _ => []

/-- Children are visited one after the other, and each knows its position. -/
theorem Node.visitsUnder_append (container : Container) (position : Nat) (nodes more : List Node) :
    Node.visitsUnder container position (nodes ++ more) =
      Node.visitsUnder container position nodes ++
        Node.visitsUnder container (position + nodes.length) more := by
  induction nodes generalizing position with
  | nil => rfl
  | cons child rest ih =>
    rw [List.cons_append, Node.visitsUnder, Node.visitsUnder, ih, List.append_assoc,
      List.length_cons, Nat.add_right_comm, Nat.add_assoc]

/-- A node is visited after the visits that lead to it. The induction is on the path, and splits the
children of each container at the position taken. -/
theorem Node.exists_visits_of_locate {root node : Node} {path : List Nat} {slot slot' : Slot}
    (h : root.locate slot path = some (node, slot')) :
    ∃ after, root.visitsIn slot = root.visitsTo slot path ++ (node.visitsIn slot' ++ after) := by
  induction path generalizing root slot with
  | nil =>
    rw [Node.locate] at h
    cases h
    exact ⟨[], by simp [Node.visitsTo]⟩
  | cons position path ih =>
    cases root with
    | leaf l => cases h
    | branch container children =>
      rw [Node.locate] at h
      cases hc : children[position]? with
      | none => simp [hc] at h
      | some child =>
        rw [hc] at h
        obtain ⟨after, hafter⟩ := ih h
        obtain ⟨hlt, hchild⟩ := List.getElem?_eq_some_iff.mp hc
        have hsplit :
            children = children.take position ++ child :: children.drop (position + 1) := by
          rw [← hchild, ← List.drop_eq_getElem_cons hlt, List.take_append_drop]
        have hlength : (children.take position).length = position :=
          List.length_take_of_le (Nat.le_of_lt hlt)
        have hunder : Node.visitsUnder container 0 children =
            Node.visitsUnder container 0 (children.take position) ++
              (child.visitsIn (container.slot position) ++
                Node.visitsUnder container (position + 1) (children.drop (position + 1))) := by
          conv_lhs => rw [hsplit]
          rw [Node.visitsUnder_append, hlength, Nat.zero_add, Node.visitsUnder]
        refine ⟨after ++
          (Node.visitsUnder container (position + 1) (children.drop (position + 1)) ++
            [⟨.exit, .container container, slot⟩]), ?_⟩
        rw [Node.visitsIn, Node.visitsTo, hunder, hc, hafter]
        simp only [List.cons_append, List.append_assoc]

/-- An item and all that is visited after it. What the first child makes of the opening lasts to the
end of the text. -/
theorem exists_mark_of_visitsIn {settings : RenderSettings} {before d : Draft} {slot : Slot}
    {child : Node} {rest : List Node} {after : List Visit}
    (h : draftOfVisits settings
      ((Node.branch .listItem (child :: rest)).visitsIn slot ++ after) before = .ok d) :
    ∃ item, slot.layout settings.markers = .ok item ∧
      before.visit settings ⟨.enter, .container .listItem, slot⟩ = .ok (item.enter before) ∧
      (child.opening (.start (item.enter before).room) = .met →
        (item.mark before).Followed d.text) ∧
      (child.opening (.start (item.enter before).room) = .parted →
        (item.mark before).Parted d.text) ∧
      (∀ leaf, child = .leaf leaf → child.element.isBlock →
        (item.mark before).Detached d.text) := by
  rw [Node.visitsIn, List.cons_append, draftOfVisits_cons] at h
  obtain ⟨entered, henter, hunder⟩ := exists_of_bind_eq_ok h
  obtain ⟨steps, hscript, hsteps⟩ := exists_of_bind_eq_ok henter
  obtain ⟨item, hlayout, rfl⟩ := Visit.script_enter_item hscript
  obtain rfl : item.enter before = entered := Except.ok.inj hsteps
  rw [Node.visitsUnder, List.append_assoc, List.append_assoc, draftOfVisits_append] at hunder
  obtain ⟨filled, hfilled, hrest⟩ := exists_of_bind_eq_ok hunder
  have hproper := Slot.proper_layout hlayout
  have hstart : (item.mark before).Opens (.start (item.enter before).room) (item.enter before) :=
    (hproper.waits_enter before).1
  have hopens := hstart.visitsIn child hfilled
  refine ⟨item, hlayout, henter, fun hmet => ?_, fun hparted => ?_, ?_⟩
  · rw [hmet] at hopens
    exact (Mark.Reached.draftOfVisits hopens hrest).text
  · rw [hparted] at hopens
    have hhead : (item.mark before).Parted (Glyph.chars d.head) :=
      hopens.draftOfVisits_of_isDone Opening.isDone_parted hrest
    exact hhead.mono (d.head_prefix_glyphs.map Glyph.char)
  · rintro leaf rfl hblock
    rw [Node.visitsIn, draftOfVisits_singleton] at hfilled
    have hdetached := hproper.detached_of_isBlock hblock hfilled
    obtain ⟨steps, rfl, _⟩ := exists_run_of_draftOfVisits hrest
    refine hdetached.mono (List.IsPrefix.map Glyph.char ?_)
    exact (filled.head_prefix_run steps).trans (Draft.head_prefix_glyphs _)

/-- **List items and their first blocks.** Take any item of any tree, in any containers and with
either kind of mark, and the layout that has entered it. How its first child opens it depends on
that child and on the room behind the mark alone. If content is met, then in the finished text it is
on the line of the mark or on the next one; if the two are parted, then the line below the mark
holds nothing but its margin and blanks. It is one of these as soon as the child writes content,
headings without a level apart. A child that writes content before anything else than
blanks, as quotations, headings, lists of items and paragraphs of one line do, is always met. A code
block, raw markup or a thematic break is always parted from the mark: the line of the mark ends
behind it, and the next line holds nothing but its margin. -/
theorem render_item_start {settings : RenderSettings} {root : Node} {text : String}
    (hrender : root.render settings = .ok text) {path : List Nat} {slot : Slot} {child : Node}
    {rest : List Node}
    (hitem : root.locate .stray path = some (.branch .listItem (child :: rest), slot)) :
    ∃ (w entered : Writer) (item : ItemLayout) (m : Mark),
      (root.visitsTo .stray path).forM (Visit.write settings) settings.writer = .ok () w ∧
      Visit.write settings ⟨.enter, .container .listItem, slot⟩ w = .ok () entered ∧
      slot.layout settings.markers = .ok item ∧
      w.flush.openLine.buffer.toList = Text.Utf8.encode m.front ∧
      m.outer = w.marginText ∧ m.marker = item.marker.toList ∧ m.indent = item.margin.toList ∧
      (child.opening (.start entered.room) = .met → m.Followed text.toList) ∧
      (child.opening (.start entered.room) = .parted → m.Parted text.toList) ∧
      (child.lead = .content → m.Followed text.toList) ∧
      (∀ leaf, child = .leaf leaf → child.element.isBlock → m.Detached text.toList) := by
  obtain ⟨d, hdraft, _, htext⟩ := Node.render_eq_ok_iff.mp hrender
  obtain ⟨after, hvisits⟩ := Node.exists_visits_of_locate hitem
  rw [Node.draft, Node.visits, hvisits, draftOfVisits_append] at hdraft
  obtain ⟨before, hbefore, hrest⟩ := exists_of_bind_eq_ok hdraft
  obtain ⟨item, hlayout, henter, hmet, hparted, hdetached⟩ := exists_mark_of_visitsIn hrest
  rw [htext, ← Draft.room_toWriter] at hmet hparted
  rw [htext] at hdetached
  have hwrite :=
    forM_write_toWriter settings (root.visitsTo .stray path) { width := settings.width }
  rw [hbefore] at hwrite
  have hentered := Draft.visit_toWriter settings ⟨.enter, .container .listItem, slot⟩ before
  rw [henter] at hentered
  refine ⟨before.toWriter, (item.enter before).toWriter, item, item.mark before, hwrite, hentered,
    hlayout, ?_, rfl, rfl, rfl, hmet, hparted, fun hlead => ?_, hdetached⟩
  · rw [Draft.flush_toWriter, Draft.openLine_toWriter]
    rfl
  · have hsettles := child.lead_settles (.behind (item.enter before).toWriter.room)
    rw [hlead] at hsettles
    exact hmet hsettles

/-- Three items of a list in a quotation that is four columns wide. The paragraph of the first one
begins with a line end, and its content is on the line below the mark. The others hold raw markup
and a paragraph that begins with two line ends, and below their marks a line stays blank. -/
theorem render_item_start_quoted :
    ∃ (root : Node) (text : String),
      text = "> - \n>   a\n> \n> - \n>   \n>   <hr>\n> \n> - \n>   \n>   b\n\n" ∧
      root.render { width := 4 } = .ok text ∧
      root.locate .stray [0, 0, 0] =
        some (.branch .listItem [.branch .paragraph [.leaf (.text "\na")]], .bullet) ∧
      root.locate .stray [0, 0, 1] = some (.branch .listItem [.leaf (.htmlBlock "<hr>")], .bullet) ∧
      root.locate .stray [0, 0, 2] =
        some (.branch .listItem [.branch .paragraph [.leaf (.text "\n\nb")]], .bullet) ∧
      (∃ m : Mark, m.marker = ['-', ' '] ∧ m.Followed text.toList) ∧
      (∃ m : Mark, m.marker = ['-', ' '] ∧ m.Detached text.toList) ∧
      ∃ m : Mark, m.marker = ['-', ' '] ∧ m.Parted text.toList := by
  let root : Node := .branch .document [.branch .blockQuote [.branch (.list false 1)
    [.branch .listItem [.branch .paragraph [.leaf (.text "\na")]],
      .branch .listItem [.leaf (.htmlBlock "<hr>")],
      .branch .listItem [.branch .paragraph [.leaf (.text "\n\nb")]]]]]
  have hrender : root.render { width := 4 } =
      .ok "> - \n>   a\n> \n> - \n>   \n>   <hr>\n> \n> - \n>   \n>   b\n\n" := by decide +kernel
  have hfirst : root.locate .stray [0, 0, 0] =
      some (.branch .listItem [.branch .paragraph [.leaf (.text "\na")]], .bullet) := rfl
  have hsecond : root.locate .stray [0, 0, 1] =
      some (.branch .listItem [.leaf (.htmlBlock "<hr>")], .bullet) := rfl
  have hthird : root.locate .stray [0, 0, 2] =
      some (.branch .listItem [.branch .paragraph [.leaf (.text "\n\nb")]], .bullet) := rfl
  refine ⟨root, _, rfl, hrender, hfirst, hsecond, hthird, ?_, ?_, ?_⟩
  · obtain ⟨w, entered, item, m, _, _, hlayout, _, _, hmarker, _, hmet, _⟩ :=
      render_item_start hrender hfirst
    cases hlayout
    exact ⟨m, hmarker, hmet rfl⟩
  · obtain ⟨w, entered, item, m, _, _, hlayout, _, _, hmarker, _, _, _, _, hdetached⟩ :=
      render_item_start hrender hsecond
    cases hlayout
    exact ⟨m, hmarker, hdetached _ rfl rfl⟩
  · obtain ⟨w, entered, item, m, _, _, hlayout, _, _, hmarker, _, _, hparted, _⟩ :=
      render_item_start hrender hthird
    cases hlayout
    exact ⟨m, hmarker, hparted rfl⟩

end MarkdownLayout
