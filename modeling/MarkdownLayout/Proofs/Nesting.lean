import Mathlib.Data.List.Basic
import MarkdownLayout.Proofs.BlockStart
import MarkdownLayout.Proofs.Filling
import MarkdownLayout.Proofs.Words

/-!
# Paragraphs in shells

Paragraphs in quotations and lists of any depth are laid out like bare paragraphs on narrower lines:
the marks stand in front of the first line, and the margins in front of the others, blank lines
between paragraphs included. Only the blank line at the end stays bare, since the margins have been
taken back by then. The main statement is `render_nest_eq_hang`.

Both texts are computed. What carries the induction over the paragraphs is `Filled`: the lines
written so far are the filled lines of the paragraphs, behind their mark and within their margins.
-/

namespace MarkdownLayout

/-- A paragraph of words. -/
structure Passage where
  /-- The first word. -/
  first : Word
  /-- The words after it. -/
  rest : List Word

namespace Passage

/-- The words with a blank between any two of them. -/
def content (p : Passage) : String :=
  String.ofList (List.intercalate [' '] ((p.first :: p.rest).map Word.chars))

/-- What follows the first word. -/
def tail (p : Passage) : List Char :=
  p.rest.flatMap fun word => ' ' :: word.chars

/-- The paragraph as a node. -/
def node (p : Passage) : Node :=
  .branch .paragraph [.leaf (.text p.content)]

/-- The lines of the paragraph. -/
def lines (room : Nat) (p : Passage) : List (List Char) :=
  fill room p.first.atStart p.rest

/-- The lines of paragraphs, with an empty line between any two of them. -/
def linesOf (room : Nat) (first : Passage) (rest : List Passage) : List (List Char) :=
  first.lines room ++ rest.flatMap fun p => [] :: p.lines room

end Passage

/-- Settings with wider lines. Lines that are not broken stay so. -/
def RenderSettings.widen (settings : RenderSettings) (columns : Nat) : RenderSettings :=
  { settings with width := if settings.width = 0 then 0 else settings.width + columns }

/-- Lines with something between any two of them are the first one, and each other one behind a
separator. -/
theorem intercalate_cons_eq (sep line : List Char) (lines : List (List Char)) :
    List.intercalate sep (line :: lines) = line ++ lines.flatMap (sep ++ ·) := by
  induction lines generalizing line with
  | nil => simp
  | cons next lines ih =>
    rw [List.intercalate_cons_cons, ih, List.flatMap_cons]
    simp

/-- Hung lines are lines with a line end and the margin between any two of them, behind the mark. -/
theorem hang_eq_intercalate {lines : List (List Char)} (h : lines ≠ []) (mark margin : List Char) :
    hang mark margin lines = mark ++ List.intercalate ('\n' :: margin) lines := by
  obtain ⟨line, lines, rfl⟩ := List.exists_cons_of_ne_nil h
  rw [intercalate_cons_eq, hang, List.append_assoc]
  rfl

/-- Lines that follow an empty one. -/
theorem hang_append_blank {lines more : List (List Char)} (h : lines ≠ []) (hmore : more ≠ [])
    (mark margin : List Char) :
    hang mark margin (lines ++ [] :: more) =
      hang mark margin lines ++ '\n' :: (margin ++ '\n' :: margin) ++
        List.intercalate ('\n' :: margin) more := by
  obtain ⟨line, lines, rfl⟩ := List.exists_cons_of_ne_nil h
  obtain ⟨next, more, rfl⟩ := List.exists_cons_of_ne_nil hmore
  rw [intercalate_cons_eq]
  simp [hang]

/-- The lines of a text without marks are found by cutting it. -/
theorem cutAt_hang {lines : List (List Char)} (h : lines ≠ [])
    (hlines : ∀ line ∈ lines, '\n' ∉ line) : Text.cutAt '\n' (hang [] [] lines) = lines := by
  rw [hang_eq_intercalate h, List.nil_append]
  induction lines with
  | nil => exact absurd rfl h
  | cons line lines ih =>
    obtain ⟨hline, hrest⟩ := List.forall_mem_cons.mp hlines
    cases lines with
    | nil => simpa using Text.cutAt_of_notMem hline
    | cons next lines =>
      rw [List.intercalate_cons_cons, List.append_assoc, List.singleton_append,
        Text.cutAt_append_mark hline, ih (List.cons_ne_nil _ _) hrest]

/-- Backslashes leave a word on one line. -/
theorem newline_notMem_markedAfter {cs : List Char} (h : '\n' ∉ cs) (prev : Option Char) :
    '\n' ∉ markedAfter prev cs := by
  induction cs generalizing prev with
  | nil => exact h
  | cons c cs ih =>
    rw [List.mem_cons, not_or] at h
    rw [markedAfter]
    have hrest := ih h.2 (some c)
    split <;> simp [h.1, hrest]

namespace Word

/-- A word within a line is on that line. -/
theorem newline_notMem_within (word : Word) : '\n' ∉ word.within :=
  newline_notMem_markedAfter (fun hm => (word.unbroken _ hm).2 rfl) none

/-- So is one at the start of a line, with the backslash that it may need there. -/
theorem newline_notMem_atStart (word : Word) : '\n' ∉ word.atStart := by
  have h := word.newline_notMem_within
  unfold atStart
  split
  · simp [h]
  · exact h

/-- A word that opens no block is the same at the start of a line and within it. -/
theorem atStart_of_not_opens {word : Word} (h : opens word.chars = false) :
    word.atStart = word.within := by
  have hhead : word.chars.head?.any (· ∈ ['-', '+', '#', '=']) = false := h
  rw [atStart, hhead]
  rfl

end Word

/-- Filling makes lines. -/
theorem newline_notMem_fill (room : Nat) {line : List Char} (h : '\n' ∉ line) (words : List Word) :
    ∀ other ∈ fill room line words, '\n' ∉ other := by
  induction words generalizing line with
  | nil => simpa [fill] using h
  | cons word words ih =>
    have hword := word.newline_notMem_within
    rw [fill]
    split
    · exact ih (by simp [h, hword])
    · exact List.forall_mem_cons.mpr ⟨h, ih word.newline_notMem_atStart⟩

namespace Passage

/-- A paragraph has a first word, and so a first line. -/
theorem lines_ne_nil (room : Nat) (p : Passage) : p.lines room ≠ [] :=
  fill_ne_nil room p.first.atStart p.rest

/-- So have paragraphs, of which there is at least one. -/
theorem linesOf_ne_nil (room : Nat) (first : Passage) (rest : List Passage) :
    linesOf room first rest ≠ [] := by
  simp [linesOf, first.lines_ne_nil room]

/-- The lines of a paragraph are lines: no line end is left in them. -/
theorem newline_notMem_lines (room : Nat) (p : Passage) : ∀ line ∈ p.lines room, '\n' ∉ line :=
  newline_notMem_fill room p.first.newline_notMem_atStart p.rest

/-- The empty lines between paragraphs add none. -/
theorem newline_notMem_linesOf (room : Nat) (first : Passage) (rest : List Passage) :
    ∀ line ∈ linesOf room first rest, '\n' ∉ line := by
  refine List.forall_mem_append.mpr ⟨first.newline_notMem_lines room, ?_⟩
  intro line hm
  obtain ⟨p, _, hp⟩ := List.mem_flatMap.mp hm
  rcases List.mem_cons.mp hp with rfl | hp
  · exact List.not_mem_nil
  · exact p.newline_notMem_lines room line hp

/-- What follows the first word begins with a blank, if there is anything. -/
theorem head?_tail (p : Passage) : p.tail.head?.all (· = ' ') := by
  unfold tail
  cases p.rest <;> simp

/-- What is written of a paragraph one character after the other. -/
theorem squeeze_content (p : Passage) :
    Writer.squeeze p.content.toList = p.first.chars ++ p.tail := by
  have hspaced : p.content.toList = spaced 0 p.first (p.rest.map fun word => (0, word)) := by
    rw [content, String.toList_ofList, List.map_cons, intercalate_cons_eq]
    simp [spaced, List.flatMap_map]
  rw [hspaced, squeeze_spaced]
  simp [tail, Function.comp_def]

end Passage

namespace ItemLayout

variable {items : List ItemLayout}

/-- Marks are as wide as the margins that follow them, so all lines of an item begin in one
column. -/
theorem length_marks (h : ∀ item ∈ items, item.Proper) :
    (marks items).length = (margins items).length := by
  induction items with
  | nil => rfl
  | cons item items ih =>
    obtain ⟨hitem, hitems⟩ := List.forall_mem_cons.mp h
    have hlength := hitem.length_eq
    have hrest := ih hitems
    simp only [marks, margins, List.flatMap_cons, List.length_append] at hrest ⊢
    omega

/-- No digit stands at the end of marks or margins. -/
theorem getLast?_marks_margins (h : ∀ item ∈ items, item.Proper) :
    (marks items).getLast?.any Char.isDigit = false ∧
      (margins items).getLast?.any Char.isDigit = false := by
  have hblank : (' ' : Char).isDigit = false := by decide
  have hlast : ∀ lists : List (List Char), (∀ cs ∈ lists, cs.getLast? = some ' ') →
      lists.flatten.getLast?.any Char.isDigit = false := by
    intro lists hl
    induction lists with
    | nil => rfl
    | cons cs lists ih =>
      obtain ⟨hcs, hrest⟩ := List.forall_mem_cons.mp hl
      rw [List.flatten_cons, List.getLast?_append]
      cases hr : lists.flatten.getLast? with
      | none => simp [hcs, hblank]
      | some c =>
        rw [hr] at ih
        exact ih hrest
  refine ⟨hlast _ ?_, hlast _ ?_⟩
  · simpa using fun item hm => (h item hm).last_marker
  · simpa using fun item hm => (h item hm).last_margin

/-- Margins take as many columns as they have characters. -/
theorem length_encode_margins (h : ∀ item ∈ items, item.Proper) :
    (Text.Utf8.encode (margins items)).length = (margins items).length := by
  refine Text.Utf8.length_encode_of_ascii fun c hc => ?_
  obtain ⟨item, hi, hm⟩ := List.mem_flatMap.mp hc
  rcases (h item hi).margin c hm with rfl | rfl <;> decide

end ItemLayout

/-- Write a paragraph. -/
def Draft.writePassage (d : Draft) (p : Passage) : Draft :=
  (d.emit .prose p.content).owe .blankLine

/-- The lines written so far stand behind their mark and within the margin, and a blank line is owed
to the last one. -/
structure Filled (room : Nat) (mark : List Char) (lines : List (List Char)) (d : Draft) : Prop where
  /-- The text is made of the lines, and the last one can go on. -/
  standing : ∃ before line, Standing room before line d ∧ before ++ line = hang mark d.margin lines
  /-- A blank line is owed. -/
  owed : d.owed = .blankLine
  /-- Lines are not kept whole. -/
  keepsLines : d.keepsLines = false

/-- A paragraph is written one character after the other. -/
theorem Draft.emit_passage {d : Draft} (h : d.keepsLines = false) (p : Passage) :
    d.emit .prose p.content = d.flush.putAll .prose (p.first.chars ++ p.tail) := by
  have heffective : d.effective .prose = .prose := by
    rw [Draft.effective, h]
    rfl
  rw [Draft.emit, heffective, ← Passage.squeeze_content]
  rfl

/-- The words of a paragraph after the first one. -/
theorem Standing.filled {room : Nat} {before mark : List Char} {lines : List (List Char)}
    {d : Draft}
    {p : Passage} (h : Standing room before p.first.atStart d) (hkeeps : d.keepsLines = false)
    (hlines : before ++ List.intercalate ('\n' :: d.margin) (p.lines room) =
      hang mark d.margin lines) :
    Filled room mark lines ((d.putAll .prose p.tail).owe .blankLine) := by
  obtain ⟨before', line', hs, he⟩ := h.fill p.rest
  have hframe := Draft.frame_putAll .prose p.tail d
  have hmargin := Draft.margin_of_frame hframe
  rw [Draft.owe_blankLine]
  refine ⟨⟨before', line', ⟨hs.text, hs.column, hs.last, hs.begun, hs.width, hs.margin⟩, ?_⟩, rfl,
    (Draft.keepsLines_of_frame hframe).trans hkeeps⟩
  exact (he.trans hlines).trans (congrArg (hang mark · lines) hmargin.symm)

namespace Filled

variable {room : Nat} {mark : List Char} {lines : List (List Char)} {d : Draft}

/-- The text of filled lines hangs from the marks on the first of them. -/
theorem text_eq (h : Filled room mark lines d) : d.text = hang mark d.margin lines := by
  obtain ⟨before, line, hs, he⟩ := h.standing
  exact hs.text.trans he

/-- The last line is not empty. -/
theorem last (h : Filled room mark lines d) : ∃ c, d.text.getLast? = some c ∧ c ≠ '\n' := by
  obtain ⟨before, line, hs, _⟩ := h.standing
  obtain ⟨c, hc, hn⟩ := hs.last
  refine ⟨c, ?_, hn⟩
  rw [hs.text, List.getLast?_append, hc]
  rfl

/-- The blank line in front of the next paragraph has a margin. -/
theorem flush_eq (h : Filled room mark lines d) :
    d.flush = { d.endLine ('\n' :: (d.margin ++ ['\n'])) with owed := .nothing } := by
  obtain ⟨c, hlast, hn⟩ := h.last
  exact Draft.flush_of_last h.owed hlast hn

/-- Where a paragraph has been paid for, the next line has not begun. -/
theorem line_flush (h : Filled room mark lines d) : d.flush.line = .fresh := by
  rw [h.flush_eq]
  rfl

/-- In front of the next paragraph stand the text, an empty line with its margin and the margin of
the line. -/
theorem text_openLine (h : Filled room mark lines d) :
    d.flush.openLine.text =
      hang mark d.margin lines ++ '\n' :: (d.margin ++ '\n' :: d.margin) := by
  have hflush : d.flush.text = d.text ++ '\n' :: (d.margin ++ ['\n']) := by
    rw [h.flush_eq]
    exact Draft.text_endLine _ _
  rw [Draft.text_openLine_of_fresh h.line_flush, Draft.margin_flush, hflush, h.text_eq]
  simp

/-- No digit stands in front of the next paragraph. -/
theorem digit_openLine (h : Filled room mark lines d) :
    d.flush.openLine.text.getLast?.any Char.isDigit = false := by
  obtain ⟨_, _, hs, _⟩ := h.standing
  have hmargin := hs.margin
  rw [h.text_openLine]
  cases hd : d.margin.getLast? with
  | none =>
    rw [List.getLast?_eq_none_iff.mp hd]
    simp [List.getLast?_append]
  | some c =>
    rw [hd] at hmargin
    simpa [List.getLast?_append, List.getLast?_cons, hd] using hmargin

/-- The first word of the next paragraph. -/
theorem standing_next (h : Filled room mark lines d) (word : Word) :
    Standing room (hang mark d.margin lines ++ '\n' :: (d.margin ++ '\n' :: d.margin)) word.atStart
      (d.flush.openLine.append true word.atStart) := by
  obtain ⟨_, _, hs, _⟩ := h.standing
  have hframe : (d.flush.openLine.append true word.atStart).frame = d.flush.frame := by simp
  have hmargin := (Draft.margin_of_frame hframe).trans d.margin_flush
  have hindent : (d.flush.openLine.append true word.atStart).indent = d.indent :=
    congrArg (fun cs => (Text.Utf8.encode cs).length) hmargin
  have hcolumn : d.flush.openLine.column = d.flush.indent := by
    simp [Draft.openLine, h.line_flush]
  refine ⟨?_, ?_, word.last_atStart, Draft.atLineStart_append _ _ _, ?_, ?_⟩
  · rw [Draft.text_append, h.text_openLine]
  · rw [Draft.column_append, hcolumn, Draft.indent_of_frame hframe]
  · rw [Draft.width_of_frame hframe, Draft.width_flush, hindent]
    exact hs.width
  · rw [hmargin]
    exact hs.margin

/-- One more paragraph stands behind an empty line. -/
theorem writePassage (h : Filled room mark lines d) (hne : lines ≠ []) (p : Passage) :
    Filled room mark (lines ++ [] :: p.lines room) (d.writePassage p) := by
  have hframe : (d.flush.openLine.append true p.first.atStart).frame = d.flush.frame := by simp
  have hmargin := (Draft.margin_of_frame hframe).trans d.margin_flush
  have hkeeps := (Draft.keepsLines_of_frame hframe).trans (d.keepsLines_flush.trans h.keepsLines)
  have hopened : d.flush.openLine.line = .opened := by simp [Draft.openLine, h.line_flush]
  have hchars : p.first.chars ++ p.tail ≠ [] := by simp [p.first.ne_nil]
  rw [Draft.writePassage, Draft.emit_passage h.keepsLines, ← Draft.putAll_openLine hchars,
    Draft.putAll_of_opened hopened h.digit_openLine p.first p.head?_tail]
  refine (h.standing_next p.first).filled hkeeps ?_
  rw [hmargin, hang_append_blank hne (p.lines_ne_nil room)]

/-- So do all paragraphs after the first. -/
theorem foldl (h : Filled room mark lines d) (hne : lines ≠ []) (rest : List Passage) :
    Filled room mark (lines ++ rest.flatMap fun p => [] :: p.lines room)
      (rest.foldl Draft.writePassage d) := by
  induction rest generalizing lines d with
  | nil => simpa using h
  | cons p rest ih =>
    have hnext := ih (h.writePassage hne p) (by simp)
    rw [List.append_assoc] at hnext
    rw [List.flatMap_cons]
    exact hnext

/-- At the end of a document, where no margin is left, the blank line is bare. -/
theorem text_finish (h : Filled room mark lines d) :
    ({ d with segments := [] } : Draft).finish.text =
      hang mark d.margin lines ++ ['\n', '\n'] := by
  obtain ⟨c, hlast, hn⟩ := h.last
  have htext : ({ d with segments := [] } : Draft).text = d.text := rfl
  have hne : ({ d with segments := [] } : Draft).text ≠ [] := by
    intro hnil
    rw [← htext, hnil] at hlast
    cases hlast
  rw [Draft.finish_of_owed hne h.owed, Draft.flush_of_last (d := { d with segments := [] }) h.owed
    hlast hn, ← h.text_eq]
  exact Draft.text_endLine _ _

end Filled

/-- Marks leave their margins behind. -/
theorem Draft.segments_enter (items : List ItemLayout) (d : Draft) :
    (d.enter items).segments = d.segments ++ items.map ItemLayout.margin := by
  induction items generalizing d with
  | nil => simp [Draft.enter]
  | cons item items ih =>
    show (Draft.enter items (Draft.pushMargin _ _)).segments = _
    rw [ih]
    simp [Draft.pushMargin]

/-- Nothing is added where there are no margins. -/
theorem RenderSettings.widen_zero (settings : RenderSettings) : settings.widen 0 = settings := by
  obtain ⟨width, markers, escapeFencedCode, flags⟩ := settings
  by_cases hw : width = 0 <;> simp [RenderSettings.widen, hw]

/-- The width that leaves the given room. -/
theorem RenderSettings.width_widen (settings : RenderSettings) (columns : Nat) :
    (settings.width = 0 ∧ ((settings.widen columns).width : Int) = 0) ∨
      (0 < settings.width ∧ ((settings.widen columns).width : Int) = columns + settings.width) := by
  by_cases hw : settings.width = 0
  · exact .inl ⟨hw, by simp [RenderSettings.widen, hw]⟩
  · refine .inr ⟨by omega, ?_⟩
    simp only [RenderSettings.widen, hw, if_false]
    omega

/-- The first word of a text without marks. -/
theorem Standing.bare (width : Nat) (p : Passage) :
    ∃ d, ({ width } : Draft).writePassage p = (d.putAll .prose p.tail).owe .blankLine ∧
      Standing width [] p.first.atStart d ∧ d.keepsLines = false ∧ d.margin = [] := by
  obtain ⟨d, hd, hstanding, hsegments⟩ := Standing.first width false p.first p.head?_tail
  have hkeeps : d.keepsLines = false := by
    rw [← Draft.keepsLines_of_frame (Draft.frame_putAll .prose p.tail d), ← hd]
    exact Draft.keepsLines_of_frame (Draft.frame_putAll _ _ _)
  refine ⟨d, ?_, hstanding, hkeeps, by simp [Draft.margin, hsegments]⟩
  rw [Draft.writePassage, Draft.emit_passage rfl, ← hd]
  rfl

/-- The first word behind marks. It must not open a block, since it is spelled as within a line. -/
theorem Standing.marked (settings : RenderSettings) {items : List ItemLayout}
    (hitems : ∀ item ∈ items, item.Proper) (hne : items ≠ []) {p : Passage}
    (h : opens p.first.chars = false) :
    ∃ d, (({ width := (settings.widen (ItemLayout.margins items).length).width } :
        Draft).enter items).writePassage p = (d.putAll .prose p.tail).owe .blankLine ∧
      Standing settings.width (ItemLayout.marks items) p.first.atStart d ∧
      d.keepsLines = false ∧ d.margin = ItemLayout.margins items := by
  have hwidth := settings.width_widen (ItemLayout.margins items).length
  obtain ⟨hmarks, hmargins⟩ := ItemLayout.getLast?_marks_margins hitems
  rw [Draft.enter_initial _ hitems hne]
  generalize hd : ({ width := ((settings.widen (ItemLayout.margins items).length).width : Int)
                     head := Glyph.plain (ItemLayout.marks items)
                     line := .solid
                     segments := items.map ItemLayout.margin
                     column := (ItemLayout.marks items).length } : Draft) = d
  have hline : d.line = .solid := by rw [← hd]
  have hkeeps : d.keepsLines = false := by rw [← hd]
  have hflush : d.flush = d := by
    rw [← hd]
    rfl
  have htext : d.text = ItemLayout.marks items := by
    rw [← hd]
    exact Glyph.chars_plain _
  have hmargin : d.margin = ItemLayout.margins items := by
    rw [← hd]
    exact List.flatMap_map ..
  have hindent : d.indent = (ItemLayout.margins items).length := by
    rw [Draft.indent, hmargin, ItemLayout.length_encode_margins hitems]
  have hword : markedAfter d.text.getLast? p.first.chars = p.first.atStart := by
    rw [htext, markedAfter_of_not_digit hmarks, Word.atStart_of_not_opens h]
    rfl
  have hframe := Draft.frame_append true p.first.atStart d
  have hmargin' := (Draft.margin_of_frame hframe).trans hmargin
  refine ⟨d.append true p.first.atStart, ?_, ⟨?_, ?_, p.first.last_atStart,
    Draft.atLineStart_append _ _ _, ?_, ?_⟩, (Draft.keepsLines_of_frame hframe).trans hkeeps,
    hmargin'⟩
  · rw [Draft.writePassage, Draft.emit_passage hkeeps, hflush,
      Draft.putAll_of_solid hline p.first.unbroken p.head?_tail, hword]
  · rw [Draft.text_append, htext]
  · rw [Draft.column_append, Draft.indent_of_frame hframe, hindent, ← hd,
      ItemLayout.length_marks hitems]
  · rw [Draft.width_of_frame hframe, Draft.indent_of_frame hframe, hindent, ← hd]
    exact hwidth
  · rw [hmargin']
    exact hmargins

/-- The first paragraph stands behind the marks. -/
theorem Filled.first (settings : RenderSettings) {items : List ItemLayout}
    (hitems : ∀ item ∈ items, item.Proper) {p : Passage} (h : opens p.first.chars = false) :
    Filled settings.width (ItemLayout.marks items) (p.lines settings.width)
      ((({ width := (settings.widen (ItemLayout.margins items).length).width } :
        Draft).enter items).writePassage p) := by
  have hstart : ∃ d, (({ width := (settings.widen (ItemLayout.margins items).length).width } :
        Draft).enter items).writePassage p = (d.putAll .prose p.tail).owe .blankLine ∧
      Standing settings.width (ItemLayout.marks items) p.first.atStart d ∧
      d.keepsLines = false ∧ d.margin = ItemLayout.margins items := by
    by_cases hne : items = []
    · subst hne
      have hwiden : settings.widen (ItemLayout.margins []).length = settings := settings.widen_zero
      rw [hwiden]
      exact Standing.bare settings.width p
    · exact Standing.marked settings hitems hne h
  obtain ⟨d, hd, hstanding, hkeeps, hmargin⟩ := hstart
  rw [hd]
  refine hstanding.filled hkeeps ?_
  rw [hmargin, hang_eq_intercalate (p.lines_ne_nil settings.width)]

/-- Paragraphs are visited one after the other, each with its words in one span. -/
theorem draftOfVisits_passages (settings : RenderSettings) (passages : List Passage)
    (container : Container) (position : Nat) (d : Draft) :
    draftOfVisits settings (Node.visitsUnder container position (passages.map Passage.node)) d =
      .ok (passages.foldl Draft.writePassage d) := by
  induction passages generalizing position d with
  | nil => rfl
  | cons p passages ih =>
    have hvisits : Node.visitsUnder container position ((p :: passages).map Passage.node) =
        Node.visitsUnder container position [p.node] ++
          Node.visitsUnder container (position + 1) (passages.map Passage.node) := by
      simp [Node.visitsUnder]
    have hfirst : draftOfVisits settings (Node.visitsUnder container position [p.node]) d =
        .ok (d.writePassage p) := by
      rw [Passage.node, draftOfVisits_paragraph]
      rfl
    rw [hvisits, draftOfVisits_append, hfirst]
    exact ih (position + 1) (d.writePassage p)

/-- Paragraphs leave the margins as they are. -/
theorem segments_foldl_writePassage (passages : List Passage) (d : Draft) :
    (passages.foldl Draft.writePassage d).segments = d.segments := by
  induction passages generalizing d with
  | nil => rfl
  | cons p passages ih =>
    rw [List.foldl_cons, ih, Draft.writePassage, Draft.owe_blankLine]
    exact Draft.segments_emit .prose p.content d

/-- The last paragraph owes a blank line, which what follows pays. -/
theorem owed_foldl_writePassage {passages : List Passage} (h : passages ≠ []) (d : Draft) :
    (passages.foldl Draft.writePassage d).owed = .blankLine := by
  obtain ⟨passages, p, rfl⟩ := (List.eq_nil_or_concat' passages).resolve_left h
  rw [List.foldl_concat, Draft.writePassage, Draft.owe_blankLine]

/-- Paragraphs in shells: their lines behind the marks and within the margins. The last line is not
empty. -/
theorem Node.render_nest_passages (settings : RenderSettings) {shells : List Shell}
    {items : List ItemLayout} (hlayouts : Shell.layouts settings.markers shells = .ok items)
    {first : Passage} (h : opens first.first.chars = false) (rest : List Passage) :
    (Node.branch .document (Shell.nest ((first :: rest).map Passage.node) shells)).render
        (settings.widen (ItemLayout.margins items).length) =
      .ok (String.ofList (hang (ItemLayout.marks items) (ItemLayout.margins items)
        (Passage.linesOf settings.width first rest)) ++ "\n\n") ∧
    ∃ c, (hang (ItemLayout.marks items) (ItemLayout.margins items)
      (Passage.linesOf settings.width first rest)).getLast? = some c ∧ c ≠ '\n' := by
  have hitems := Shell.proper_of_mem_layouts hlayouts
  generalize hwide : settings.widen (ItemLayout.margins items).length = wide
  have hmarkers : wide.markers = settings.markers := by
    rw [← hwide]
    rfl
  have hfilled := (Filled.first settings hitems h).foldl (first.lines_ne_nil settings.width) rest
  rw [← hmarkers] at hlayouts
  have hnest := draftOfVisits_nest (draftOfVisits_passages wide (first :: rest))
    (segments_foldl_writePassage (first :: rest))
    (owed_foldl_writePassage (List.cons_ne_nil first rest)) hlayouts .document 0
    { width := wide.width }
  rw [List.foldl_cons] at hnest
  rw [hwide] at hfilled
  generalize he : rest.foldl Draft.writePassage ((({ width := wide.width } : Draft).enter
    items).writePassage first) = e at hnest hfilled
  have hmargin : e.margin = ItemLayout.margins items := by
    rw [← he, Draft.margin, ← List.foldl_cons, segments_foldl_writePassage, Draft.segments_enter]
    exact List.flatMap_map ..
  have htext := hfilled.text_finish
  have hlast := hfilled.last
  rw [hfilled.text_eq] at hlast
  rw [hmargin] at htext hlast
  refine ⟨Node.render_eq_ok_iff.mpr ⟨({ e with segments := [] } : Draft).finish, ?_,
    Draft.segments_finish _, ?_⟩, hlast⟩
  · rw [Node.draft_document, hnest]
    rfl
  · rw [htext, String.toList_append, String.toList_ofList]
    rfl

/-- Paragraphs in shells are the bare paragraphs on lines that are shorter by the margins, with the
marks in front of the first line and the margins in front of all others up to the last line of text.
Marks and margins are of the same length. The first word of all must not open a block. The shells
have marks unless one of them has to show a number with more than `Text.maxDigits` digits: then
nothing in them is laid out, whatever the width. -/
theorem render_nest_eq_hang (settings : RenderSettings) (shells : List Shell) (first : Passage)
    (rest : List Passage) (h : opens first.first.chars = false) :
    ∃ body : String,
      (Node.branch .document ((first :: rest).map Passage.node)).render settings =
        .ok (body ++ "\n\n") ∧
      (∃ c, body.toList.getLast? = some c ∧ c ≠ '\n') ∧
      ((∃ items, Shell.layouts settings.markers shells = .ok items ∧
          (ItemLayout.marks items).length = (ItemLayout.margins items).length ∧
          (Node.branch .document (Shell.nest ((first :: rest).map Passage.node) shells)).render
              (settings.widen (ItemLayout.margins items).length) =
            .ok (String.ofList (hang (ItemLayout.marks items) (ItemLayout.margins items)
              (Text.cutAt '\n' body.toList)) ++ "\n\n")) ∨
        (settings.markers = .sequential ∧
          (∃ start, Shell.item true start ∈ shells ∧
            Text.maxDigits < (toString start.natAbs).length) ∧
          ∀ width, (Node.branch .document (Shell.nest ((first :: rest).map Passage.node)
            shells)).render { settings with width } = .error .longNumeral)) := by
  have hbare := Node.render_nest_passages settings
    (rfl : Shell.layouts settings.markers [] = .ok []) h rest
  have hwiden : settings.widen (ItemLayout.margins []).length = settings := settings.widen_zero
  have hcut := cutAt_hang (Passage.linesOf_ne_nil settings.width first rest)
    (Passage.newline_notMem_linesOf settings.width first rest)
  rw [hwiden] at hbare
  refine ⟨_, hbare.1, ?_, ?_⟩
  · rw [String.toList_ofList]
    exact hbare.2
  · cases hlayouts : Shell.layouts settings.markers shells with
    | ok items =>
      refine .inl ⟨items, rfl, ItemLayout.length_marks (Shell.proper_of_mem_layouts hlayouts), ?_⟩
      have hlines : Text.cutAt '\n' (String.ofList (hang (ItemLayout.marks [])
          (ItemLayout.margins []) (Passage.linesOf settings.width first rest))).toList =
            Passage.linesOf settings.width first rest := by
        rw [String.toList_ofList]
        exact hcut
      rw [hlines]
      exact (Node.render_nest_passages settings hlayouts h rest).1
    | error e =>
      obtain ⟨rfl, hmarkers, start, hstart, hlong⟩ := Shell.layouts_eq_error_iff.mp hlayouts
      refine .inr ⟨hmarkers, ⟨start, hstart, Text.numeral?_eq_none_iff.mp hlong⟩, fun width => ?_⟩
      have hfail : Shell.layouts ({ settings with width } : RenderSettings).markers shells =
          .error .longNumeral := hlayouts
      rw [Node.render_eq, Node.draft_document, draftOfVisits_nest_error hfail]
      rfl

/-- Two paragraphs in a numbered item in a quotation. -/
theorem render_nest_eq_hang_quoted_item :
    (Node.branch .document [.branch .blockQuote [.branch (.list true 12) [.branch .listItem
        [.branch .paragraph [.leaf (.text "ab cd -ef")],
          .branch .paragraph [.leaf (.text "g.")]]]]]).render
      { width := 11, markers := .sequential } =
        .ok "> 12. ab cd\n>     \\-ef\n>     \n>     g.\n\n" ∧
    opens ['a', 'b'] = false ∧
    ∃ body : String,
      (Node.branch .document [.branch .paragraph [.leaf (.text "ab cd -ef")],
        .branch .paragraph [.leaf (.text "g.")]]).render { width := 5, markers := .sequential } =
          .ok (body ++ "\n\n") ∧
      (∃ c, body.toList.getLast? = some c ∧ c ≠ '\n') ∧
      ((∃ items, Shell.layouts .sequential [.quote, .item true 12] = .ok items ∧
          (ItemLayout.marks items).length = (ItemLayout.margins items).length ∧
          (Node.branch .document [.branch .blockQuote [.branch (.list true 12) [.branch .listItem
              [.branch .paragraph [.leaf (.text "ab cd -ef")],
                .branch .paragraph [.leaf (.text "g.")]]]]]).render
            (({ width := 5, markers := .sequential } : RenderSettings).widen
              (ItemLayout.margins items).length) =
            .ok (String.ofList (hang (ItemLayout.marks items) (ItemLayout.margins items)
              (Text.cutAt '\n' body.toList)) ++ "\n\n")) ∨
        (MarkerStyle.sequential = .sequential ∧
          (∃ start, Shell.item true start ∈ [Shell.quote, .item true 12] ∧
            Text.maxDigits < (toString start.natAbs).length) ∧
          ∀ width : Nat, (Node.branch .document [.branch .blockQuote [.branch (.list true 12)
            [.branch .listItem [.branch .paragraph [.leaf (.text "ab cd -ef")],
              .branch .paragraph [.leaf (.text "g.")]]]]]).render
            { width, markers := .sequential } = .error .longNumeral)) := by
  refine ⟨by decide +kernel, by decide, ?_⟩
  exact render_nest_eq_hang { width := 5, markers := .sequential } [.quote, .item true 12]
    ⟨⟨['a', 'b'], by simp, by simp⟩,
      [⟨['c', 'd'], by simp, by simp⟩, ⟨['-', 'e', 'f'], by simp, by simp⟩]⟩
    [⟨⟨['g', '.'], by simp, by simp⟩, []⟩] (by decide)

end MarkdownLayout
