import MarkdownLayout.Proofs.Draft.Step

/-!
# Lines of a draft

The text of a draft is a list of closed lines and a current one. A draft is aligned when its column
is the length of the current line; every step keeps it so, as long as margins are ASCII and lines
are begun by the writer itself. The main statement is `Aligned.run`.
-/

namespace MarkdownLayout

namespace Glyph

/-- No glyph ends a line. -/
def Unbroken (gs : List Glyph) : Prop :=
  ∀ g ∈ gs, g.char ≠ '\n'

/-- The lines of a text, without the line ends. -/
def lines (gs : List Glyph) : List (List Glyph) :=
  gs.splitOnP (·.char == '\n')

/-- Even an empty text has a line, the one that is being written. -/
theorem lines_ne_nil (gs : List Glyph) : lines gs ≠ [] :=
  List.splitOnP_ne_nil _ gs

/-- The lines that have been ended. -/
def closed (gs : List Glyph) : List (List Glyph) :=
  (lines gs).dropLast

/-- The line that is being written. -/
def current (gs : List Glyph) : List Glyph :=
  (lines gs).getLast (lines_ne_nil gs)

/-- The lines are those that have been ended and the one that has not. -/
theorem closed_append_current (gs : List Glyph) : closed gs ++ [current gs] = lines gs :=
  List.dropLast_concat_getLast (lines_ne_nil gs)

/-- A text without a line end is one line. -/
theorem lines_of_unbroken {gs : List Glyph} (h : Unbroken gs) : lines gs = [gs] :=
  List.splitOnP_eq_singleton fun g hg => by simp [h g hg]

/-- A line end divides the lines in front of it from those behind it, whether or not it stands in
the place of a blank. -/
theorem lines_append_break (gs hs : List Glyph) (breakable : Bool) :
    lines (gs ++ ⟨'\n', breakable⟩ :: hs) = lines gs ++ lines hs :=
  List.splitOnP_append_cons gs hs (by simp)

/-- A text is one line, or ends with one. -/
theorem unbroken_or_exists_break (gs : List Glyph) :
    Unbroken gs ∨ ∃ before breakable line, gs = before ++ ⟨'\n', breakable⟩ :: line ∧
      Unbroken line := by
  induction gs with
  | nil => exact .inl fun g hg => by cases hg
  | cons g gs ih =>
    rcases ih with h | ⟨before, breakable, line, rfl, h⟩
    · by_cases hg : g.char = '\n'
      · exact .inr ⟨[], g.breakable, gs, by rw [← hg]; rfl, h⟩
      · exact .inl (List.forall_mem_cons.mpr ⟨hg, h⟩)
    · exact .inr ⟨g :: before, breakable, line, rfl, h⟩

/-- All lines but the last have been ended. -/
theorem closed_eq_of_lines_eq {gs : List Glyph} {before : List (List Glyph)} {line : List Glyph}
    (h : lines gs = before ++ [line]) : closed gs = before := by
  rw [closed, h, List.dropLast_concat]

/-- The last line is the one that is being written. -/
theorem current_eq_of_lines_eq {gs : List Glyph} {before : List (List Glyph)} {line : List Glyph}
    (h : lines gs = before ++ [line]) : current gs = line := by
  simp only [current, h, List.getLast_concat]

/-- What is written without line ends goes on the current line. -/
theorem lines_append {hs : List Glyph} (h : Unbroken hs) (gs : List Glyph) :
    lines (gs ++ hs) = closed gs ++ [current gs ++ hs] := by
  rcases unbroken_or_exists_break gs with hg | ⟨before, breakable, line, rfl, hl⟩
  · have hgs : lines gs = [] ++ [gs] := lines_of_unbroken hg
    have happ : Unbroken (gs ++ hs) := List.forall_mem_append.mpr ⟨hg, h⟩
    rw [lines_of_unbroken happ, closed_eq_of_lines_eq hgs, current_eq_of_lines_eq hgs]
    rfl
  · have hgs : lines (before ++ ⟨'\n', breakable⟩ :: line) = lines before ++ [line] := by
      rw [lines_append_break, lines_of_unbroken hl]
    have happ : Unbroken (line ++ hs) := List.forall_mem_append.mpr ⟨hl, h⟩
    rw [closed_eq_of_lines_eq hgs, current_eq_of_lines_eq hgs, List.append_assoc, List.cons_append,
      lines_append_break, lines_of_unbroken happ]

/-- Text on one line ends no line. -/
theorem closed_append {hs : List Glyph} (h : Unbroken hs) (gs : List Glyph) :
    closed (gs ++ hs) = closed gs :=
  closed_eq_of_lines_eq (lines_append h gs)

/-- It is added to the line that is being written. -/
theorem current_append {hs : List Glyph} (h : Unbroken hs) (gs : List Glyph) :
    current (gs ++ hs) = current gs ++ hs :=
  current_eq_of_lines_eq (lines_append h gs)

/-- A line end closes the current line. -/
theorem closed_append_break {hs : List Glyph} (h : Unbroken hs) (gs : List Glyph)
    (breakable : Bool) : closed (gs ++ ⟨'\n', breakable⟩ :: hs) = lines gs :=
  closed_eq_of_lines_eq (by rw [lines_append_break, lines_of_unbroken h])

/-- Behind a line end the current line holds what has come since. -/
theorem current_append_break {hs : List Glyph} (h : Unbroken hs) (gs : List Glyph)
    (breakable : Bool) : current (gs ++ ⟨'\n', breakable⟩ :: hs) = hs :=
  current_eq_of_lines_eq (by rw [lines_append_break, lines_of_unbroken h])

theorem unbroken_nil : Unbroken [] :=
  fun _ hg => absurd hg List.not_mem_nil

/-- Characters other than line ends do not break a line. -/
theorem unbroken_plain {cs : List Char} (h : '\n' ∉ cs) : Unbroken (plain cs) := by
  intro g hg
  obtain ⟨c, hc, rfl⟩ := List.mem_map.mp hg
  exact fun hn => h (hn ▸ hc)

theorem unbroken_joint : Unbroken [joint] := by
  intro g hg
  rw [List.mem_singleton.mp hg]
  decide

/-- A text that goes on after its last line end has not just ended a line. -/
theorem getLast?_chars_append {line : List Glyph} (h : Unbroken line) (hne : line ≠ [])
    (before : List Glyph) : (chars (before ++ line)).getLast? ≠ some '\n' := by
  have hl := List.getLast?_eq_some_getLast hne
  have hlast : (chars line).getLast? = some (line.getLast hne).char := by
    rw [chars, List.getLast?_map, hl]
    rfl
  rw [chars_append, List.getLast?_append, hlast]
  exact fun hn => h _ (List.getLast_mem hne) (Option.some.inj hn)

/-- Nothing stands on the current line of a text that is empty or has just ended a line. -/
theorem current_eq_nil {gs : List Glyph} (h : chars gs = [] ∨ (chars gs).getLast? = some '\n') :
    current gs = [] := by
  rcases h with h | h
  · rw [List.map_eq_nil_iff.mp h]
    rfl
  · rcases unbroken_or_exists_break gs with hg | ⟨before, breakable, line, rfl, hl⟩
    · cases gs with
      | nil => rfl
      | cons g rest => exact absurd h (getLast?_chars_append hg (List.cons_ne_nil g rest) [])
    · rw [current_append_break hl]
      cases line with
      | nil => rfl
      | cons g rest =>
        rw [List.append_cons] at h
        exact absurd h (getLast?_chars_append hl (List.cons_ne_nil g rest) _)

end Glyph

/-- Whether a margin is on one line and takes as many octets as characters. -/
def plainMargin (segment : String) : Bool :=
  segment.toList.all fun c => c.toNat < 128 && c ≠ '\n'

/-- Whether a step leaves it to the writer to begin lines, and puts down plain margins only. -/
def Step.staysAligned : Step → Bool
  | .push segment => plainMargin segment
  | .startLine => false
  | _ => true

namespace Draft

/-- The column tells the length of the current line. -/
structure Aligned (d : Draft) : Prop where
  /-- All margins are plain. -/
  margins : ∀ segment ∈ d.segments, plainMargin segment
  /-- The column is the length of the current line. -/
  column : d.column = (Glyph.current d.glyphs).length
  /-- Nothing stands on a line that has not been opened. -/
  fresh : d.line = .fresh → Glyph.current d.glyphs = []
  /-- What stands behind a break point is on one line. -/
  tail : ∀ tail escapes, d.line = .loose tail escapes → '\n' ∉ tail

namespace Aligned

variable {d : Draft}

/-- The characters of margins are plain ones, each of which takes one octet. -/
theorem mem_margin (h : d.Aligned) {c : Char} (hc : c ∈ d.margin) : c.toNat < 128 ∧ c ≠ '\n' := by
  obtain ⟨segment, hs, hm⟩ := List.mem_flatMap.mp hc
  have hp := List.all_eq_true.mp (h.margins segment hs) c hm
  simpa using hp

/-- No margin ends a line, so a new line is as long as its margin says. -/
theorem newline_notMem_margin (h : d.Aligned) : '\n' ∉ d.margin :=
  fun hc => (h.mem_margin hc).2 rfl

/-- A plain margin takes as many octets as characters. -/
theorem indent_eq (h : d.Aligned) : d.indent = d.margin.length :=
  Text.Utf8.length_encode_of_ascii fun _ hc => (h.mem_margin hc).1

/-- The margin of a line is counted. -/
theorem openLine (h : d.Aligned) : d.openLine.Aligned := by
  by_cases hf : d.line = .fresh
  · have hg := glyphs_openLine_of_fresh hf
    have hc := Glyph.current_append (Glyph.unbroken_plain h.newline_notMem_margin) d.glyphs
    have ho : d.openLine = { d with
        head := d.head ++ Glyph.plain d.margin, line := .opened, column := d.indent } := by
      simp [Draft.openLine, hf]
    refine ⟨?_, ?_, ?_, ?_⟩
    · rw [ho]
      exact h.margins
    · rw [hg, hc, h.fresh hf, ho]
      simpa using h.indent_eq
    · exact fun hn => absurd hn (openLine_line_ne_fresh d)
    · exact TailUnbroken.openLine h.tail
  · rw [openLine_of_ne_fresh hf]
    exact h

/-- Characters on an open line are counted. -/
theorem append (h : d.Aligned) {cs : List Char} (hcs : '\n' ∉ cs) (escapes : Bool) :
    (d.append escapes cs).Aligned := by
  have hc := Glyph.current_append (Glyph.unbroken_plain hcs) d.glyphs
  refine ⟨?_, ?_, ?_, ?_⟩
  · rw [segments_of_frame (frame_append escapes cs d)]
    exact h.margins
  · rw [glyphs_append, hc, column_append, h.column]
    simp
  · exact fun hn => absurd hn (line_ne_fresh_of_begun (atLineStart_append escapes cs d))
  · exact TailUnbroken.append h.tail hcs escapes

/-- A breakable blank is counted. -/
theorem placeBlank (h : d.Aligned) : d.placeBlank.Aligned := by
  cases hs : d.atLineStart with
  | true =>
    rw [placeBlank_of_atLineStart hs]
    exact h
  | false =>
    have hc := Glyph.current_append Glyph.unbroken_joint d.glyphs
    refine ⟨?_, ?_, ?_, ?_⟩
    · rw [segments_of_frame (frame_placeBlank d)]
      exact h.margins
    · rw [glyphs_placeBlank hs, hc, placeBlank_of_begun hs, List.length_append, ← h.column]
      rfl
    · intro hn
      rw [line_placeBlank hs] at hn
      cases hn
    · exact TailUnbroken.placeBlank h.tail

/-- A line that is ended is counted from zero. -/
theorem endLine (h : d.Aligned) {cs : List Char}
    (hc : Glyph.current (d.glyphs ++ Glyph.plain cs) = []) : (d.endLine cs).Aligned := by
  refine ⟨h.margins, ?_, fun _ => ?_, ?_⟩
  · rw [glyphs_endLine, hc]
    rfl
  · rw [glyphs_endLine, hc]
  · exact TailUnbroken.endLine cs d

/-- A tail that is moved is counted behind the margin. -/
theorem rewind (h : d.Aligned) {tail : List Char} (ht : '\n' ∉ tail) (escapes : Bool) :
    (d.rewind tail escapes).Aligned := by
  have hfree : '\n' ∉ d.margin ++ (tailGuard escapes tail ++ tail) := by
    simp [h.newline_notMem_margin, newline_notMem_tailGuard, ht]
  refine ⟨h.margins, ?_, ?_, ?_⟩
  · rw [glyphs_rewind, Glyph.plain_cons, Glyph.current_append_break (Glyph.unbroken_plain hfree)]
    simp only [Draft.rewind, Glyph.length_plain, List.length_append, h.indent_eq]
    omega
  · exact fun hn => absurd hn (line_rewind_ne_fresh tail escapes d)
  · exact TailUnbroken.rewind tail escapes d

/-- Breaking a line keeps the count. -/
theorem settle (h : d.Aligned) : d.settle.Aligned := by
  rcases settle_cases d with ⟨tail, escapes, hl, hs⟩ | ⟨hs, _⟩ <;> rw [hs]
  · exact h.rewind (h.tail tail escapes hl) escapes
  · exact h

/-- So does every character. -/
theorem put (h : d.Aligned) (policy : Policy) (c : Char) (next : Option Char) :
    (d.put policy c next).Aligned := by
  have ho := h.openLine
  refine settle ?_
  rcases place_cases policy c next d.openLine with ⟨_, hp⟩ | ⟨_, hp⟩ | ⟨hc, hp⟩ <;> rw [hp]
  · exact ho.placeBlank
  · exact ho.endLine (Glyph.current_append_break Glyph.unbroken_nil _ false)
  · exact ho.append (newline_notMem_spelled hc _ _ _) _

/-- The count is kept along a span, by induction on its characters. -/
theorem putAll (h : d.Aligned) (policy : Policy) (cs : List Char) :
    (d.putAll policy cs).Aligned := by
  induction cs generalizing d with
  | nil => exact h
  | cons c rest ih => exact ih (h.put policy c rest.head?)

/-- The breaks owed end a line, if they are written at all. -/
theorem flush (h : d.Aligned) : d.flush.Aligned := by
  unfold Draft.flush
  split
  · exact h
  · rename_i ho
    have hend : ∀ cs, Glyph.current (d.glyphs ++ Glyph.plain (cs ++ ['\n'])) = [] := fun cs => by
      rw [Glyph.plain_append, ← List.append_assoc]
      exact Glyph.current_append_break Glyph.unbroken_nil _ false
    have hc : Glyph.current (d.glyphs ++ Glyph.plain d.breaksOwed) = [] := by
      rcases breaksOwed_cases ho with ⟨ht, hb | hb⟩ | ⟨_, hb | hb⟩
      · rw [hb, Glyph.plain_nil, List.append_nil]
        exact Glyph.current_eq_nil ht
      · rw [hb]
        exact hend d.margin
      · rw [hb]
        exact hend []
      · rw [hb]
        exact hend ('\n' :: d.margin)
    exact ⟨h.margins, (h.endLine hc).column, (h.endLine hc).fresh, (h.endLine hc).tail⟩

/-- What a step keeps. -/
theorem apply (h : d.Aligned) {s : Step} (hs : s.staysAligned) : (d.apply s).Aligned := by
  cases s with
  | emit policy span => exact h.flush.putAll _ _
  | owe owed =>
    rcases d.apply_owe_cases owed with he | he <;> rw [he]
    · exact ⟨h.margins, h.column, h.fresh, h.tail⟩
    · exact h
  | flush => exact h.flush
  | push segment =>
    refine ⟨?_, h.column, h.fresh, h.tail⟩
    intro other ho
    rcases List.mem_append.mp ho with hm | hm
    · exact h.margins other hm
    · rw [List.mem_singleton.mp hm]
      exact hs
  | pop expected =>
    rcases d.apply_pop_cases expected with he | he <;> rw [he]
    · exact ⟨fun segment hm => h.margins segment (List.dropLast_subset _ hm), h.column, h.fresh,
        h.tail⟩
    · exact h
  | keepLines on => exact ⟨h.margins, h.column, h.fresh, h.tail⟩
  | startLine => cases hs
  | setWidth width => exact ⟨h.margins, h.column, h.fresh, h.tail⟩

/-- What a run keeps. -/
theorem run (h : d.Aligned) {steps : List Step} (hs : ∀ s ∈ steps, s.staysAligned) :
    (d.run steps).Aligned := by
  induction steps generalizing d with
  | nil => exact h
  | cons s steps ih =>
    obtain ⟨hfirst, hrest⟩ := List.forall_mem_cons.mp hs
    exact ih (h.apply hfirst) hrest

/-- A draft without text is aligned. -/
theorem initial (width : Int) : ({ width } : Draft).Aligned where
  margins := fun _ hm => absurd hm List.not_mem_nil
  column := rfl
  fresh := fun _ => rfl
  tail := fun _ _ hl => by cases hl

end Aligned

end Draft

end MarkdownLayout
