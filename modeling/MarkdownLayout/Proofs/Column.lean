import Mathlib.Data.List.DropRight
import MarkdownLayout.Proofs.Draft.Lines

/-!
# The column

A writer never looks back at its text to find out how long the current line is: it adds up what it
writes, starts again at every line end, and counts anew what a break has moved. The main statement
is `column_run`: after any run the column is the number of characters behind the last line end, as
long as margins are ASCII and lines are begun by the writer itself. Margins may be put down and
taken back in the middle of a line, and the width may change there.

A margin outside ASCII is counted by its octets, and a line that is begun from outside is counted
from zero wherever the text stands; both are left out.
-/

namespace MarkdownLayout

/-- The characters of the current line are those behind the last line end. -/
theorem Glyph.chars_current (gs : List Glyph) :
    chars (current gs) = (chars gs).rtakeWhile (· ≠ '\n') := by
  rcases unbroken_or_exists_break gs with hg | ⟨before, breakable, line, rfl, hl⟩
  · have hlines : lines gs = [] ++ [gs] := lines_of_unbroken hg
    have hcurrent : current gs = gs := current_eq_of_lines_eq hlines
    have hfree : ∀ c ∈ chars gs, decide (c ≠ '\n') := by
      intro c hc
      obtain ⟨g, hm, rfl⟩ := List.mem_map.mp hc
      exact decide_eq_true (hg g hm)
    rw [hcurrent, List.rtakeWhile_eq_self_iff.mpr hfree]
  · have hfree : ∀ c ∈ (chars line).reverse, decide (c ≠ '\n') := by
      intro c hc
      obtain ⟨g, hm, rfl⟩ := List.mem_map.mp (List.mem_reverse.mp hc)
      exact decide_eq_true (hl g hm)
    rw [current_append_break hl, chars_append, chars_cons, List.rtakeWhile, List.reverse_append,
      List.reverse_cons, List.append_assoc, List.takeWhile_append_of_pos hfree,
      List.singleton_append, List.takeWhile_cons_of_neg (by simp), List.append_nil,
      List.reverse_reverse]

/-- The column of an aligned draft is the number of characters behind the last line end. -/
theorem Draft.Aligned.column_eq {d : Draft} (h : d.Aligned) :
    d.column = (d.text.rtakeWhile (· ≠ '\n')).length := by
  rw [text, ← Glyph.chars_current, Glyph.chars, List.length_map]
  exact h.column

/-- The octets that a run has written are a text, and the column is the number of its characters
behind the last line end, or of all of them when there is none. -/
theorem column_run (width : Int) {steps : List Step} (hs : ∀ s ∈ steps, s.staysAligned) :
    ∃ text, Text.Utf8.decode (({ width } : Writer).run steps).buffer.toList = .ok text ∧
      (({ width } : Writer).run steps).column = (text.rtakeWhile (· ≠ '\n')).length := by
  have hrun : ({ width } : Writer).run steps = (({ width } : Draft).run steps).toWriter :=
    Draft.run_toWriter steps { width }
  rw [hrun]
  exact ⟨_, Text.Utf8.decode_encode _, ((Draft.Aligned.initial width).run hs).column_eq⟩

/-- A tail that gets a backslash when it is moved, behind a margin put down in the middle of its
line. -/
theorem column_run_moved :
    (∀ s ∈ [Step.emit .prose "é -", .push "> ", .setWidth 3, .emit .prose "x"], s.staysAligned) ∧
    (({ width := 9 } : Writer).run [.emit .prose "é -", .push "> ", .setWidth 3,
      .emit .prose "x"]).column = 5 ∧
    ∃ text, Text.Utf8.decode (({ width := 9 } : Writer).run [.emit .prose "é -", .push "> ",
        .setWidth 3, .emit .prose "x"]).buffer.toList = .ok text ∧
      (({ width := 9 } : Writer).run [.emit .prose "é -", .push "> ", .setWidth 3,
        .emit .prose "x"]).column = (text.rtakeWhile (· ≠ '\n')).length := by
  have hsteps : ∀ s ∈ [Step.emit .prose "é -", .push "> ", .setWidth 3, .emit .prose "x"],
      s.staysAligned := by
    decide
  exact ⟨hsteps, by decide +kernel, column_run 9 hsteps⟩

end MarkdownLayout
