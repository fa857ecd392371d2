import MarkdownLayout.Proofs.Draft.Script

/-!
# Drafts behind a text

A draft does not look far back: of what has been written it only knows whether there is anything,
and how the last line or two ended. Behind a text that ends with a blank line it therefore does what
it does at the start, and only the text in front is added. The main statement is `perform_behind`.
-/

namespace MarkdownLayout

/-- A text ends with a blank line. Behind such a text a block begins as it would on an empty
page. -/
def Glyph.EndsBlank (front : List Glyph) : Prop :=
  ['\n', '\n'] <:+ Glyph.chars front

namespace Draft

/-- A draft with a text in front of it. The state of its line, the column and all that is owed are
those of the draft. -/
def behind (front : List Glyph) (d : Draft) : Draft :=
  { d with head := front ++ d.head }

/-- The text in front comes before all that the draft has written, on both sides of its break
point. -/
@[simp] theorem glyphs_behind (front : List Glyph) (d : Draft) :
    (d.behind front).glyphs = front ++ d.glyphs := by
  obtain ⟨width, head, line, segments, column, owed, keepsLines⟩ := d
  cases line <;> simp [behind, glyphs]

/-- The same for the text as it reads. -/
@[simp] theorem text_behind (front : List Glyph) (d : Draft) :
    (d.behind front).text = Glyph.chars front ++ d.text := by
  simp [text]

/-- A margin is written without a look at the text, so the text in front makes no difference. -/
theorem openLine_behind (front : List Glyph) (d : Draft) :
    (d.behind front).openLine = d.openLine.behind front := by
  obtain ⟨width, head, line, segments, column, owed, keepsLines⟩ := d
  cases line <;> simp [behind, openLine, margin, indent]

/-- Whether a blank is dropped is a matter of the line, and the line is that of the draft. -/
theorem placeBlank_behind (front : List Glyph) (d : Draft) :
    (d.behind front).placeBlank = d.placeBlank.behind front := by
  have hg := glyphs_behind front d
  have hs : (d.behind front).atLineStart = d.atLineStart := rfl
  unfold placeBlank
  rw [hs, hg]
  split <;> rfl

/-- A line is ended at the end of the text, which the draft has. -/
theorem endLine_behind (front : List Glyph) (cs : List Char) (d : Draft) :
    (d.behind front).endLine cs = (d.endLine cs).behind front := by
  unfold endLine
  rw [glyphs_behind, List.append_assoc]
  rfl

/-- Characters go to the end of the text or behind the break point, and both are in the draft. -/
theorem append_behind (front : List Glyph) (escapes : Bool) (cs : List Char) (d : Draft) :
    (d.behind front).append escapes cs = (d.append escapes cs).behind front := by
  obtain ⟨width, head, line, segments, column, owed, keepsLines⟩ := d
  rcases line with _ | _ | _ | ⟨_ | ⟨t, tail⟩, first⟩ <;> simp [behind, append]

/-- A break moves the tail, which is in the draft. The text in front is not reached by it. -/
theorem settle_behind (front : List Glyph) (d : Draft) :
    (d.behind front).settle = d.settle.behind front := by
  obtain ⟨width, head, line, segments, column, owed, keepsLines⟩ := d
  cases line with
  | loose tail escapes =>
    by_cases hw : 0 < width ∧ width < column
    · simp [behind, settle, hw, rewind, margin, indent]
    · simp [behind, settle, hw]
  | _ => rfl

/-- What is owed does not depend on what has been written. -/
theorem owe_behind (front : List Glyph) (owed : Owed) (d : Draft) :
    (d.behind front).owe owed = (d.owe owed).behind front := by
  have ho : (d.behind front).owed = d.owed := rfl
  unfold owe
  rw [ho]
  split <;> rfl

section EndsBlank

variable {front : List Glyph} (h : Glyph.EndsBlank front)

include h

/-- There is something in front of the draft, and it has just ended a line. This is all that the
next characters see of it. -/
theorem getLast?_front : (Glyph.chars front).getLast? = some '\n' :=
  getLast?_of_pair_suffix h

/-- A digit is in front of a character only if the draft has written it, so the text in front calls
for no backslash and spares none. -/
theorem spelled_behind (escapes : Bool) (c : Char) (next : Option Char) (d : Draft) :
    (d.behind front).spelled escapes c next = d.spelled escapes c next := by
  have hdigit : (Glyph.chars front ++ d.text).getLast?.any Char.isDigit =
      d.text.getLast?.any Char.isDigit := by
    rw [List.getLast?_append]
    cases d.text.getLast? with
    | none =>
      rw [Option.none_or, getLast?_front h]
      decide
    | some c => rfl
  have hs : (d.behind front).atLineStart = d.atLineStart := rfl
  unfold spelled needsEscape
  rw [text_behind, hdigit, hs]

/-- A character behind the text is received as it is without it, the break that follows included. -/
theorem put_behind (policy : Policy) (c : Char) (next : Option Char) (d : Draft) :
    (d.behind front).put policy c next = (d.put policy c next).behind front := by
  unfold put
  rw [openLine_behind, ← settle_behind]
  congr 1
  unfold place
  split
  · exact placeBlank_behind front d.openLine
  · split
    · exact endLine_behind front ['\n'] d.openLine
    · rw [spelled_behind h, append_behind]

/-- So is a span, by induction on its characters. -/
theorem putAll_behind (policy : Policy) (cs : List Char) (d : Draft) :
    (d.behind front).putAll policy cs = (d.putAll policy cs).behind front := by
  induction cs generalizing d with
  | nil => rfl
  | cons c rest ih => rw [putAll, put_behind h, ih, putAll]

/-- Behind the text an empty page and the end of a line look the same, and the draft tells neither
from the other. -/
theorem endedLine_front_iff (cs : List Char) :
    (Glyph.chars front ++ cs = [] ∨ (Glyph.chars front ++ cs).getLast? = some '\n') ↔
      (cs = [] ∨ cs.getLast? = some '\n') := by
  have hlast := getLast?_front h
  cases hcs : cs.getLast? with
  | none =>
    rw [List.getLast?_eq_none_iff] at hcs
    simp [hcs, hlast]
  | some c =>
    have hne : cs ≠ [] := fun hn => by simp [hn] at hcs
    simp [List.getLast?_append, hcs, hne]

/-- Behind the text a single line end makes a blank line, as it does at the start of a page. With
fewer than two characters of its own the draft relies on the two in front. -/
theorem endedBlank_front_iff (cs : List Char) :
    (Glyph.chars front ++ cs = [] ∨ Glyph.chars front ++ cs = ['\n'] ∨
        ['\n', '\n'] <:+ Glyph.chars front ++ cs) ↔
      (cs = [] ∨ cs = ['\n'] ∨ ['\n', '\n'] <:+ cs) := by
  obtain ⟨before, hb⟩ := h
  have hnil : Glyph.chars front ++ cs ≠ [] := by simp [← hb]
  have hone : Glyph.chars front ++ cs ≠ ['\n'] := fun hn => by
    have hl := congrArg List.length hn
    simp [← hb] at hl
    omega
  simp only [hnil, hone, false_or]
  -- Read backwards, only the first two characters count.
  have hrev : (Glyph.chars front).reverse = '\n' :: '\n' :: before.reverse := by simp [← hb]
  have hsuffix : ∀ ds : List Char, ['\n', '\n'] <:+ ds ↔ ['\n', '\n'] <+: ds.reverse := fun ds => by
    rw [← List.reverse_prefix]
    rfl
  rw [hsuffix, hsuffix, List.reverse_append, hrev, ← List.reverse_eq_nil_iff]
  have hcs : cs = ['\n'] ↔ cs.reverse = ['\n'] := by
    rw [List.reverse_eq_iff]
    rfl
  rw [hcs]
  rcases cs.reverse with _ | ⟨a, _ | ⟨b, rest⟩⟩
  · simp
  · simp [eq_comm]
  · simp

/-- The start of a text and the end of a blank line call for the same breaks. This is where the
blank line at the end of the text is needed. -/
theorem breaksOwed_behind (d : Draft) : (d.behind front).breaksOwed = d.breaksOwed := by
  have ho : (d.behind front).owed = d.owed := rfl
  have hm : (d.behind front).margin = d.margin := rfl
  unfold breaksOwed
  rw [ho, hm, text_behind]
  cases d.owed with
  | nothing => rfl
  | lineEnd => simp only [endedLine_front_iff h]
  | blankLine =>
    simp only [endedBlank_front_iff h]
    split
    · rfl
    · rename_i hn
      have hne : d.text ≠ [] := fun he => hn (.inl he)
      have hlast : (Glyph.chars front ++ d.text).getLast? = d.text.getLast? := by
        rw [List.getLast?_append, List.getLast?_eq_some_getLast hne]
        rfl
      rw [hlast]

/-- The breaks paid behind the text are those that are paid without it. -/
theorem flush_behind (d : Draft) : (d.behind front).flush = d.flush.behind front := by
  have ho : (d.behind front).owed = d.owed := rfl
  unfold flush
  rw [ho, breaksOwed_behind h, endLine_behind]
  split <;> rfl

/-- A span with the breaks in front of it comes out the same behind the text. -/
theorem emit_behind (policy : Policy) (span : String) (d : Draft) :
    (d.behind front).emit policy span = (d.emit policy span).behind front := by
  rw [emit, flush_behind h, putAll_behind h]
  rfl

/-- A step behind the text is the step without it. Each kind of step has its lemma above, and the
rest touch neither text nor line. -/
theorem apply_behind (s : Step) (d : Draft) :
    (d.behind front).apply s = (d.apply s).behind front := by
  cases s with
  | emit policy span => exact emit_behind h policy span d
  | owe owed => exact owe_behind front owed d
  | flush => exact flush_behind h d
  | pop expected =>
    have hr : (d.behind front).refusal (.pop expected) = d.refusal (.pop expected) := rfl
    simp only [apply, hr]
    split <;> rfl
  | startLine => exact endLine_behind front [] d
  | push segment | keepLines on | setWidth width => rfl

/-- So are steps up to the first that is refused: a refusal depends on the margins only, and these
are the draft's. -/
theorem perform_behind (steps : List Step) (d : Draft) :
    (d.behind front).perform steps = (d.perform steps).map (behind front) := by
  induction steps generalizing d with
  | nil => rfl
  | cons s steps ih =>
    have hr : (d.behind front).refusal s = d.refusal s := by cases s <;> rfl
    rw [perform, perform, hr]
    cases d.refusal s with
    | some error => rfl
    | none =>
      dsimp only
      rw [apply_behind h, ih]

end EndsBlank

end Draft

end MarkdownLayout
