import MarkdownLayout.Proofs.Draft.Basic

/-!
# Backslashes

A character gets a backslash for what stands around it, wherever it stands on a line, or because it
would open a block at the start of one. No character gets it for both reasons.
-/

namespace MarkdownLayout

/-- Whether a character between `prev` and `next` gets a backslash wherever it stands on a line. -/
def marked (prev : Option Char) (c : Char) (next : Option Char) : Bool :=
  c ∈ ['*', '_', '[', ']', '<', '>', '\\'] || (c = '&' && next.any Char.isAlpha) ||
    (c = '!' && next = some '[') || (c ∈ ['.', ')'] && prev.any Char.isDigit)

/-- A blank after a character counts as the end of the word. -/
theorem marked_blank (prev : Option Char) (c : Char) :
    marked prev c (some ' ') = marked prev c none := by
  have ha : Char.isAlpha ' ' = false := by decide
  simp [marked, ha]

/-- Of the character in front it only matters whether it is a digit. -/
theorem marked_congr {prev prev' : Option Char}
    (h : prev.any Char.isDigit = prev'.any Char.isDigit) (c : Char) (next : Option Char) :
    marked prev c next = marked prev' c next := by
  simp [marked, h]

/-- A character that is no digit in front of another counts as none. -/
theorem marked_of_not_digit {prev : Option Char} (h : prev.any Char.isDigit = false) (c : Char)
    (next : Option Char) : marked prev c next = marked none c next :=
  marked_congr (h.trans rfl) c next

/-- What opens a block is not marked within a line. -/
theorem marked_of_opensBlock {c : Char} (h : c ∈ Writer.opensBlock) (prev next : Option Char) :
    marked prev c next = false := by
  rcases Writer.eq_of_mem_opensBlock h with rfl | rfl | rfl | rfl <;> simp [marked]

namespace Draft

/-- A backslash is needed within a line, or for what would open a block. -/
theorem needsEscape_eq (d : Draft) (c : Char) (next : Option Char) :
    d.needsEscape c next =
      (marked d.text.getLast? c next || (decide (c ∈ Writer.opensBlock) && d.atLineStart)) := by
  unfold needsEscape
  by_cases ho : c ∈ Writer.opensBlock
  · have hm := marked_of_opensBlock ho d.text.getLast? next
    rcases Writer.eq_of_mem_opensBlock ho with rfl | rfl | rfl | rfl <;>
      simp [Writer.alwaysEscaped, Writer.opensBlock, hm]
  · rw [if_neg ho]
    by_cases ha : c ∈ Writer.alwaysEscaped
    · rw [if_pos ha]
      have : c ∈ ['*', '_', '[', ']', '<', '>', '\\'] := ha
      simp only [marked, this, decide_true, Bool.true_or]
    · rw [if_neg ha]
      have hn : c ∉ ['*', '_', '[', ']', '<', '>', '\\'] := ha
      by_cases hamp : c = '&'
      · simp [hamp, marked, Writer.opensBlock]
      · by_cases hbang : c = '!'
        · simp [hbang, marked, Writer.opensBlock]
        · by_cases hnum : c ∈ Writer.endsNumber
          · have : c ∈ ['.', ')'] := hnum
            simp only [marked, hn, ho, hamp, hbang, this, hnum]
            simp
          · have : c ∉ ['.', ')'] := hnum
            simp only [marked, hn, ho, hamp, hbang, this, hnum]
            simp

/-- A backslash stands in front of what is marked, or of what would open a block here. -/
theorem spelled_cases (escapes : Bool) (c : Char) (next : Option Char) (d : Draft) :
    ((escapes && marked d.text.getLast? c next) = true ∧ c ∉ Writer.opensBlock ∧
        d.spelled escapes c next = ['\\', c]) ∨
      ((escapes && marked d.text.getLast? c next) = false ∧ c ∈ Writer.opensBlock ∧
        d.atLineStart = true ∧ d.spelled escapes c next = ['\\', c]) ∨
      ((escapes && marked d.text.getLast? c next) = false ∧ d.spelled escapes c next = [c]) := by
  unfold spelled
  rw [needsEscape_eq]
  cases hm : escapes && marked d.text.getLast? c next with
  | true =>
    have ho : c ∉ Writer.opensBlock := fun ho => by simp [marked_of_opensBlock ho] at hm
    rw [Bool.and_or_distrib_left, hm]
    exact .inl ⟨rfl, ho, rfl⟩
  | false =>
    rw [Bool.and_or_distrib_left, hm, Bool.false_or]
    by_cases hs : (escapes && (decide (c ∈ Writer.opensBlock) && d.atLineStart)) = true
    · simp only [Bool.and_eq_true, decide_eq_true_eq] at hs
      exact .inr (.inl ⟨rfl, hs.2.1, hs.2.2, by simp [hs]⟩)
    · rw [if_neg hs]
      exact .inr (.inr ⟨rfl, rfl⟩)

/-- The spelling of a character within a line. -/
theorem spelled_of_not_atLineStart {d : Draft} (h : d.atLineStart = false) (c : Char)
    (next : Option Char) :
    d.spelled true c next = if marked d.text.getLast? c next then ['\\', c] else [c] := by
  simp [spelled, needsEscape_eq, h]

end Draft

end MarkdownLayout
