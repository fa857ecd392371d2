import Mathlib.Data.List.Infix
import MarkdownLayout.Proofs.Reachable

/-!
# What is written for good

A line may still be broken at its break point, and then all that stands behind it is moved. What
stands in front of it is written for good: the main statement is `committed_prefix_run`, by which
nothing that is ever done to a writer takes back or changes a committed octet, neither a break that
comes long after its break point was set nor one in another margin or at another width.

Nothing is assumed about the writer. Once its text has been handed over, its break point may lie
behind the end of the octets or inside a character, and a break there may end in an error with the
octets already moved; what is committed is kept in these cases too.
-/

namespace MarkdownLayout.Writer

/-- The octets that no break can move: those in front of the break point, and all when there is
none. -/
def committed (w : Writer) : List UInt8 :=
  match w.breakPoint with
  | some k => w.buffer.toList.take k
  | none => w.buffer.toList

/-- Behind the break point nothing is committed yet. -/
theorem committed_of_some {w : Writer} {k : Nat} (h : w.breakPoint = some k) :
    w.committed = w.buffer.toList.take k := by
  rw [committed, h]

/-- Without a break point all that has been written is written for good. -/
theorem committed_of_none {w : Writer} (h : w.breakPoint = none) :
    w.committed = w.buffer.toList := by
  rw [committed, h]

/-- What is committed is the first part of the octets, wherever the break point lies. -/
theorem committed_prefix_buffer (w : Writer) : w.committed <+: w.buffer.toList := by
  cases hk : w.breakPoint with
  | none => rw [committed_of_none hk]
  | some k =>
    rw [committed_of_some hk]
    exact List.take_prefix k w.buffer.toList

/-- Octets have been added behind the others, if any, and the break point has stayed where it was,
has been given up, or has been set behind all that was there. -/
structure Extended (w w' : Writer) : Prop where
  /-- The octets are still there. -/
  buffer : w.buffer.toList <+: w'.buffer.toList
  /-- A new break point is behind them. -/
  breakPoint : w'.breakPoint = w.breakPoint ∨ ∀ k, w'.breakPoint = some k → w.buffer.size ≤ k

namespace Extended

variable {w w' : Writer}

/-- A writer to which nothing has been done is extended by nothing. -/
theorem refl (w : Writer) : Extended w w :=
  ⟨List.prefix_rfl, .inl rfl⟩

/-- The octets and the break point are all that counts. Margins, width and breaks owed may change
freely. -/
theorem of_same (hb : w'.buffer = w.buffer) (hk : w'.breakPoint = w.breakPoint) : Extended w w' :=
  ⟨by rw [hb], .inl hk⟩

/-- A writer that begins a line gives up its break point, and with it everything is committed. -/
theorem of_breakPoint_none (hb : w.buffer.toList <+: w'.buffer.toList) (hk : w'.breakPoint = none) :
    Extended w w' := by
  refine ⟨hb, .inr fun k hs => ?_⟩
  rw [hk] at hs
  cases hs

/-- What an extended writer has committed begins with what was committed before. A break point that
stayed cuts both at one place, and a new one lies behind all that was there. -/
theorem keeps_committed (h : Extended w w') : w.committed <+: w'.committed := by
  rcases h.breakPoint with hsame | hbehind
  · cases hk : w.breakPoint with
    | none =>
      rw [committed_of_none hk, committed_of_none (hsame.trans hk)]
      exact h.buffer
    | some k =>
      rw [committed_of_some hk, committed_of_some (hsame.trans hk)]
      exact h.buffer.take k
  · refine w.committed_prefix_buffer.trans ?_
    cases hk : w'.breakPoint with
    | none =>
      rw [committed_of_none hk]
      exact h.buffer
    | some k =>
      -- All that was there stands in front of the new break point.
      have hlength : w.buffer.toList.length ≤ k := hbehind k hk
      rw [committed_of_some hk, ← List.take_of_length_le hlength]
      exact h.buffer.take k

/-- A margin is added at the end, and the break point stays. -/
theorem openLine (w : Writer) : Extended w w.openLine := by
  unfold Writer.openLine
  split
  · refine ⟨?_, .inl rfl⟩
    rw [Array.toList_append]
    exact List.prefix_append _ _
  · exact refl w

/-- A breakable blank sets the break point in front of itself, behind all the octets that were
there. -/
theorem placeBlank (w : Writer) : Extended w w.placeBlank := by
  unfold Writer.placeBlank
  split
  · exact refl w
  · refine ⟨?_, .inr fun k hk => ?_⟩
    · rw [Array.toList_push]
      exact List.prefix_append _ _
    · cases hk
      exact Nat.le_refl _

/-- A new line is begun without an octet, and takes the break point away. -/
theorem startLine (w : Writer) : Extended w w.startLine :=
  of_breakPoint_none List.prefix_rfl rfl

/-- A line end is an octet at the end, and takes the break point away. -/
theorem placeNewline (w : Writer) : Extended w w.placeNewline := by
  refine of_breakPoint_none ?_ rfl
  show w.buffer.toList <+: (w.buffer.push newline).toList
  rw [Array.toList_push]
  exact List.prefix_append _ _

/-- A character is added with the backslash that it needs, and leaves the break point where it
is. -/
theorem placeGlyph (escapes : Bool) (c : Char) (next : Option Char) (w : Writer) :
    Extended w (w.placeGlyph escapes c next) := by
  unfold Writer.placeGlyph
  dsimp only
  refine ⟨?_, .inl rfl⟩
  cases escapes && w.needsEscape c next <;> simp [List.append_assoc]

/-- A character is received in one of the three ways above. -/
theorem place (policy : Policy) (c : Char) (next : Option Char) (w : Writer) :
    Extended w (w.place policy c next) := by
  unfold Writer.place
  split
  · exact placeBlank w
  · split
    · exact placeNewline w
    · exact placeGlyph policy.escapes c next w

/-- Breaks are added at the end, and take the break point away. -/
theorem flush (w : Writer) : Extended w w.flush := by
  unfold Writer.flush
  split
  · exact refl w
  · refine of_breakPoint_none ?_ rfl
    show w.buffer.toList <+: (w.buffer ++ w.breaksOwed).toList
    rw [Array.toList_append]
    exact List.prefix_append _ _

/-- Owing a break touches neither the octets nor the break point. -/
theorem owe (owed : Owed) (w : Writer) : Extended w (w.owe owed) := by
  unfold Writer.owe
  split
  · exact of_same rfl rfl
  · exact refl w

/-- A margin is taken back, or refused with the writer as it was, and no octet is touched. -/
theorem pop (expected : Option String) (w : Writer) : Extended w ((Step.pop expected).after w) := by
  rcases after_pop_cases expected w with he | ⟨outer, top, _, he⟩ <;> rw [he]
  · exact refl w
  · exact of_same rfl rfl

end Extended

/-- A break keeps what stands in front of the break point, also where it ends in an error and the
break point stays. -/
theorem Broken.keeps_committed {k : Nat} {w w' : Writer} (hk : w.breakPoint = some k)
    (h : Broken k w w') : w.committed <+: w'.committed := by
  obtain ⟨guard, _, hbuffer⟩ := h.buffer
  rw [committed_of_some hk]
  rcases h.breakPoint with hnone | ⟨hsome, _, hlt⟩
  · rw [committed_of_none hnone, hbuffer]
    exact List.prefix_append _ _
  · have hlength : (w.buffer.toList.take k).length = k := by
      rw [List.length_take, Array.length_toList]
      omega
    rw [committed_of_some hsome, hbuffer, List.take_left' hlength]

/-- A line that becomes too long is broken at its break point or left alone. Neither reaches what is
committed. -/
theorem committed_prefix_settle (w : Writer) : w.committed <+: (w.leftBy settle).committed := by
  rcases leftBy_settle_cases w with hs | ⟨k, hk, hbroken⟩
  · rw [hs]
  · exact hbroken.keeps_committed hk

/-- The step of a span: what was committed outlasts the margin, the character and the break that it
brings about, in this order. -/
theorem committed_prefix_put (policy : Policy) (c : Char) (next : Option Char) (w : Writer) :
    w.committed <+: (w.leftBy (put policy c next)).committed :=
  calc w.committed
    _ <+: w.openLine.committed := (Extended.openLine w).keeps_committed
    _ <+: (w.openLine.place policy c next).committed :=
      (Extended.place policy c next w.openLine).keeps_committed
    _ <+: (w.leftBy (put policy c next)).committed :=
      committed_prefix_settle (w.openLine.place policy c next)

/-- What a step keeps, whether or not it is refused. A span that ends in an error has written some
of its characters, and keeps as much. -/
theorem committed_prefix_after (s : Step) (w : Writer) : w.committed <+: (s.after w).committed := by
  cases s with
  | emit policy span =>
    rw [after_emit]
    refine leftBy_putAll (P := fun w' => w.committed <+: w'.committed) ?_ _
      (Extended.flush w).keeps_committed
    exact fun c next w' hw => hw.trans (committed_prefix_put _ c next w')
  | owe owed => exact (Extended.owe owed w).keeps_committed
  | flush => exact (Extended.flush w).keeps_committed
  | pop expected => exact (Extended.pop expected w).keeps_committed
  | startLine => exact (Extended.startLine w).keeps_committed
  | push segment | keepLines on | setWidth width =>
    exact (Extended.of_same rfl rfl).keeps_committed

/-- Whatever is done to a writer, what was committed comes first in what is committed then. The
steps may be refused, and the writer may be in any state. -/
theorem committed_prefix_run (w : Writer) (steps : List Step) :
    w.committed <+: (w.run steps).committed := by
  induction steps generalizing w with
  | nil => exact List.prefix_rfl
  | cons s steps ih => exact (committed_prefix_after s w).trans (ih (s.after w))

/-- The rest of the text may be moved: here a blank becomes a line end. -/
example :
    (({ width := 4 } : Writer).run [.emit .prose "ab c"]).buffer =
      (Text.Utf8.octets "ab c").toArray ∧
    (({ width := 4 } : Writer).run [.emit .prose "ab c"]).committed = Text.Utf8.octets "ab" ∧
    (({ width := 4 } : Writer).run [.emit .prose "ab c", .emit .prose "de"]).buffer =
      (Text.Utf8.octets "ab\ncde").toArray := by
  refine ⟨?_, ?_, ?_⟩ <;> decide +kernel

end MarkdownLayout.Writer
