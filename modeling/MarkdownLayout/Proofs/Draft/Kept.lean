import MarkdownLayout.Proofs.Draft.Script

/-!
# What a draft keeps

What stands in front of the break point of a draft is written for good, `Draft.head_prefix_run`. All
that has been written comes to stand there once a break is paid, `Draft.text_prefix_head_flush`.
-/

namespace MarkdownLayout

namespace Draft

/-- What stands in front of the break point is the first part of the whole text. -/
theorem head_prefix_glyphs (d : Draft) : d.head <+: d.glyphs := by
  unfold glyphs
  split
  · exact List.prefix_append _ _
  · exact List.prefix_rfl

/-- A margin goes behind it: a line without its margin has no break point. -/
theorem head_prefix_openLine (d : Draft) : d.head <+: d.openLine.head := by
  unfold openLine
  split
  · exact List.prefix_append _ _
  · exact List.prefix_rfl

/-- Characters go behind it, to the tail or to the end of a solid line. -/
theorem head_prefix_append (escapes : Bool) (cs : List Char) (d : Draft) :
    d.head <+: (d.append escapes cs).head := by
  unfold append
  split
  · exact List.prefix_rfl
  · exact List.prefix_rfl
  · exact List.prefix_append _ _

/-- Behind a break point characters are written on probation, and nothing becomes fixed. -/
theorem head_append_of_loose {d : Draft} {tail : List Char} {first : Bool}
    (h : d.line = .loose tail first) (escapes : Bool) (cs : List Char) :
    (d.append escapes cs).head = d.head := by
  cases tail <;> simp [append, h]

/-- On a line without a break point they are written for good at once. -/
theorem head_append_of_not_loose {d : Draft} (h : ∀ tail first, d.line ≠ .loose tail first)
    (escapes : Bool) (cs : List Char) :
    (d.append escapes cs).head = d.head ++ Glyph.plain cs := by
  obtain ⟨width, head, line, segments, column, owed, keepsLines⟩ := d
  cases line with
  | loose tail first => exact absurd rfl (h tail first)
  | _ => rfl

/-- The end of a line fixes the tail with all that is in front of it. -/
theorem head_prefix_endLine (cs : List Char) (d : Draft) : d.head <+: (d.endLine cs).head :=
  d.head_prefix_glyphs.trans (List.prefix_append _ _)

/-- A new break point lies behind the former one, so what was fixed stays fixed. -/
theorem head_prefix_placeBlank (d : Draft) : d.head <+: d.placeBlank.head := by
  unfold placeBlank
  split
  · exact List.prefix_rfl
  · exact d.head_prefix_glyphs

/-- A break changes the blank at the break point and what follows, and nothing in front of it. -/
theorem head_prefix_settle (d : Draft) : d.head <+: d.settle.head := by
  rcases settle_cases d with ⟨tail, escapes, _, hs⟩ | ⟨hs, _⟩
  · rw [hs]
    exact List.prefix_append _ _
  · exact ⟨[], by rw [hs, List.append_nil]⟩

/-- The step of a span: margin, character and break all leave what stands in front of the break
point. -/
theorem head_prefix_put (policy : Policy) (c : Char) (next : Option Char) (d : Draft) :
    d.head <+: (d.put policy c next).head := by
  refine d.head_prefix_openLine.trans (List.IsPrefix.trans ?_ (head_prefix_settle _))
  rcases place_cases policy c next d.openLine with ⟨_, hp⟩ | ⟨_, hp⟩ | ⟨_, hp⟩ <;> rw [hp]
  · exact head_prefix_placeBlank _
  · exact head_prefix_endLine _ _
  · exact head_prefix_append _ _ _

/-- A span keeps it as well, by induction on its characters. -/
theorem head_prefix_putAll (policy : Policy) (cs : List Char) (d : Draft) :
    d.head <+: (d.putAll policy cs).head := by
  induction cs generalizing d with
  | nil => exact List.prefix_rfl
  | cons c rest ih => exact (d.head_prefix_put policy c rest.head?).trans (ih _)

/-- Paying breaks ends the line, and what was fixed stays in front. -/
theorem head_prefix_flush (d : Draft) : d.head <+: d.flush.head := by
  unfold flush
  split
  · exact List.prefix_rfl
  · exact d.head_prefix_endLine _

/-- A line that goes on behind its break point is moved as a whole, or not at all. Once it has been
moved it stands below the margin, behind a backslash at most. -/
theorem settle_cases_of_loose {d : Draft} {tail : List Char} {first : Bool}
    (h : d.line = .loose tail first) (hne : tail ≠ []) :
    (d.settle.line = .solid ∧ ∃ guard, '\n' ∉ guard ∧ Glyph.chars d.settle.head =
      Glyph.chars d.head ++ '\n' :: (d.margin ++ guard ++ tail)) ∨ d.settle = d := by
  rcases d.settle_cases with ⟨tail', first', hl, hs⟩ | ⟨hs, _⟩
  · cases h.symm.trans hl
    refine .inl ⟨by rw [hs]; exact if_neg hne, _, newline_notMem_tailGuard first tail, ?_⟩
    simp [hs, rewind]
  · exact .inr hs

/-- No step changes what stands in front of the break point. Only spans, breaks and new lines write
at all. -/
theorem head_prefix_apply (s : Step) (d : Draft) : d.head <+: (d.apply s).head := by
  cases s with
  | emit policy span => exact d.head_prefix_flush.trans (head_prefix_putAll _ _ _)
  | owe owed =>
    have hhead : (d.apply (.owe owed)).head = d.head := by
      rcases d.apply_owe_cases owed with he | he <;> rw [he]
    exact ⟨[], by rw [hhead, List.append_nil]⟩
  | flush => exact d.head_prefix_flush
  | pop expected =>
    have hhead : (d.apply (.pop expected)).head = d.head := by
      rcases d.apply_pop_cases expected with he | he <;> rw [he]
      rfl
    exact ⟨[], by rw [hhead, List.append_nil]⟩
  | startLine => exact d.head_prefix_endLine []
  | push segment | keepLines on | setWidth width => exact List.prefix_rfl

/-- Nor does a run of steps. What has been fixed at one time comes first in the text at any later
one. -/
theorem head_prefix_run (steps : List Step) (d : Draft) : d.head <+: (d.run steps).head := by
  induction steps generalizing d with
  | nil => exact List.prefix_rfl
  | cons s steps ih => exact (d.head_prefix_apply s).trans (ih _)

/-- Owing a break writes nothing yet. -/
@[simp] theorem text_owe (owed : Owed) (d : Draft) : (d.owe owed).text = d.text := by
  unfold owe
  split <;> rfl

/-- A break is owed if one was owed before or is owed now: of two the greater stays, and none is
forgiven. -/
theorem owed_owe_ne_nothing {owed : Owed} {d : Draft} (h : d.owed ≠ .nothing ∨ owed ≠ .nothing) :
    (d.owe owed).owed ≠ .nothing := by
  obtain ⟨width, head, line, segments, column, owed', keepsLines⟩ := d
  cases owed' <;> cases owed <;> simp_all [owe, Owed.level]

/-- Once breaks are paid, all that was written is written for good. Blocks owe breaks on both sides,
so no later block moves anything in an earlier one. -/
theorem text_prefix_head_flush {d : Draft} (h : d.owed ≠ .nothing) :
    d.text <+: Glyph.chars d.flush.head := by
  rw [flush, if_neg h]
  show d.text <+: Glyph.chars (d.glyphs ++ _)
  rw [Glyph.chars_append]
  exact List.prefix_append _ _

end Draft

/-- The margins of scripts are on one line. A line end in a margin would begin lines that have
none. -/
theorem Step.newline_notMem_of_isScripted {segment : String} (h : (Step.push segment).isScripted) :
    '\n' ∉ segment.toList := by
  simp only [Step.isScripted, Bool.or_eq_true, decide_eq_true_eq, List.all_eq_true] at h
  rcases h with rfl | h
  · decide
  · exact fun hn => absurd (h '\n' hn) (by decide)

end MarkdownLayout
