import MarkdownLayout.Proofs.Signs

/-!
# Spans in parts

A span may be written in two parts: the writer is left as if it had been written at once. Three
seams are to be avoided, as the writer looks at two neighbours of the same span there. A run of
blanks counts as one, an ampersand is escaped in front of a letter, and an exclamation mark in front
of a bracket. The main statement is `emit_append`.

A line may be broken right at the seam. That needs no care, as the tail that is moved belongs to the
writer and not to the span.
-/

namespace MarkdownLayout

/-- A span may be cut between two parts: no run of blanks is cut, and no two characters of which the
first is escaped because of the second. -/
structure Seamless (front back : List Char) : Prop where
  /-- No run of blanks is cut. -/
  blanks : ¬ (front.getLast? = some ' ' ∧ back.head? = some ' ')
  /-- No ampersand is cut from a letter. -/
  entity : front.getLast? = some '&' → ¬ back.head?.any Char.isAlpha
  /-- No exclamation mark is cut from a bracket. -/
  image : front.getLast? = some '!' → back.head? ≠ some '['

/-- What stands behind a seam does not count for the character in front of it. -/
theorem Seamless.marked_eq {front back : List Char} (h : Seamless front back) {c : Char}
    (hc : front.getLast? = some c) (prev : Option Char) :
    marked prev c back.head? = marked prev c none := by
  have hentity : (c = '&' && back.head?.any Char.isAlpha) = false := by
    by_cases hamp : c = '&'
    · have hletter := h.entity (hamp ▸ hc)
      simpa [hamp] using hletter
    · simp [hamp]
  have himage : (c = '!' && back.head? = some '[') = false := by
    by_cases hbang : c = '!'
    · have hbracket := h.image (hbang ▸ hc)
      simpa [hbang] using hbracket
    · simp [hbang]
  simp [marked, hentity, himage]

namespace Writer

/-- What is dropped from the second part depends on the last character of the first. -/
theorem squeezeAfter_append (after : Bool) (front back : List Char) :
    squeezeAfter after (front ++ back) =
      squeezeAfter after front ++
        squeezeAfter (front.getLast?.elim after fun c => c = ' ') back := by
  induction front generalizing after with
  | nil => rfl
  | cons c rest ih =>
    have hlast : ∀ blank, ((c :: rest).getLast?.elim blank fun e => decide (e = ' ')) =
        rest.getLast?.elim (decide (c = ' ')) fun e => decide (e = ' ') := by
      intro blank
      rw [List.getLast?_cons]
      cases rest.getLast? <;> rfl
    rw [List.cons_append, squeezeAfter, squeezeAfter, hlast]
    by_cases hc : c = ' '
    · cases after <;> simp [hc, ih]
    · simp [hc, ih]

theorem squeezeAfter_of_head? {cs : List Char} (h : cs.head? ≠ some ' ') (after : Bool) :
    squeezeAfter after cs = squeezeAfter false cs := by
  cases cs with
  | nil => rfl
  | cons c rest =>
    have hc : c ≠ ' ' := fun he => h (by rw [he, List.head?_cons])
    rw [squeezeAfter, squeezeAfter, if_neg hc, if_neg hc]

/-- Runs of blanks are made one on either side of a seam. -/
theorem squeeze_append {front back : List Char} (h : Seamless front back) :
    squeeze (front ++ back) = squeeze front ++ squeeze back := by
  unfold squeeze
  rw [squeezeAfter_append]
  by_cases hblank : front.getLast? = some ' '
  · rw [squeezeAfter_of_head? fun hb => h.blanks ⟨hblank, hb⟩]
  · cases hlast : front.getLast? with
    | none => rfl
    | some c =>
      have hc : c ≠ ' ' := fun he => hblank (by rw [hlast, he])
      simp [hc]

end Writer

/-- Runs of blanks that are made one leave the seam as it is. -/
theorem Seamless.squeeze {front back : List Char} (h : Seamless front back) :
    Seamless (Writer.squeeze front) (Writer.squeeze back) := by
  have hlast : (Writer.squeeze front).getLast? = front.getLast? :=
    (Writer.getLast?_squeezeAfter front).1
  have hhead := Writer.head?_squeeze back
  exact ⟨by rw [hlast, hhead]; exact h.blanks, by rw [hlast, hhead]; exact h.entity,
    by rw [hlast, hhead]; exact h.image⟩

namespace Draft

/-- A character is written alike where what follows it does not count for it. -/
theorem put_congr {c : Char} {next next' : Option Char}
    (h : ∀ prev, marked prev c next = marked prev c next') (policy : Policy) (d : Draft) :
    d.put policy c next = d.put policy c next' := by
  have hspelled : ∀ e : Draft, e.spelled policy.escapes c next =
      e.spelled policy.escapes c next' := by
    intro e
    rw [spelled, spelled, needsEscape_eq, needsEscape_eq, h]
  rw [put, put, place, place, hspelled]

/-- Characters are written one after the other, so they may be written in two parts. -/
theorem putAll_append {front back : List Char} (h : Seamless front back) (policy : Policy)
    (d : Draft) :
    d.putAll policy (front ++ back) = (d.putAll policy front).putAll policy back := by
  induction front generalizing d with
  | nil => rfl
  | cons c rest ih =>
    cases rest with
    | nil =>
      -- the last character in front of the seam
      have hput : d.put policy c back.head? = d.put policy c none :=
        put_congr (h.marked_eq rfl) policy d
      rw [List.singleton_append, putAll, hput]
      rfl
    | cons e rest =>
      have hrest : Seamless (e :: rest) back := ⟨h.blanks, h.entity, h.image⟩
      exact ih hrest (d.put policy c (some e))

/-- What has just been written owes nothing. -/
theorem flush_putAll_flush (policy : Policy) (cs : List Char) (d : Draft) :
    (d.flush.putAll policy cs).flush = d.flush.putAll policy cs := by
  refine if_pos ?_
  rw [owed_of_frame (frame_putAll policy cs d.flush), owed_flush]

/-- A span may be written in two parts. -/
theorem emit_emit {front back : String} (h : Seamless front.toList back.toList) (policy : Policy)
    (d : Draft) :
    (d.emit policy front).emit policy back = d.emit policy (front ++ back) := by
  have hpolicy : (d.emit policy front).effective policy = d.effective policy := by
    rw [effective, effective, emit, keepsLines_of_frame (frame_putAll _ _ d.flush),
      keepsLines_flush]
  have hflush : (d.emit policy front).flush = d.emit policy front := flush_putAll_flush _ _ d
  have hchars : charsOf (d.effective policy) (front ++ back) =
        charsOf (d.effective policy) front ++ charsOf (d.effective policy) back ∧
      Seamless (charsOf (d.effective policy) front) (charsOf (d.effective policy) back) := by
    unfold charsOf
    rw [String.toList_append]
    split
    · exact ⟨Writer.squeeze_append h, h.squeeze⟩
    · exact ⟨rfl, h⟩
  rw [emit.eq_1 policy back, hpolicy, hflush, emit.eq_1 policy front,
    emit.eq_1 policy (front ++ back), hchars.1, putAll_append hchars.2]

end Draft

/-- Whatever has been done to a writer, a span that is written in two parts leaves it as the span
that is written at once does, in every field, and neither fails. -/
theorem emit_append (width : Int) (steps : List Step) (policy : Policy) {front back : String}
    (h : Seamless front.toList back.toList) :
    ∃ w, Writer.emit policy (front ++ back) (({ width } : Writer).run steps) = .ok () w ∧
      (do Writer.emit policy front; Writer.emit policy back : Writing Unit)
        (({ width } : Writer).run steps) = .ok () w := by
  have hrun : ({ width } : Writer).run steps = (({ width } : Draft).run steps).toWriter :=
    Draft.run_toWriter steps { width }
  generalize ({ width } : Draft).run steps = d at hrun
  rw [hrun]
  refine ⟨(d.emit policy (front ++ back)).toWriter, Draft.emit_toWriter policy _ d, ?_⟩
  rw [bind_of_ok (Draft.emit_toWriter policy front d), Draft.emit_toWriter, Draft.emit_emit h]

/-- A line in a quotation that becomes too long with the first character behind the seam: the tail
that is moved was begun in front of it. -/
theorem emit_append_broken :
    Seamless " -".toList "cd".toList ∧
    ∃ w, Writer.emit .prose (" -" ++ "cd")
        (({ width := 6 } : Writer).run [.push "> ", .emit .prose "ab"]) = .ok () w ∧
      (do Writer.emit .prose " -"; Writer.emit .prose "cd" : Writing Unit)
        (({ width := 6 } : Writer).run [.push "> ", .emit .prose "ab"]) = .ok () w ∧
      w.buffer = (Text.Utf8.octets "> ab\n> \\-cd").toArray := by
  have hseam : Seamless " -".toList "cd".toList := ⟨by decide, by decide, by decide⟩
  obtain ⟨w, honce, hparts⟩ := emit_append 6 [.push "> ", .emit .prose "ab"] .prose hseam
  have hbuffer : ((Step.emit .prose (" -" ++ "cd")).after
      (({ width := 6 } : Writer).run [.push "> ", .emit .prose "ab"])).buffer =
        (Text.Utf8.octets "> ab\n> \\-cd").toArray := by decide +kernel
  rw [Step.after, Step.act, honce] at hbuffer
  exact ⟨hseam, w, honce, hparts, hbuffer⟩

/-- None of the three conditions can be left out. -/
example : ∀ parts ∈ [("a ", " b"), ("&", "a"), ("!", "[")],
    ({} : Writer).run [.emit .prose parts.1, .emit .prose parts.2] ≠
      ({} : Writer).run [.emit .prose (parts.1 ++ parts.2)] := by decide

end MarkdownLayout
