import MarkdownLayout.Proofs.Draft.Lines
import MarkdownLayout.Proofs.Draft.Script

/-!
# Long lines cannot be broken

A line is longer than the width only if it holds no blank at which it might have been broken. The
blanks that count are those that were written as breakable ones, whatever has been done to the
margins since. The main statement is `not_breakable_of_width_lt`.

A line may be too long for the moment between a character and the break that it calls for. Therefore
there are two invariants, `Fits` between characters and the weaker `Pending` in the middle of one.
-/

namespace MarkdownLayout

/-- A line within the limit, or without a place where it may be broken. -/
def Kept (limit : Nat) (line : List Glyph) : Prop :=
  limit < line.length → ∀ g ∈ line, g.breakable = false

theorem kept_of_length_le {limit : Nat} {line : List Glyph} (h : line.length ≤ limit) :
    Kept limit line :=
  fun hl => absurd hl (Nat.not_lt.mpr h)

theorem kept_plain (limit : Nat) (cs : List Char) : Kept limit (Glyph.plain cs) :=
  fun _ _ hg => Glyph.not_breakable_of_mem_plain hg

/-- Whether a step leaves the width as it is. -/
def Step.keepsWidth : Step → Bool
  | .setWidth _ => false
  | _ => true

namespace Draft

/-- All lines are kept but for the current one, which may have to be broken. -/
structure Pending (limit : Nat) (d : Draft) : Prop where
  /-- The column tells the length of the current line. -/
  aligned : d.Aligned
  /-- Lines are broken at the limit. -/
  width : d.width = limit
  /-- The closed lines are kept. -/
  closed : ∀ line ∈ Glyph.closed d.glyphs, Kept limit line
  /-- Without a break point there is no breakable blank on the line. -/
  rigid : (∀ tail escapes, d.line ≠ .loose tail escapes) →
    ∀ g ∈ Glyph.current d.glyphs, g.breakable = false
  /-- With a break point what stands before it is kept. -/
  head : ∀ tail escapes, d.line = .loose tail escapes → Kept limit (Glyph.current d.head)

/-- All lines are kept. -/
structure Fits (limit : Nat) (d : Draft) : Prop extends d.Pending limit where
  /-- A line that has a break point is within the limit. -/
  short : ∀ tail escapes, d.line = .loose tail escapes → d.column ≤ limit

/-- A line with a break point is the part before it, the blank and the tail. -/
theorem Aligned.lines_of_loose {d : Draft} (h : d.Aligned) {tail : List Char} {escapes : Bool}
    (hl : d.line = .loose tail escapes) :
    Glyph.closed d.glyphs = Glyph.closed d.head ∧
      Glyph.current d.glyphs = Glyph.current d.head ++ Glyph.joint :: Glyph.plain tail := by
  have hg : d.glyphs = d.head ++ Glyph.joint :: Glyph.plain tail := by simp [glyphs, hl]
  have hfree : Glyph.Unbroken (Glyph.joint :: Glyph.plain tail) :=
    List.forall_mem_cons.mpr ⟨by decide, Glyph.unbroken_plain (h.tail tail escapes hl)⟩
  rw [hg]
  exact ⟨Glyph.closed_append hfree d.head, Glyph.current_append hfree d.head⟩

namespace Pending

variable {limit : Nat} {d : Draft}

/-- Characters do not move the break point. -/
theorem append (h : d.Pending limit) {cs : List Char} (hcs : '\n' ∉ cs) (escapes : Bool) :
    (d.append escapes cs).Pending limit := by
  have hfree := Glyph.unbroken_plain hcs
  refine ⟨h.aligned.append hcs escapes, ?_, ?_, ?_, ?_⟩
  · exact (width_of_frame (frame_append escapes cs d)).trans h.width
  · rw [glyphs_append, Glyph.closed_append hfree]
    exact h.closed
  · intro hn
    have hd : ∀ tail first, d.line ≠ .loose tail first := fun tail first hl =>
      hn _ _ (line_append_of_loose hl escapes cs)
    rw [glyphs_append, Glyph.current_append hfree]
    exact List.forall_mem_append.mpr ⟨h.rigid hd, fun g hg => Glyph.not_breakable_of_mem_plain hg⟩
  · intro tail first hl
    cases hd : d.line with
    | loose tail' first' =>
      have hh : (d.append escapes cs).head = d.head := by cases tail' <;> simp [Draft.append, hd]
      rw [hh]
      exact h.head tail' first' hd
    | _ =>
      rw [line_append_of_not_loose (by simp [hd])] at hl
      cases hl

/-- A tail that is moved leaves lines that are kept. -/
theorem rewind (h : d.Pending limit) {tail : List Char} {escapes : Bool}
    (hl : d.line = .loose tail escapes) : (d.rewind tail escapes).Fits limit := by
  have ht := h.aligned.tail tail escapes hl
  have hfree : '\n' ∉ d.margin ++ (tailGuard escapes tail ++ tail) := by
    simp [h.aligned.newline_notMem_margin, newline_notMem_tailGuard, ht]
  have hunbroken := Glyph.unbroken_plain hfree
  have hline := line_rewind_ne_loose tail escapes d
  refine ⟨⟨h.aligned.rewind ht escapes, h.width, ?_, fun _ => ?_, ?_⟩, ?_⟩
  · rw [glyphs_rewind, Glyph.plain_cons, Glyph.closed_append_break hunbroken,
      ← Glyph.closed_append_current, ← (h.aligned.lines_of_loose hl).1]
    refine List.forall_mem_append.mpr ⟨h.closed, ?_⟩
    intro line hm
    rw [List.mem_singleton.mp hm]
    exact h.head tail escapes hl
  · rw [glyphs_rewind, Glyph.plain_cons, Glyph.current_append_break hunbroken]
    exact fun g hg => Glyph.not_breakable_of_mem_plain hg
  · exact fun tail' escapes' hn => absurd hn (hline tail' escapes')
  · exact fun tail' escapes' hn => absurd hn (hline tail' escapes')

/-- A line that is too long is broken if it can be. -/
theorem settle (hw : 1 ≤ limit) (h : d.Pending limit) : d.settle.Fits limit := by
  rcases settle_cases d with ⟨tail, escapes, hl, hs⟩ | ⟨hs, hshort⟩ <;> rw [hs]
  · exact h.rewind hl
  · refine ⟨h, fun tail escapes hl => ?_⟩
    have hwidth := h.width
    have hfits := hshort tail escapes hl
    omega

end Pending

namespace Fits

variable {limit : Nat} {d : Draft}

/-- Every line is kept, the current one included. -/
theorem kept_current (h : d.Fits limit) : Kept limit (Glyph.current d.glyphs) := by
  cases hl : d.line with
  | loose tail escapes =>
    refine kept_of_length_le ?_
    rw [← h.aligned.column]
    exact h.short tail escapes hl
  | _ => exact fun _ => h.rigid (by simp [hl])

theorem kept (h : d.Fits limit) : ∀ line ∈ Glyph.lines d.glyphs, Kept limit line := by
  rw [← Glyph.closed_append_current]
  refine List.forall_mem_append.mpr ⟨h.closed, ?_⟩
  intro line hm
  rw [List.mem_singleton.mp hm]
  exact h.kept_current

/-- The margin of a line fits. -/
theorem openLine (h : d.Fits limit) : d.openLine.Fits limit := by
  by_cases hf : d.line = .fresh
  · have hfree := Glyph.unbroken_plain h.aligned.newline_notMem_margin
    have hline : ∀ tail escapes, d.openLine.line ≠ .loose tail escapes := by
      simp [Draft.openLine, hf]
    have hwidth := width_of_frame (frame_openLine d)
    refine ⟨⟨h.aligned.openLine, hwidth.trans h.width, ?_, fun _ => ?_, ?_⟩, ?_⟩
    · rw [glyphs_openLine_of_fresh hf, Glyph.closed_append hfree]
      exact h.closed
    · rw [glyphs_openLine_of_fresh hf, Glyph.current_append hfree, h.aligned.fresh hf]
      exact fun g hg => Glyph.not_breakable_of_mem_plain hg
    · exact fun tail escapes hl => absurd hl (hline tail escapes)
    · exact fun tail escapes hl => absurd hl (hline tail escapes)
  · rw [openLine_of_ne_fresh hf]
    exact h

/-- A breakable blank stands behind a line that is kept. -/
theorem placeBlank (h : d.Fits limit) : d.placeBlank.Pending limit := by
  cases hs : d.atLineStart with
  | true =>
    rw [placeBlank_of_atLineStart hs]
    exact h.toPending
  | false =>
    have hwidth := width_of_frame (frame_placeBlank d)
    refine ⟨h.aligned.placeBlank, hwidth.trans h.width, ?_, ?_, ?_⟩
    · rw [glyphs_placeBlank hs, Glyph.closed_append Glyph.unbroken_joint]
      exact h.closed
    · exact fun hn => absurd (line_placeBlank hs) (hn [] false)
    · intro tail escapes _
      rw [placeBlank_of_begun hs]
      exact h.kept_current

/-- A line that is ended is kept. -/
theorem endLine (h : d.Fits limit) {cs : List Char} (ha : (d.endLine cs).Aligned)
    (hc : ∀ line ∈ Glyph.closed (d.glyphs ++ Glyph.plain cs), Kept limit line) :
    (d.endLine cs).Fits limit := by
  refine ⟨⟨ha, h.width, hc, fun _ => ?_, ?_⟩, ?_⟩
  · rw [ha.fresh rfl]
    exact fun g hg => absurd hg List.not_mem_nil
  · exact fun _ _ hl => by cases hl
  · exact fun _ _ hl => by cases hl

/-- A line end in a text closes a line that is kept. -/
theorem endLine_newline (h : d.Fits limit) : (d.endLine ['\n']).Fits limit := by
  refine h.endLine (h.aligned.endLine (Glyph.current_append_break Glyph.unbroken_nil _ false)) ?_
  have hc : Glyph.closed (d.glyphs ++ Glyph.plain ['\n']) = Glyph.lines d.glyphs :=
    Glyph.closed_append_break Glyph.unbroken_nil d.glyphs false
  rw [hc]
  exact h.kept

/-- One more character keeps all lines. -/
theorem put (hw : 1 ≤ limit) (h : d.Fits limit) (policy : Policy) (c : Char) (next : Option Char) :
    (d.put policy c next).Fits limit := by
  have ho := h.openLine
  refine Pending.settle hw ?_
  rcases place_cases policy c next d.openLine with ⟨_, hp⟩ | ⟨_, hp⟩ | ⟨hc, hp⟩ <;> rw [hp]
  · exact ho.placeBlank
  · exact ho.endLine_newline.toPending
  · exact ho.toPending.append (newline_notMem_spelled hc _ _ _) _

theorem putAll (hw : 1 ≤ limit) (h : d.Fits limit) (policy : Policy) (cs : List Char) :
    (d.putAll policy cs).Fits limit := by
  induction cs generalizing d with
  | nil => exact h
  | cons c rest ih => exact ih (h.put hw policy c rest.head?)

/-- The breaks owed close lines that are kept: the current one, if anything stands on it, and one
that holds a margin only. -/
theorem closed_breaksOwed (h : d.Fits limit) (ho : d.owed ≠ .nothing) :
    ∀ line ∈ Glyph.closed (d.glyphs ++ Glyph.plain d.breaksOwed), Kept limit line := by
  have hmargin := Glyph.unbroken_plain h.aligned.newline_notMem_margin
  have hend : ∀ gs cs, Glyph.closed (gs ++ Glyph.plain (cs ++ ['\n'])) =
      Glyph.lines (gs ++ Glyph.plain cs) := fun gs cs => by
    rw [Glyph.plain_append, ← List.append_assoc]
    exact Glyph.closed_append_break Glyph.unbroken_nil _ false
  rcases breaksOwed_cases ho with ⟨ht, hb | hb⟩ | ⟨_, hb | hb⟩ <;> rw [hb]
  · rw [Glyph.plain_nil, List.append_nil]
    exact h.closed
  · rw [hend, Glyph.lines_append hmargin, Glyph.current_eq_nil ht, List.nil_append]
    refine List.forall_mem_append.mpr ⟨h.closed, ?_⟩
    exact List.forall_mem_singleton.mpr (kept_plain limit d.margin)
  · rw [show ['\n'] = [] ++ ['\n'] from rfl, hend, Glyph.plain_nil, List.append_nil]
    exact h.kept
  · rw [← List.cons_append, hend, Glyph.plain_cons, Glyph.lines_append_break,
      Glyph.lines_of_unbroken hmargin]
    refine List.forall_mem_append.mpr ⟨h.kept, ?_⟩
    exact List.forall_mem_singleton.mpr (kept_plain limit d.margin)

theorem flush (h : d.Fits limit) : d.flush.Fits limit := by
  have ha := h.aligned.flush
  unfold Draft.flush at ha ⊢
  split
  · exact h
  · rename_i ho
    rw [if_neg ho] at ha
    have he : (d.endLine d.breaksOwed).Fits limit :=
      h.endLine ⟨ha.margins, ha.column, ha.fresh, ha.tail⟩ (h.closed_breaksOwed ho)
    exact ⟨⟨ha, he.width, he.closed, he.rigid, he.head⟩, he.short⟩

/-- What a step keeps. -/
theorem apply (hw : 1 ≤ limit) (h : d.Fits limit) {s : Step} (hs : s.staysAligned)
    (hk : s.keepsWidth) : (d.apply s).Fits limit := by
  have ha := h.aligned.apply hs
  cases s with
  | emit policy span => exact h.flush.putAll hw _ _
  | flush => exact h.flush
  | owe owed =>
    rcases d.apply_owe_cases owed with he | he <;> rw [he] at ha ⊢
    · exact ⟨⟨ha, h.width, h.closed, h.rigid, h.head⟩, h.short⟩
    · exact h
  | push segment => exact ⟨⟨ha, h.width, h.closed, h.rigid, h.head⟩, h.short⟩
  | pop expected =>
    rcases d.apply_pop_cases expected with he | he <;> rw [he] at ha ⊢
    · exact ⟨⟨ha, h.width, h.closed, h.rigid, h.head⟩, h.short⟩
    · exact h
  | keepLines on => exact ⟨⟨ha, h.width, h.closed, h.rigid, h.head⟩, h.short⟩
  | startLine => cases hs
  | setWidth width => cases hk

/-- What a run keeps. -/
theorem run (hw : 1 ≤ limit) (h : d.Fits limit) {steps : List Step}
    (hs : ∀ s ∈ steps, s.staysAligned ∧ s.keepsWidth) : (d.run steps).Fits limit := by
  induction steps generalizing d with
  | nil => exact h
  | cons s steps ih =>
    obtain ⟨hfirst, hrest⟩ := List.forall_mem_cons.mp hs
    exact ih (h.apply hw hfirst.1 hfirst.2) hrest

/-- A draft without text fits. -/
theorem initial (limit : Nat) : ({ width := limit } : Draft).Fits limit where
  aligned := Aligned.initial limit
  width := rfl
  closed := fun _ hm => absurd hm List.not_mem_nil
  rigid := fun _ _ hg => absurd hg List.not_mem_nil
  head := fun _ _ hl => by cases hl
  short := fun _ _ hl => by cases hl

end Fits

end Draft

/-- A step of a script leaves lines to the writer and the width as it is. -/
theorem Step.staysAligned_of_isScripted {s : Step} (h : s.isScripted) :
    s.staysAligned ∧ s.keepsWidth := by
  cases s with
  | push segment =>
    refine ⟨?_, rfl⟩
    rcases Bool.or_eq_true_iff.mp h with hq | hb
    · rw [of_decide_eq_true hq]
      rfl
    · refine List.all_eq_true.mpr fun c hc => ?_
      have hblank := of_decide_eq_true (List.all_eq_true.mp hb c hc)
      rw [hblank]
      rfl
  | startLine | setWidth width => cases h
  | _ => exact ⟨rfl, rfl⟩

/-- A line longer than the width holds no blank that was written as a breakable one. This is so
after every run of a writer with a fixed width and plain margins, and for the text of every tree. -/
theorem not_breakable_of_width_lt (width : Nat) (hw : 1 ≤ width) :
    (∀ steps : List Step, (∀ s ∈ steps, s.staysAligned ∧ s.keepsWidth) →
      ({ width } : Writer).run steps = (({ width } : Draft).run steps).toWriter ∧
      ∀ line ∈ Glyph.lines (({ width } : Draft).run steps).glyphs, width < line.length →
        ∀ g ∈ line, g.breakable = false) ∧
    ∀ (settings : RenderSettings) (root : Node) (text : String), settings.width = width →
      root.render settings = .ok text →
      ∃ d, root.draft settings = .ok d ∧ d.text = text.toList ∧
        ∀ line ∈ Glyph.lines d.glyphs, width < line.length → ∀ g ∈ line, g.breakable = false := by
  have hrun : ∀ steps : List Step, (∀ s ∈ steps, s.staysAligned ∧ s.keepsWidth) →
      ∀ line ∈ Glyph.lines (({ width } : Draft).run steps).glyphs, Kept width line :=
    fun steps hs => ((Draft.Fits.initial width).run hw hs).kept
  refine ⟨fun steps hs => ⟨?_, hrun steps hs⟩, ?_⟩
  · exact Draft.run_toWriter steps { width }
  · intro settings root text hset htext
    obtain ⟨d, hd, _, ht⟩ := Node.render_eq_ok_iff.mp htext
    obtain ⟨steps, hsteps, hs⟩ := exists_run_of_draftOfVisits hd
    refine ⟨d, hd, ht, ?_⟩
    rw [hsteps, hset]
    exact hrun steps fun s hm => Step.staysAligned_of_isScripted (hs s hm)

/-- A word that is too long for its line in a quotation, between two that are not. -/
theorem not_breakable_of_six_lt :
    (1 ≤ 6 ∧ (∀ s ∈ [Step.emit .verbatim "> ", .push "> ", .emit .prose "ab cdefgh i"],
      s.staysAligned ∧ s.keepsWidth) ∧
      ∀ line ∈ Glyph.lines (({ width := 6 } : Draft).run
          [.emit .verbatim "> ", .push "> ", .emit .prose "ab cdefgh i"]).glyphs,
        6 < line.length → ∀ g ∈ line, g.breakable = false) ∧
    (Node.branch .document [.branch .blockQuote [.branch .paragraph
        [.leaf (.text "ab cdefgh i")]]]).render { width := 6 } = .ok "> ab\n> cdefgh\n> i\n\n" ∧
    ∃ d, (Node.branch .document [.branch .blockQuote [.branch .paragraph
        [.leaf (.text "ab cdefgh i")]]]).draft { width := 6 } = .ok d ∧
      d.text = "> ab\n> cdefgh\n> i\n\n".toList ∧
      ∀ line ∈ Glyph.lines d.glyphs, 6 < line.length → ∀ g ∈ line, g.breakable = false := by
  have hsteps : ∀ s ∈ [Step.emit .verbatim "> ", .push "> ", .emit .prose "ab cdefgh i"],
      s.staysAligned ∧ s.keepsWidth := by decide
  have hrender : (Node.branch .document [.branch .blockQuote [.branch .paragraph
      [.leaf (.text "ab cdefgh i")]]]).render { width := 6 } = .ok "> ab\n> cdefgh\n> i\n\n" := by
    decide +kernel
  have h := not_breakable_of_width_lt 6 (by decide)
  exact ⟨⟨by decide, hsteps, (h.1 _ hsteps).2⟩, hrender, h.2 _ _ _ rfl hrender⟩

end MarkdownLayout
