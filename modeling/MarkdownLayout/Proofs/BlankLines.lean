import Mathlib.Data.List.Basic
import Mathlib.Logic.Function.Iterate
import MarkdownLayout.Proofs.Reachable

/-!
# Blank lines that pile up

A writer that owes a blank line looks at the last two octets of its text: two line ends are a blank
line, and nothing more has to be written. The blank line that it writes has a margin, however, so
within a margin it does not know its own blank line again, and every further request writes one
more. The main statement is `separate_twice_eq_iff`: a second request changes nothing exactly when
there is no margin, or when nothing had to be written for the first one. It also says how many lines
pile up otherwise, and that without a margin none do, whatever happens in between without a
character being written.
-/

namespace MarkdownLayout

/-- Whether a step writes nothing but the breaks owed. -/
def Step.isSilent : Step → Bool
  | .owe _ | .flush => true
  | .emit _ span => span.isEmpty
  | _ => false

namespace Writer

/-- Owe a blank line and pay it at once. -/
def separate (w : Writer) : Writer :=
  w.oweBlankLine.flush

/-- What pays a blank line owed behind a text. -/
def blankLine (margin octets : List UInt8) : List UInt8 :=
  if Spaced octets then []
  else if octets.getLast? = some newline then margin ++ [newline]
  else newline :: (margin ++ [newline])

/-- The writer at the start of a line behind the given octets. It owes nothing. -/
def behind (octets : List UInt8) (w : Writer) : Writer :=
  { w.startLine with buffer := octets.toArray, owed := .nothing }

/-- Only the octets behind which it stands tell such a writer from another one. -/
theorem behind_inj {octets octets' : List UInt8} {w : Writer} :
    w.behind octets = w.behind octets' ↔ octets = octets' := by
  refine ⟨fun h => ?_, fun h => by rw [h]⟩
  have hbuffer : (w.behind octets).buffer.toList = (w.behind octets').buffer.toList := by rw [h]
  exact hbuffer

/-- A blank line leaves the writer behind it. -/
theorem separate_eq (w : Writer) :
    w.separate = w.behind (w.buffer.toList ++ blankLine w.margin.toList w.buffer.toList) := by
  have hbreaks : (w.buffer ++ ({ w with owed := .blankLine } : Writer).breaksOwed).toList =
      w.buffer.toList ++ blankLine w.margin.toList w.buffer.toList := by
    rw [Array.toList_append, toList_breaksOwed]
    rfl
  unfold separate oweBlankLine flush behind
  rw [owe_blankLine, if_neg (by simp), ← hbreaks]
  rfl

/-- Without a margin one payment is enough: the text ends with a blank line then. -/
theorem spaced_append_blankLine_nil (octets : List UInt8) :
    Spaced (octets ++ blankLine [] octets) := by
  unfold blankLine
  split
  · rwa [List.append_nil]
  · split
    · rename_i hl
      obtain ⟨before, rfl⟩ := List.getLast?_eq_some_iff.mp hl
      exact .inr (.inr ⟨before, by simp⟩)
    · exact .inr (.inr ⟨octets, rfl⟩)

/-- A text that needs no further line end, if there is one, ends with one. -/
theorem Spaced.getLast?_eq {octets : List UInt8} (h : Spaced octets) (hne : octets ≠ []) :
    octets.getLast? = some newline := by
  rcases h with h | h | h
  · exact absurd h hne
  · rw [h]
    rfl
  · exact getLast?_of_pair_suffix h

/-- A single line end behind something else is not a blank line. -/
theorem not_spaced_append {line : List UInt8} (hne : line ≠ []) (hl : line.getLast? ≠ some newline)
    (octets : List UInt8) : ¬ Spaced (octets ++ (line ++ [newline])) := by
  have hpos := List.length_pos_iff.mpr hne
  rintro (h | h | h)
  · simp at h
  · have hlength := congrArg List.length h
    simp only [List.length_append, List.length_singleton] at hlength
    omega
  · rw [← List.append_assoc] at h
    have hlast := getLast?_of_pair_suffix_concat h
    rw [List.getLast?_append_of_ne_nil octets hne] at hlast
    exact hl hlast

/-- A blank line that holds a margin does not count as one, so the next payment writes another. -/
theorem not_spaced_margin {margin : List UInt8} (hm : newline ∉ margin) (hne : margin ≠ [])
    (octets : List UInt8) : ¬ Spaced (octets ++ (margin ++ [newline])) :=
  not_spaced_append hne (fun hl => hm (List.mem_of_getLast? hl)) octets

/-- Behind a blank line with a margin another one is written. -/
theorem blankLine_append {margin : List UInt8} (hm : newline ∉ margin) (hne : margin ≠ [])
    (octets : List UInt8) :
    blankLine margin (octets ++ (margin ++ [newline])) = margin ++ [newline] := by
  have hlast : (octets ++ (margin ++ [newline])).getLast? = some newline := by
    rw [← List.append_assoc, List.getLast?_concat]
  rw [blankLine, if_neg (not_spaced_margin hm hne octets), if_pos hlast]

/-- A blank line that is written ends with the margin and a line end. -/
theorem exists_append_blankLine {octets : List UInt8} (hs : ¬ Spaced octets)
    (margin : List UInt8) :
    ∃ before, octets ++ blankLine margin octets = before ++ (margin ++ [newline]) := by
  rw [blankLine, if_neg hs]
  split
  · exact ⟨octets, rfl⟩
  · exact ⟨octets ++ [newline], by simp⟩

/-- Nothing is paid exactly where the text ends with a blank line already. -/
theorem blankLine_eq_nil_iff {margin octets : List UInt8} :
    blankLine margin octets = [] ↔ Spaced octets := by
  unfold blankLine
  split
  · exact iff_of_true rfl ‹_›
  · refine iff_of_false ?_ ‹_›
    split <;> simp

/-- The text is spaced once a blank line has been paid, unless that was written within a margin. -/
theorem spaced_append_blankLine_iff {margin : List UInt8} (hm : newline ∉ margin)
    (octets : List UInt8) :
    Spaced (octets ++ blankLine margin octets) ↔ margin = [] ∨ Spaced octets := by
  by_cases hs : Spaced octets
  · refine iff_of_true ?_ (.inr hs)
    rwa [blankLine_eq_nil_iff.mpr hs, List.append_nil]
  · by_cases hne : margin = []
    · subst hne
      exact iff_of_true (spaced_append_blankLine_nil octets) (.inl rfl)
    · obtain ⟨before, hb⟩ := exists_append_blankLine hs margin
      rw [hb]
      exact iff_of_false (not_spaced_margin hm hne before) (not_or.mpr ⟨hne, hs⟩)

/-- A blank line behind a text adds what is missing to it, and leaves the writer at the start of a
line. -/
theorem separate_behind (octets : List UInt8) (w : Writer) :
    (w.behind octets).separate = w.behind (octets ++ blankLine w.margin.toList octets) :=
  separate_eq (w.behind octets)

/-- Within a margin every further request writes a line. -/
theorem separate_iterate_behind {w : Writer} (hm : newline ∉ w.margin.toList)
    (hne : w.margin.toList ≠ []) (n : Nat) (before : List UInt8) :
    separate^[n] (w.behind (before ++ (w.margin.toList ++ [newline]))) =
      w.behind (before ++ (w.margin.toList ++ [newline]) ++
        (List.replicate n (w.margin.toList ++ [newline])).flatten) := by
  induction n generalizing before with
  | zero => rw [Function.iterate_zero_apply, List.replicate_zero, List.flatten_nil, List.append_nil]
  | succ n ih =>
    -- The first request comes first, so its line joins the text in front of the others.
    rw [Function.iterate_succ_apply, separate_behind, blankLine_append hm hne, ih,
      List.replicate_succ, List.flatten_cons, List.append_assoc (before ++ _)]

/-- A writer that is set behind a text owes nothing, whatever it owed before. -/
theorem behind_owe (octets : List UInt8) (owed : Owed) (w : Writer) :
    (w.owe owed).behind octets = w.behind octets := by
  unfold owe
  split <;> rfl

/-- Breaks owed before are outweighed by the blank line. -/
theorem separate_owe (owed : Owed) (w : Writer) : (w.owe owed).separate = w.separate := by
  have hbuffer : (w.owe owed).buffer = w.buffer := by
    unfold owe
    split <;> rfl
  rw [separate_eq, behind_owe, hbuffer, (SameMargins.owe owed w).margin, ← separate_eq]

/-- Behind the breaks owed the writer stands where it would stand behind a blank line. -/
theorem behind_flush (octets : List UInt8) (w : Writer) :
    w.flush.behind octets = w.behind octets := by
  unfold flush
  split <;> rfl

/-- Line ends that were owed are part of a blank line. -/
theorem separate_flush {w : Writer} (hm : w.margin = #[]) : w.flush.separate = w.separate := by
  have hm' : w.flush.margin = #[] := (SameMargins.flush w).margin.trans hm
  rw [separate_eq, separate_eq, behind_flush, behind_inj, hm, hm']
  cases ho : w.owed with
  | nothing => rw [flush, if_pos ho]
  | lineEnd =>
    have hflush : w.flush.buffer.toList = w.buffer.toList ++
        if w.buffer.toList = [] ∨ w.buffer.toList.getLast? = some newline then []
        else [newline] := by
      rw [flush, if_neg (by simp [ho])]
      show (w.buffer ++ w.breaksOwed).toList = _
      rw [Array.toList_append, toList_breaksOwed, ho]
    rw [hflush]
    split
    · rw [List.append_nil]
    · -- The line end that is paid is the first of the two that a blank line asks for.
      rename_i hopen
      obtain ⟨hne, hl⟩ := not_or.mp hopen
      have hbefore : ¬ Spaced w.buffer.toList := fun hs => hl (hs.getLast?_eq hne)
      have hafter : ¬ Spaced (w.buffer.toList ++ [newline]) := not_spaced_append hne hl []
      rw [blankLine, if_neg hafter, if_pos List.getLast?_concat, blankLine, if_neg hbefore,
        if_neg hl]
      simp
  | blankLine =>
    have hflush : w.flush = w.separate := by
      rw [separate, oweBlankLine, owe_blankLine, ← ho]
    have hspaced := spaced_append_blankLine_nil w.buffer.toList
    rw [hflush, separate_eq, hm]
    show _ ++ blankLine [] (w.buffer.toList ++ blankLine [] w.buffer.toList) = _
    rw [blankLine_eq_nil_iff.mpr hspaced, List.append_nil]
    rfl

/-- A step that writes nothing leaves no margin and does not change what a blank line leads to. -/
theorem separate_after {w : Writer} (hm : w.margin = #[]) {s : Step} (hs : s.isSilent) :
    (s.after w).margin = #[] ∧ (s.after w).separate = w.separate := by
  have hflush : w.flush.margin = #[] ∧ w.flush.separate = w.separate :=
    ⟨(SameMargins.flush w).margin.trans hm, separate_flush hm⟩
  cases s with
  | owe owed => exact ⟨(SameMargins.owe owed w).margin.trans hm, separate_owe owed w⟩
  | flush => exact hflush
  | emit policy span =>
    obtain rfl : span = "" := String.isEmpty_iff.mp hs
    have hnil : Draft.charsOf (w.effective policy) "" = [] := by
      unfold Draft.charsOf
      split <;> rfl
    rw [after_emit, hnil]
    exact hflush
  | push _ | pop _ | keepLines _ | startLine | setWidth _ => cases hs

/-- Steps that write nothing make no difference to the blank line that follows, where there is no
margin. -/
theorem separate_run {w : Writer} (hm : w.margin = #[]) {steps : List Step}
    (hs : ∀ s ∈ steps, s.isSilent) : (w.run steps).separate = w.separate := by
  induction steps generalizing w with
  | nil => rfl
  | cons s steps ih =>
    obtain ⟨hfirst, hrest⟩ := List.forall_mem_cons.mp hs
    obtain ⟨hmargin, hsame⟩ := separate_after hm hfirst
    exact (ih hmargin hrest).trans hsame

/-- A second blank line is the first one exactly when there is no margin, or when nothing was
written for the first one. Otherwise every further request writes the margin and a line end. Without
a margin no steps that write nothing add to a blank line. -/
theorem separate_twice_eq_iff {w : Writer} (h : w.Reachable) :
    (w.separate.separate = w.separate ↔ w.margin = #[] ∨ Spaced w.buffer.toList) ∧
    (¬ (w.margin = #[] ∨ Spaced w.buffer.toList) → ∀ n, separate^[n + 1] w =
      { w.separate with
        buffer := w.separate.buffer ++
          (List.replicate n (w.margin.toList ++ [newline])).flatten.toArray }) ∧
    (w.margin = #[] → ∀ steps : List Step, (∀ s ∈ steps, s.isSilent) →
      (w.run steps).separate = w.separate) := by
  have hm := h.margined.newline_notMem
  have hnil : w.margin = #[] ↔ w.margin.toList = [] := Array.toList_eq_nil_iff.symm
  refine ⟨?_, fun hn n => ?_, fun hmargin steps => separate_run hmargin⟩
  · rw [separate_eq w, separate_behind, behind_inj, List.append_right_eq_self, blankLine_eq_nil_iff,
      spaced_append_blankLine_iff hm, hnil]
  · obtain ⟨hne, hs⟩ := not_or.mp hn
    obtain ⟨before, hb⟩ := exists_append_blankLine hs w.margin.toList
    rw [Function.iterate_succ_apply, separate_eq, hb, separate_iterate_behind hm (mt hnil.mpr hne)]
    simp [behind]

/-- In a quotation the second of two requests writes a second blank line. -/
theorem separate_twice_eq_iff_quoted :
    ∃ w : Writer, w = ({} : Writer).run [.push "> ", .emit .verbatim "a"] ∧ w.Reachable ∧
      w.separate.buffer = (Text.Utf8.octets "> a\n> \n").toArray ∧
      w.separate.separate.buffer = (Text.Utf8.octets "> a\n> \n> \n").toArray ∧
      w.separate.separate ≠ w.separate := by
  have hreachable : (({} : Writer).run [.push "> ", .emit .verbatim "a"]).Reachable :=
    (Reachable.fresh defaultWidth).run (by decide)
  refine ⟨_, rfl, hreachable, by decide +kernel, by decide +kernel, fun hsame => ?_⟩
  exact absurd ((separate_twice_eq_iff hreachable).1.mp hsame) (by decide)

end Writer

end MarkdownLayout
