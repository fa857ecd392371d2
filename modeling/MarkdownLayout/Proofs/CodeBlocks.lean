import MarkdownLayout.Proofs.Draft.Script
import MarkdownLayout.Proofs.Linewise
import MarkdownLayout.Proofs.Runs
import MarkdownLayout.Proofs.Words

/-!
# Code set off from the text

Code without an info string is indented, `write_indented_code`. Code with one stands between fences
and can be read back, `write_fenced_code`: a fence is longer than any run of ticks in the code, so
the line that closes the code is the first one that could.

Nothing is asked of the writer but that it has come about by use; for fenced code its margins are on
one line each, or its lines could not be told from theirs. The line that is being written, the
breaks owed and the break point may be any, as a blank line is owed to the code before anything of
it is written.
-/

namespace MarkdownLayout

open Text.Utf8 (encode)

/-- A text with a line end behind its last line, if it has one that is not ended. -/
def withLineEnd (cs : List Char) : List Char :=
  cs ++ if cs = [] ∨ cs.getLast? = some '\n' then [] else ['\n']

/-- A line of fenced code as it is read: where code is escaped, a backslash takes along the
character behind it and is dropped. -/
def RenderSettings.readCode (settings : RenderSettings) (line : List Char) : List Char :=
  if settings.escapeFencedCode then Piece.chars (Piece.read line) else line

/-- A line that can close code behind a fence of `n` ticks. -/
def closesFence (n : Nat) (line : List Char) : Prop :=
  ∃ m, n ≤ m ∧ line = List.replicate m tick

namespace Piece

/-- Pieces fall into lines that end and a last one that does not. -/
theorem exists_lines {ps : List Piece} (h : ∀ p ∈ ps, p.char = '\n' → p = newline) :
    ∃ (lines : List (List Piece)) (last : List Piece),
      ps = lines.flatMap (· ++ [newline]) ++ last ∧ '\n' ∉ chars last ∧
        ∀ line ∈ lines, '\n' ∉ chars line := by
  induction ps with
  | nil => exact ⟨[], [], rfl, by simp, by simp⟩
  | cons p ps ih =>
    obtain ⟨hp, hps⟩ := List.forall_mem_cons.mp h
    obtain ⟨lines, last, heq, hlast, hlines⟩ := ih hps
    by_cases hc : p.char = '\n'
    · refine ⟨[] :: lines, last, ?_, hlast, List.forall_mem_cons.mpr ⟨by simp, hlines⟩⟩
      rw [heq, hp hc]
      simp
    · cases lines with
      | nil => exact ⟨[], p :: last, by simp [heq], by simp [Ne.symm hc, hlast], by simp⟩
      | cons line lines =>
        obtain ⟨hline, hrest⟩ := List.forall_mem_cons.mp hlines
        refine ⟨(p :: line) :: lines, last, by simp [heq], hlast,
          List.forall_mem_cons.mpr ⟨by simp [Ne.symm hc, hline], hrest⟩⟩

theorem chars_flatMap_newline (lines : List (List Piece)) :
    chars (lines.flatMap (· ++ [newline])) = lines.flatMap fun line => chars line ++ ['\n'] := by
  induction lines with
  | nil => rfl
  | cons line lines ih =>
    rw [List.flatMap_cons, chars_append, ih, chars_append, List.flatMap_cons]
    rfl

theorem spellAll_flatMap_newline (lines : List (List Piece)) :
    spellAll (lines.flatMap (· ++ [newline])) =
      (lines.map spellAll).flatMap (· ++ ['\n']) := by
  induction lines with
  | nil => rfl
  | cons line lines ih =>
    rw [List.flatMap_cons, spellAll_append, ih, spellAll_append, List.map_cons, List.flatMap_cons]
    rfl

/-- Line ends are not spelled otherwise, so lines are spelled on lines. -/
theorem newline_notMem_spellAll {ps : List Piece} (h : '\n' ∉ chars ps) : '\n' ∉ spellAll ps := by
  intro hn
  obtain ⟨p, hp, hc⟩ := List.mem_flatMap.mp hn
  have hne : p.char ≠ '\n' := fun he => h (List.mem_map.mpr ⟨p, hp, he⟩)
  unfold spell at hc
  split at hc <;> simp [Ne.symm hne] at hc

/-- Backslashes in front of characters make no run longer. -/
theorem longestRun_spellAll_le {c : Char} (hc : '\\' ≠ c) (ps : List Piece) :
    longestRun c (spellAll ps) ≤ longestRun c (chars ps) := by
  have hruns : ∀ runs more : Nat × Nat, runs.1 ≤ more.1 → runs.2 ≤ more.2 →
      ((spellAll ps).foldl (extendRun c) runs).2 ≤ ((chars ps).foldl (extendRun c) more).2 := by
    induction ps with
    | nil => exact fun runs more _ hbest => hbest
    | cons p ps ih =>
      intro runs more hrun hbest
      rw [spellAll_cons, List.foldl_append, chars_cons, List.foldl_cons]
      unfold spell
      cases p.escaped with
      | true =>
        -- The backslash ends the run in front of it.
        have hback := extendRun_of_ne hc runs
        obtain ⟨hrun', hbest'⟩ := foldl_extendRun_mono (c := c) [p.char]
          (show (0, runs.2).1 ≤ more.1 from Nat.zero_le _) hbest
        rw [if_pos rfl, List.foldl_cons, hback]
        exact ih _ _ hrun' hbest'
      | false =>
        obtain ⟨hrun', hbest'⟩ := foldl_extendRun_mono (c := c) [p.char] hrun hbest
        rw [if_neg (by simp)]
        exact ih _ _ hrun' hbest'
  rw [longestRun_eq, longestRun_eq]
  exact hruns (0, 0) (0, 0) (Nat.le_refl 0) (Nat.le_refl 0)

end Piece

/-- The line end that the last line of some pieces lacks, if it lacks one. -/
def Piece.closing (ps : List Piece) : List Piece :=
  if atStart ps then [] else [newline]

theorem Piece.eq_newline_of_mem_closing {p : Piece} {ps : List Piece} (h : p ∈ closing ps) :
    p = newline := by
  unfold closing at h
  split at h
  · cases h
  · exact List.mem_singleton.mp h

theorem Piece.chars_append_closing (ps : List Piece) :
    chars (ps ++ closing ps) = withLineEnd (chars ps) := by
  have hstart : atStart ps = true ↔ chars ps = [] ∨ (chars ps).getLast? = some '\n' := by
    unfold atStart
    cases hlast : (chars ps).getLast? with
    | none => simp [List.getLast?_eq_none_iff.mp hlast]
    | some c =>
      have hne : chars ps ≠ [] := fun hn => by simp [hn] at hlast
      simp [hne]
  rw [chars_append, closing, withLineEnd]
  by_cases hs : atStart ps = true
  · rw [if_pos hs, if_pos (hstart.mp hs), chars_nil]
  · rw [if_neg hs, if_neg (mt hstart.mpr hs)]
    rfl

/-- Pieces whose last line is ended fall into lines. -/
theorem Piece.exists_ended_lines {ps : List Piece} (h : ∀ p ∈ ps, p.char = '\n' → p = newline) :
    ∃ lines : List (List Piece), ps ++ closing ps = lines.flatMap (· ++ [newline]) ∧
      ∀ line ∈ lines, '\n' ∉ chars line := by
  obtain ⟨lines, last, heq, hlast, hlines⟩ := exists_lines h
  obtain rfl | ⟨front, p, rfl⟩ := last.eq_nil_or_concat
  · -- the last line has been ended, or there is none
    rw [List.append_nil] at heq
    have hstart : atStart ps = true := by
      rw [heq, atStart, chars_flatMap_newline]
      obtain rfl | ⟨outer, line, rfl⟩ := lines.eq_nil_or_concat
      · rfl
      · simp [← List.append_assoc]
    refine ⟨lines, ?_, hlines⟩
    rw [closing, if_pos hstart, List.append_nil, heq]
  · rw [List.concat_eq_append] at heq hlast
    have hp : p.char ≠ '\n' := fun he => hlast (by simp [he])
    have hstart : ¬ atStart ps = true := by
      rw [heq, atStart, ← List.append_assoc, chars_append]
      simp [hp]
    refine ⟨lines ++ [front ++ [p]], ?_, ?_⟩
    · rw [closing, if_neg hstart, heq, List.flatMap_append, List.flatMap_singleton,
        List.append_assoc]
    · exact List.forall_mem_append.mpr ⟨hlines, List.forall_mem_singleton.mpr hlast⟩

theorem Piece.speltWith_of_mem_line {escapes : Bool} {ps : List Piece}
    (h : ∀ p ∈ ps, p.SpeltWith escapes) {lines : List (List Piece)} {line : List Piece}
    (heq : ps ++ closing ps = lines.flatMap (· ++ [newline])) (hline : line ∈ lines) :
    ∀ p ∈ line, p.SpeltWith escapes := by
  intro p hp
  have hmem : p ∈ ps ++ closing ps := by
    rw [heq]
    exact List.mem_flatMap.mpr ⟨line, hline, List.mem_append_left _ hp⟩
  rcases List.mem_append.mp hmem with hps | hclosing
  · exact h p hps
  · rw [eq_newline_of_mem_closing hclosing]
    exact speltWith_newline escapes

/-- The line end that is lacking is not behind a margin of its own. -/
theorem Piece.laidOut_append_closing (margin : List Char) (ps : List Piece) :
    laidOut margin true (spellAll (ps ++ closing ps)) =
      laidOut margin true (spellAll ps) ++ spellAll (closing ps) := by
  have hlast : ((spellAll ps).getLast?.elim true fun c => decide (c = '\n')) = atStart ps := by
    rw [getLast?_spellAll, atStart]
    cases (chars ps).getLast? <;> rfl
  rw [spellAll_append, laidOut_append, hlast, closing]
  cases atStart ps with
  | true => rw [if_pos rfl, spellAll_nil, laidOut_nil]
  | false => rfl

/-- What is read of the lines of code is the code. -/
theorem RenderSettings.readCode_spellAll (settings : RenderSettings) {line : List Piece}
    (h : ∀ p ∈ line, p.SpeltWith settings.escapeFencedCode) :
    settings.readCode (Piece.spellAll line) = Piece.chars line := by
  unfold readCode
  cases hescapes : settings.escapeFencedCode with
  | true =>
    rw [hescapes] at h
    rw [if_pos rfl, Piece.read_spellAll fun p hp => (h p hp).backslash]
  | false =>
    rw [hescapes] at h
    rw [if_neg (by simp)]
    refine Piece.spellAll_of_not_escaped fun p hp => ?_
    cases he : p.escaped with
    | false => rfl
    | true => cases (h p hp).escaped he

/-- Lines that end, and one that does not, are cut apart again. -/
theorem Text.cutAt_flatMap {mark : Char} {parts : List (List Char)} {last : List Char}
    (h : ∀ part ∈ parts, mark ∉ part) (hlast : mark ∉ last) :
    cutAt mark (parts.flatMap (· ++ [mark]) ++ last) = parts ++ [last] := by
  induction parts with
  | nil => exact cutAt_of_notMem hlast
  | cons part parts ih =>
    obtain ⟨hpart, hparts⟩ := List.forall_mem_cons.mp h
    rw [List.flatMap_cons, List.append_assoc, List.append_assoc, List.singleton_append,
      cutAt_append_mark hpart, ih hparts, List.cons_append]

/-- Lines that have been laid out are cut apart, and each is behind the margin. -/
theorem cutAt_laidOut {margin : List Char} (hmargin : '\n' ∉ margin) {lines : List (List Char)}
    (h : ∀ line ∈ lines, '\n' ∉ line) {last : List Char} (hlast : '\n' ∉ last) :
    Text.cutAt '\n' (laidOut margin true (lines.flatMap (· ++ ['\n'])) ++ (margin ++ last)) =
      (lines ++ [last]).map (margin ++ ·) := by
  have hbehind : ∀ {line : List Char}, '\n' ∉ line → '\n' ∉ margin ++ line := fun hline hn =>
    (List.mem_append.mp hn).elim hmargin hline
  have hparts : ∀ part ∈ lines.map (margin ++ ·), '\n' ∉ part :=
    List.forall_mem_map.mpr fun line hline => hbehind (h line hline)
  rw [laidOut_flatMap h, List.map_append, List.map_singleton,
    ← Text.cutAt_flatMap hparts (hbehind hlast), List.flatMap_map]
  simp only [List.append_assoc]

namespace Writer

/-- The characters that open every line. -/
def marginText (w : Writer) : List Char :=
  w.segments.flatMap String.toList

theorem Used.margin_eq {w : Writer} (h : w.Used) : w.margin.toList = encode w.marginText := by
  have htied : w.margin.toList = w.segments.flatMap Text.Utf8.octets := h.tied
  rw [htied, encode, marginText, List.flatMap_assoc]
  rfl

theorem newline_notMem_marginText {w : Writer}
    (h : ∀ segment ∈ w.segments, '\n' ∉ segment.toList) : '\n' ∉ w.marginText := by
  intro hn
  obtain ⟨segment, hsegment, hc⟩ := List.mem_flatMap.mp hn
  exact h segment hsegment hc

/-- Steps are taken one after the other. -/
theorem forM_act_cons {s : Step} {w w' : Writer} (h : s.act w = .ok () w') (steps : List Step) :
    (s :: steps).forM Step.act w = steps.forM Step.act w' :=
  bind_of_ok h

theorem forM_emit_cons {policy : Policy} {span : String} {w w' : Writer}
    (h : emit policy span w = .ok () w') (steps : List Step) :
    (Step.emit policy span :: steps).forM Step.act w = steps.forM Step.act w' := by
  have hact : (Step.emit policy span).act w = .ok () w' := h
  exact forM_act_cons hact steps

/-- A span that is not wrapped, where a break is owed to it, is written when the break has been
paid. -/
theorem forM_owe_emit_cons {policy : Policy} (hp : policy.wraps = false) {owed : Owed}
    {span : String}
    {w w' : Writer} (h : emit policy span (w.owe owed).flush = .ok () w') (steps : List Step) :
    (Step.owe owed :: .emit policy span :: steps).forM Step.act w = steps.forM Step.act w' := by
  have howe : (Step.owe owed).act w = .ok () (w.owe owed) := rfl
  rw [forM_act_cons howe, forM_emit_cons ((emit_flush hp span (w.owe owed)).trans h)]

/-- The innermost margin is taken back by its name. -/
theorem act_pop {w : Writer} {outer : List String} {top : String}
    (h : w.segments = outer ++ [top]) :
    (Step.pop (some top)).act w = .ok ()
      { w with
        segments := outer
        margin := w.margin.take (w.margin.size - (Text.Utf8.octets top).length) } := by
  have hlast : w.segments.getLast? = some top := by rw [h, List.getLast?_concat]
  have hpop : popMargin (some top) w = .ok top
      { w with
        segments := outer
        margin := w.margin.take (w.margin.size - (Text.Utf8.octets top).length) } := by
    unfold popMargin
    rw [hlast]
    dsimp only
    rw [if_pos (.inr rfl), h, List.dropLast_concat]
  exact bind_of_ok hpop

/-- What is left of a margin when the octets of the last segment are taken away. -/
theorem take_append_octets (margin : Array UInt8) (segment : String) :
    (margin ++ (Text.Utf8.octets segment).toArray).take
      ((margin ++ (Text.Utf8.octets segment).toArray).size - (Text.Utf8.octets segment).length) =
        margin := by
  simp

/-- A blank line that is owed leaves a line of which nothing has been written. -/
theorem Used.linewise_blankLine {w : Writer} (h : w.Used) :
    w.oweBlankLine.flush.Linewise w.marginText true := by
  have hblank : w.oweBlankLine = { w with owed := .blankLine } := owe_blankLine w
  rw [hblank]
  exact linewise_flush (show w.margin.toList = _ from h.margin_eq) (by simp)

theorem Linewise.pushMargin {w : Writer} {margin : List Char} (h : w.Linewise margin false)
    (segment : String) : (w.pushMargin segment).Linewise (margin ++ segment.toList) false := by
  refine ⟨?_, h.breakPoint, h.atLineStart, h.marginWritten, h.ended⟩
  show (w.margin ++ (Text.Utf8.octets segment).toArray).toList = _
  rw [Array.toList_append, h.margin, Text.Utf8.encode_append]
  rfl

/-- A line end that is owed ends the line, unless it has not begun. -/
theorem Linewise.oweLineEnd {w : Writer} {margin : List Char} {fresh : Bool}
    (h : w.Linewise margin fresh) (ho : w.owed = .nothing) :
    w.oweLineEnd.flush.Linewise margin true ∧
      Wrote (if fresh then [] else ['\n']) w w.oweLineEnd.flush := by
  have howe : w.oweLineEnd = { w with owed := .lineEnd } := by
    rw [Writer.oweLineEnd, owe, ho]
    rfl
  have hline : w.oweLineEnd.Linewise margin fresh := by
    rw [howe]
    exact ⟨h.margin, h.breakPoint, h.atLineStart, h.marginWritten, h.ended⟩
  have hsame : SameMargins w w.oweLineEnd.flush := (SameMargins.owe _ w).trans (.flush _)
  obtain ⟨hflush, hbuffer⟩ := hline.flush_lineEnd (by rw [howe])
  refine ⟨hflush, ?_, hsame.segments, hsame.margin, (owed_flush _).trans ho.symm⟩
  rw [hbuffer, howe]

end Writer

/-- A leaf is written by its script, whatever happens to it. -/
theorem Visit.write_leaf_eq {settings : RenderSettings} {leaf : Leaf} {steps : List Step}
    (h : leaf.script settings = .ok steps) (event : Event) (slot : Slot) (w : Writer) :
    Visit.write settings ⟨event, .leaf leaf, slot⟩ w = steps.forM Step.act w := by
  have hwrite : Visit.write settings ⟨event, .leaf leaf, slot⟩ = leaf.write settings := by
    cases event <;> rfl
  rw [hwrite, Leaf.write_eq, h]
  rfl

/-- Code without an info string: a blank line is owed, then the code stands behind the margins and
four blanks, which come again behind every line end of it but a final one, and nothing else is
written. The margins are as they were, and a blank line is owed. -/
theorem write_indented_code {w : Writer} (hw : w.Used) (settings : RenderSettings) (event : Event)
    (slot : Slot) (content : String) {info : Option String} (hinfo : info = none ∨ info = some "") :
    ∃ w', Visit.write settings ⟨event, .leaf (.codeBlock content info), slot⟩ w = .ok () w' ∧
      w'.buffer.toList = w.oweBlankLine.flush.buffer.toList ++
        encode (w.marginText ++ "    ".toList ++
          hungBy (w.marginText ++ "    ".toList) content.toList) ∧
      w'.segments = w.segments ∧ w'.margin = w.margin ∧ w'.owed = .blankLine := by
  have hscript : (Leaf.codeBlock content info).script settings =
      .ok (.owe .blankLine :: (indentedSteps content ++ [.owe .blankLine])) := by
    rcases hinfo with rfl | rfl <;> rfl
  have hsame : Writer.SameMargins w w.oweBlankLine.flush :=
    (Writer.SameMargins.owe _ w).trans (.flush _)
  -- the margins and the blanks of the first line
  obtain ⟨first, hfirst, hwrote, hline⟩ := hw.linewise_blankLine.emit_verbatim
    (Writer.owed_flush _) codeMargin
  have howed : first.owed = .nothing := hwrote.owed.trans (Writer.owed_flush _)
  -- the code, within a margin of its own
  have hwithin : (first.pushMargin codeMargin).Linewise (w.marginText ++ codeMargin.toList) false :=
    hline.pushMargin codeMargin
  obtain ⟨last, hlast, hwrote', _⟩ := hwithin.emit_verbatim howed content
  have hsegments : last.segments = w.segments ++ [codeMargin] := by
    rw [hwrote'.segments]
    show first.segments ++ [codeMargin] = w.segments ++ [codeMargin]
    rw [hwrote.segments, hsame.segments]
  have hmargin : last.margin.take (last.margin.size - (Text.Utf8.octets codeMargin).length) =
      w.margin := by
    rw [hwrote'.margin, ← hsame.margin, ← hwrote.margin]
    exact Writer.take_append_octets first.margin codeMargin
  refine ⟨Writer.owe .blankLine { last with segments := w.segments, margin := w.margin }, ?_, ?_⟩
  · rw [Visit.write_leaf_eq hscript]
    show (Step.owe .blankLine :: .emit .verbatim codeMargin :: .push codeMargin ::
      .emit .verbatim content :: .pop (some codeMargin) :: [.owe .blankLine]).forM Step.act w = _
    have hpush : (Step.push codeMargin).act first = .ok () (first.pushMargin codeMargin) := rfl
    have hpop := Writer.act_pop hsegments
    rw [hmargin] at hpop
    rw [Writer.forM_owe_emit_cons rfl hfirst, Writer.forM_act_cons hpush,
      Writer.forM_emit_cons hlast, Writer.forM_act_cons hpop]
    rfl
  · rw [Writer.owe_blankLine]
    refine ⟨?_, rfl, rfl, rfl⟩
    show last.buffer.toList = _
    rw [hwrote'.buffer]
    show first.buffer.toList ++ _ = _
    rw [hwrote.buffer, laidOut_false, laidOut_line (by decide) (by decide), List.append_assoc,
      ← Text.Utf8.encode_append]
    rfl

/-- Code in a quotation, behind a paragraph that has been broken. -/
theorem write_indented_code_quoted :
    ∃ w w' : Writer, w = (Step.emit .prose "a b").after ((Step.push "> ").after { width := 3 }) ∧
      w.Used ∧ Visit.write {} ⟨.enter, .leaf (.codeBlock "c\n\nd\n" none), .stray⟩ w = .ok () w' ∧
      w'.buffer.toList = encode "> a\n> b\n> \n>     c\n>     \n>     d\n".toList := by
  have hused : ((Step.emit .prose "a b").after ((Step.push "> ").after { width := 3 })).Used :=
    .step _ (.step _ (.fresh 3))
  obtain ⟨w', hwrite, hbuffer, _⟩ :=
    write_indented_code hused {} .enter .stray "c\n\nd\n" (.inl rfl)
  refine ⟨_, w', rfl, hused, hwrite, ?_⟩
  rw [hbuffer]
  decide

/-- What is written of code with an info string, without its cut into lines. -/
theorem exists_write_fenced {w : Writer} (hw : w.Used) (settings : RenderSettings) (event : Event)
    (slot : Slot) (content : String) {info : String} (hne : info ≠ "")
    (hinfo : '\n' ∉ info.toList) :
    ∃ (ps : List Piece) (w' : Writer), Piece.chars ps = content.toList ∧
      (∀ p ∈ ps, p.SpeltWith settings.escapeFencedCode) ∧
      Visit.write settings ⟨event, .leaf (.codeBlock content (some info)), slot⟩ w = .ok () w' ∧
      Writer.SameMargins w w' ∧
      w'.buffer.toList = w.oweBlankLine.flush.buffer.toList ++
        encode (laidOut w.marginText true ((fenceFor content).toList ++ ' ' :: info.toList ++
          '\n' :: Piece.spellAll (ps ++ Piece.closing ps)) ++
          (w.marginText ++ (fenceFor content).toList)) := by
  have hscript : (Leaf.codeBlock content (some info)).script settings =
      .ok (.owe .blankLine :: (fencedSteps settings content info ++ [.owe .blankLine])) := by
    have hwritten : isWritten (some info) = true := by simp [isWritten, hne]
    simp [Leaf.script, hwritten]
  have hfence : (fenceFor content).toList ≠ [] ∧ '\n' ∉ (fenceFor content).toList :=
    ⟨by simp [fenceFor, ticks], newline_notMem_ticks _⟩
  have hopening : (fenceFor content ++ " ").toList ≠ [] ∧
      '\n' ∉ (fenceFor content ++ " ").toList := by simp [hfence.2]
  have hinfo' : info.toList ≠ [] := fun hn => hne (String.toList_eq_nil_iff.mp hn)
  have hsame : Writer.SameMargins w w.oweBlankLine.flush :=
    (Writer.SameMargins.owe _ w).trans (.flush _)
  -- the line that opens the code
  obtain ⟨ticked, hticked, hwrote, hline⟩ := hw.linewise_blankLine.emit_verbatim
    (Writer.owed_flush _) (fenceFor content ++ " ")
  rw [elim_getLast?_of_line hopening.1 hopening.2] at hline
  have howed : ticked.owed = .nothing := hwrote.owed.trans (Writer.owed_flush _)
  obtain ⟨opened, hopened, hwrote', hline'⟩ := hline.emit_verbatim howed info
  rw [elim_getLast?_of_line hinfo' hinfo] at hline'
  have howed' : opened.owed = .nothing := hwrote'.owed.trans howed
  -- the code
  obtain ⟨hcut, hended⟩ := hline'.oweLineEnd howed'
  obtain ⟨ps, coded, hchars, hspelt, hcoded, hcode, hlast⟩ := hcut.emit (Writer.owed_flush _)
    (show (⟨false, settings.escapeFencedCode⟩ : Policy).wraps = false from rfl) content
  have howed'' : coded.owed = .nothing := hcode.owed.trans (Writer.owed_flush _)
  have hstart : (content.toList.getLast?.elim true fun c => decide (c = '\n')) =
      Piece.atStart ps := by
    rw [← hchars, Piece.atStart]
    cases (Piece.chars ps).getLast? <;> rfl
  rw [hstart] at hlast
  -- the line that closes it
  obtain ⟨hcut', hended'⟩ := hlast.oweLineEnd howed''
  obtain ⟨closed, hclosed, hwrote'', _⟩ :=
    hcut'.emit_verbatim (Writer.owed_flush _) (fenceFor content)
  have hall := ((((hwrote.trans hwrote').trans hended).trans hcode).trans hended').trans hwrote''
  refine ⟨ps, closed.oweBlankLine, hchars, hspelt, ?_, ?_, ?_⟩
  · rw [Visit.write_leaf_eq hscript]
    show (Step.owe .blankLine :: .emit .verbatim (fenceFor content ++ " ") ::
      .emit .verbatim info ::
      .owe .lineEnd :: .emit ⟨false, settings.escapeFencedCode⟩ content :: .owe .lineEnd ::
      .emit .verbatim (fenceFor content) :: [.owe .blankLine]).forM Step.act w = _
    rw [Writer.forM_owe_emit_cons rfl hticked, Writer.forM_emit_cons hopened,
      Writer.forM_owe_emit_cons rfl hcoded, Writer.forM_owe_emit_cons rfl hclosed]
    rfl
  · exact hsame.trans (.trans ⟨hall.segments, hall.margin⟩ (.owe _ closed))
  · have hbuffer : closed.oweBlankLine.buffer = closed.buffer := by
      rw [Writer.oweBlankLine, Writer.owe_blankLine]
    have hopening' : '\n' ∉ (fenceFor content).toList ++ ' ' :: info.toList := by
      simp [hfence.2, hinfo]
    have hclosing : (if Piece.atStart ps then [] else ['\n']) =
        Piece.spellAll (Piece.closing ps) := by
      rw [Piece.closing]
      cases Piece.atStart ps <;> rfl
    rw [hbuffer, hall.buffer, laidOut_line hopening.1 hopening.2, laidOut_line hinfo' hinfo,
      laidOut_line hfence.1 hfence.2, laidOut_append_newline hopening',
        Piece.laidOut_append_closing,
      hclosing]
    have hblank : " ".toList = [' '] := rfl
    simp only [String.toList_append, hblank, List.append_assoc, List.cons_append, List.nil_append,
      if_true, Bool.false_eq_true, if_false]

/-- A line of some code has no longer a run of ticks than the code. -/
theorem longestRun_line_le {ps : List Piece} {lines : List (List Piece)} {line : List Piece}
    (h : ps ++ Piece.closing ps = lines.flatMap (· ++ [Piece.newline])) (hline : line ∈ lines) :
    longestRun tick (Piece.spellAll line) ≤ longestRun tick (Piece.chars ps) := by
  have hwithin : Piece.chars line <:+: withLineEnd (Piece.chars ps) := by
    obtain ⟨before, after, rfl⟩ := List.append_of_mem hline
    rw [← Piece.chars_append_closing, h, Piece.chars_flatMap_newline, List.flatMap_append,
      List.flatMap_cons]
    refine ⟨before.flatMap fun line => Piece.chars line ++ ['\n'],
      '\n' :: after.flatMap fun line => Piece.chars line ++ ['\n'], ?_⟩
    simp only [List.append_assoc, List.singleton_append]
  have hended : longestRun tick (withLineEnd (Piece.chars ps)) =
      longestRun tick (Piece.chars ps) := by
    unfold withLineEnd
    split
    · rw [List.append_nil]
    · exact longestRun_append_of_ne (by decide) _
  calc longestRun tick (Piece.spellAll line)
      ≤ longestRun tick (Piece.chars line) := Piece.longestRun_spellAll_le (by decide) line
    _ ≤ longestRun tick (withLineEnd (Piece.chars ps)) := longestRun_le_of_infix hwithin
    _ = longestRun tick (Piece.chars ps) := hended

/-- Code with an info string can be read back. Behind the breaks owed stand lines, all within the
margins: a fence and the info string, the code, and the fence again. No line of the code has a run
of ticks as long as the fence, so none closes the code before the last one does, and what is read of
the lines is the code, with its last line ended. The margins are as they were. -/
theorem write_fenced_code {w : Writer} (hw : w.Used)
    (hlines : ∀ segment ∈ w.segments, '\n' ∉ segment.toList) (settings : RenderSettings)
    (event : Event) (slot : Slot) (content : String) {info : String} (hne : info ≠ "")
    (hinfo : '\n' ∉ info.toList) :
    ∃ (w' : Writer) (n : Nat) (text : List Char) (body : List (List Char)),
      Visit.write settings ⟨event, .leaf (.codeBlock content (some info)), slot⟩ w = .ok () w' ∧
      w'.buffer.toList = w.oweBlankLine.flush.buffer.toList ++ encode text ∧
      Text.cutAt '\n' text =
        ((List.replicate n tick ++ ' ' :: info.toList) :: (body ++ [List.replicate n tick])).map
          (w.marginText ++ ·) ∧
      3 ≤ n ∧
      (∀ line ∈ body, ¬ List.replicate n tick <:+: line ∧ ¬ closesFence n line) ∧
      (body.flatMap fun line => settings.readCode line ++ ['\n']) = withLineEnd content.toList ∧
      w'.segments = w.segments ∧ w'.margin = w.margin := by
  obtain ⟨ps, w', hchars, hspelt, hwrite, hsame, hbuffer⟩ :=
    exists_write_fenced hw settings event slot content hne hinfo
  have hends : ∀ p ∈ ps, p.char = '\n' → p = Piece.newline := by
    intro p hp hc
    have hplain := (hspelt p hp).newline hc
    cases p
    cases hc
    cases hplain
    rfl
  obtain ⟨lines, heq, hcut⟩ := Piece.exists_ended_lines hends
  have hspelled : ∀ line ∈ lines.map Piece.spellAll, '\n' ∉ line :=
    List.forall_mem_map.mpr fun line hline => Piece.newline_notMem_spellAll (hcut line hline)
  have hfence : (fenceFor content).toList =
      List.replicate (max 3 (longestRun tick content.toList + 1)) tick := String.toList_ofList
  have hticks : '\n' ∉ (fenceFor content).toList := newline_notMem_ticks _
  generalize hn : max 3 (longestRun tick content.toList + 1) = n at hfence
  rw [hfence] at hbuffer hticks
  refine ⟨w', n, _, lines.map Piece.spellAll, hwrite, hbuffer, ?_, ?_, ?_, ?_, hsame.segments,
    hsame.margin⟩
  · have hopening : '\n' ∉ List.replicate n tick ++ ' ' :: info.toList := by simp [hticks, hinfo]
    rw [heq, Piece.spellAll_flatMap_newline, ← List.cons_append, ← cutAt_laidOut
      (Writer.newline_notMem_marginText hlines)
        (List.forall_mem_cons.mpr ⟨hopening, hspelled⟩) hticks,
      List.flatMap_cons, List.append_assoc _ ['\n'], List.singleton_append]
  · omega
  · refine List.forall_mem_map.mpr fun line hline => ?_
    have hrun : ¬ List.replicate n tick <:+: Piece.spellAll line := by
      intro hinfix
      have hlong := le_longestRun_of_infix hinfix
      have hshort := longestRun_line_le heq hline
      rw [hchars] at hshort
      omega
    refine ⟨hrun, ?_⟩
    rintro ⟨m, hm, hline'⟩
    refine hrun ⟨[], List.replicate (m - n) tick, ?_⟩
    rw [List.nil_append, List.replicate_append_replicate, Nat.add_sub_cancel' hm, hline']
  · rw [← hchars, ← Piece.chars_append_closing, heq, Piece.chars_flatMap_newline, List.flatMap_map,
      List.flatMap_def, List.flatMap_def]
    refine congrArg List.flatten (List.map_congr_left fun line hline => ?_)
    rw [settings.readCode_spellAll (Piece.speltWith_of_mem_line hspelt heq hline)]

/-- Code with escapes and ticks of its own, in a quotation. -/
theorem write_fenced_code_quoted :
    ∃ w : Writer, w = (Step.emit .prose "a b").after ((Step.push "> ").after { width := 3 }) ∧
      w.Used ∧ (∀ segment ∈ w.segments, '\n' ∉ segment.toList) ∧
      ∃ (w' : Writer) (n : Nat) (text : List Char) (body : List (List Char)),
        Visit.write { escapeFencedCode := true }
          ⟨.enter, .leaf (.codeBlock "\x60\x60\x60\n\\c" (some "d e")), .stray⟩ w = .ok () w' ∧
        w'.buffer.toList = encode ("> a\n> b\n> \n".toList ++ text) ∧
        Text.cutAt '\n' text = ((List.replicate n tick ++ " d e".toList) ::
          (body ++ [List.replicate n tick])).map ("> ".toList ++ ·) ∧
        (∀ line ∈ body, ¬ closesFence n line) ∧
        (body.flatMap fun line => Piece.chars (Piece.read line) ++ ['\n']) =
          "\x60\x60\x60\n\\c\n".toList := by
  have hused : ((Step.emit .prose "a b").after ((Step.push "> ").after { width := 3 })).Used :=
    .step _ (.step _ (.fresh 3))
  have hsegments :
      ((Step.emit .prose "a b").after ((Step.push "> ").after { width := 3 })).segments =
      ["> "] := by decide
  have hlines : ∀ segment ∈ ((Step.emit .prose "a b").after
      ((Step.push "> ").after { width := 3 })).segments, '\n' ∉ segment.toList := by
    rw [hsegments]
    simp
  refine ⟨_, rfl, hused, hlines, ?_⟩
  obtain ⟨w', n, text, body, hwrite, hbuffer, hcut, _, hbody, hread, _⟩ :=
    write_fenced_code hused hlines
    { escapeFencedCode := true } .enter .stray "\x60\x60\x60\n\\c" (show "d e" ≠ "" by decide)
    (by decide)
  rw [Writer.marginText, hsegments] at hcut
  refine ⟨w', n, text, body, hwrite, ?_, hcut, fun line hline => (hbody line hline).2,
    hread.trans ?_⟩
  · rw [hbuffer, Text.Utf8.encode_append]
    exact congrArg (· ++ encode text) (by decide)
  · decide

end MarkdownLayout
