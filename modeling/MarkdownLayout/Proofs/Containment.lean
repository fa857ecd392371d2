import Mathlib.Data.List.DropRight
import Mathlib.Data.List.Infix
import MarkdownLayout.Proofs.Reachable

/-!
# Lines stay in their containers

As long as the outer margins are not taken back, every line begins with them, whatever begins the
line: a line end in a span, a break, or a break owed. A blank line begins with them too. Only a line
that has just begun has nothing on it yet. The main statement is `outer_prefix_takeWhile_run`.

The lines that were ended before are left alone, so they are split off from the text once and for
all. What is kept about the rest is `Enclosed`, and `Opened` once the margin of the last line is
written.
-/

namespace MarkdownLayout.Writer

/-- The octets are those kept and a rest in which every line end has `outer` behind it, unless it is
the last octet. The start of the text counts as a line end. -/
def Enclosed (kept outer octets : List UInt8) : Prop :=
  ∃ rest, newline :: octets = kept ++ rest ∧
    ∀ before after, rest = before ++ newline :: after → after = [] ∨ outer <+: after

/-- The octets are those kept and a rest in which every line end has `outer` behind it. -/
def Opened (kept outer octets : List UInt8) : Prop :=
  ∃ rest, newline :: octets = kept ++ rest ∧
    ∀ before after, rest = before ++ newline :: after → outer <+: after

/-- A line end in front of octets that hold none. -/
theorem exists_eq_of_append_eq {octets more before after : List UInt8} (hm : newline ∉ more)
    (h : octets ++ more = before ++ newline :: after) :
    ∃ between, octets = before ++ newline :: between ∧ after = between ++ more := by
  rcases List.append_eq_append_iff.mp h with ⟨between, _, hmore⟩ | ⟨between, hoctets, hafter⟩
  · exact absurd (hmore ▸ List.mem_append_right between List.mem_cons_self) hm
  · cases between with
    | nil =>
      have hmore : newline :: after = more := hafter
      exact absurd (hmore ▸ List.mem_cons_self) hm
    | cons b between =>
      obtain ⟨hb, hbetween⟩ := List.cons.inj hafter
      exact ⟨between, by rw [hoctets, hb], hbetween⟩

namespace Opened

variable {kept outer octets : List UInt8}

theorem enclosed (h : Opened kept outer octets) : Enclosed kept outer octets := by
  obtain ⟨rest, hoctets, hrest⟩ := h
  exact ⟨rest, hoctets, fun before after he => .inr (hrest before after he)⟩

/-- An open line may go on. -/
theorem append (h : Opened kept outer octets) {more : List UInt8} (hm : newline ∉ more) :
    Opened kept outer (octets ++ more) := by
  obtain ⟨rest, hoctets, hrest⟩ := h
  refine ⟨rest ++ more, by rw [← List.cons_append, hoctets, List.append_assoc],
    fun before after he => ?_⟩
  obtain ⟨between, hbetween, hafter⟩ := exists_eq_of_append_eq hm he
  rw [hafter]
  exact (hrest before between hbetween).trans (List.prefix_append between more)

/-- An open line may be ended. -/
theorem newline (h : Opened kept outer octets) : Enclosed kept outer (octets ++ [newline]) := by
  obtain ⟨rest, hoctets, hrest⟩ := h
  refine ⟨rest ++ [Writer.newline], by rw [← List.cons_append, hoctets, List.append_assoc],
    fun before after he => ?_⟩
  obtain rfl | ⟨between, last, rfl⟩ := after.eq_nil_or_concat
  · exact .inl rfl
  · rw [List.concat_eq_append] at he ⊢
    rw [← List.cons_append, ← List.append_assoc] at he
    have hbetween := (List.append_inj' he rfl).1
    exact .inr ((hrest before between hbetween).trans (List.prefix_append between [last]))

end Opened

namespace Enclosed

variable {kept outer octets : List UInt8}

/-- A line is opened by what begins with `outer`. -/
theorem append (h : Enclosed kept outer octets) {more : List UInt8} (hm : newline ∉ more)
    (ho : outer <+: more) : Opened kept outer (octets ++ more) := by
  obtain ⟨rest, hoctets, hrest⟩ := h
  refine ⟨rest ++ more, by rw [← List.cons_append, hoctets, List.append_assoc],
    fun before after he => ?_⟩
  obtain ⟨between, hbetween, hafter⟩ := exists_eq_of_append_eq hm he
  rw [hafter]
  rcases hrest before between hbetween with hnil | hprefix
  · rw [hnil]
    exact ho
  · exact hprefix.trans (List.prefix_append between more)

/-- A line on which anything stands is open. -/
theorem opened (h : Enclosed kept outer octets) (hne : octets ≠ [])
    (hl : octets.getLast? ≠ some newline) : Opened kept outer octets := by
  obtain ⟨rest, hoctets, hrest⟩ := h
  refine ⟨rest, hoctets, fun before after he => ?_⟩
  refine (hrest before after he).resolve_left fun hnil => hl ?_
  rw [← List.getLast?_append_of_ne_nil [newline] hne, List.singleton_append, hoctets, he, hnil,
    ← List.append_assoc, List.getLast?_concat]

end Enclosed

/-- The lines of a writer are in the outer margins, and stay there if its line is broken. -/
structure Within (kept outer : List UInt8) (w : Writer) : Prop where
  /-- The margins are on one line. -/
  margin : newline ∉ w.margin.toList
  /-- The outer margins come first. -/
  begins : outer <+: w.margin.toList
  /-- A line that may be broken has begun. -/
  begun : ∀ k, w.breakPoint = some k → w.atLineStart = false
  /-- No line ends behind the break point. -/
  tail : ∀ k, w.breakPoint = some k → newline ∉ w.buffer.toList.drop (k + 1)
  /-- The line may be ended at the break point. -/
  head : ∀ k, w.breakPoint = some k → Enclosed kept outer (w.buffer.toList.take k ++ [newline])
  /-- The lines are in the outer margins. -/
  lines : Enclosed kept outer w.buffer.toList
  /-- So is the current one, unless its margin is still to be written. -/
  current : (w.atLineStart = true → w.marginWritten = true) → Opened kept outer w.buffer.toList

namespace Within

variable {kept outer : List UInt8} {w : Writer}

/-- Without a break point only the lines count. -/
theorem of_breakPoint_none {w' : Writer} (h : w.Within kept outer) (hm : w'.margin = w.margin)
    (hb : w'.breakPoint = none) (hl : Enclosed kept outer w'.buffer.toList)
    (hc : (w'.atLineStart = true → w'.marginWritten = true) →
      Opened kept outer w'.buffer.toList) : w'.Within kept outer := by
  refine ⟨?_, ?_, ?_, ?_, ?_, hl, hc⟩
  · rw [hm]
    exact h.margin
  · rw [hm]
    exact h.begins
  all_goals
    intro k hk
    rw [hb] at hk
    cases hk

/-- The margin of a line puts it into the outer margins. -/
theorem openLine (h : w.Within kept outer) :
    w.openLine.Within kept outer ∧ Opened kept outer w.openLine.buffer.toList := by
  unfold Writer.openLine
  by_cases hc : w.atLineStart = true ∧ ¬ w.marginWritten = true
  · rw [if_pos hc]
    have hopened : Opened kept outer (w.buffer ++ w.margin).toList := by
      rw [Array.toList_append]
      exact h.lines.append h.margin h.begins
    have hnone : w.breakPoint = none := by
      cases hk : w.breakPoint with
      | none => rfl
      | some k =>
        have hbegun := h.begun k hk
        rw [hc.1] at hbegun
        cases hbegun
    exact ⟨h.of_breakPoint_none rfl hnone hopened.enclosed fun _ => hopened, hopened⟩
  · rw [if_neg hc]
    refine ⟨h, h.current fun hs => ?_⟩
    simpa [hs] using hc

theorem placeBlank (h : w.Within kept outer) (ho : Opened kept outer w.buffer.toList) :
    w.placeBlank.Within kept outer := by
  unfold Writer.placeBlank
  by_cases hs : w.atLineStart = true
  · rw [if_pos hs]
    exact h
  · rw [if_neg hs]
    have hopened : Opened kept outer (w.buffer.push blank).toList := by
      rw [Array.toList_push]
      exact ho.append (by decide)
    refine ⟨h.margin, h.begins, ?_, ?_, ?_, hopened.enclosed, fun _ => hopened⟩
    · intro k _
      simpa using hs
    · intro k hk
      cases hk
      rw [Array.toList_push, List.drop_eq_nil_of_le (by simp)]
      exact List.not_mem_nil
    · intro k hk
      cases hk
      simpa using ho.newline

/-- A line that is ended leaves one without anything on it. -/
theorem startLine {w' : Writer} (h : w.Within kept outer) (hm : w'.margin = w.margin)
    (hl : Enclosed kept outer w'.buffer.toList) : w'.startLine.Within kept outer :=
  h.of_breakPoint_none hm rfl hl fun hn => absurd (hn rfl) Bool.false_ne_true

/-- Octets on an open line go behind the break point, wherever that is. -/
theorem append {w' : Writer} (h : w.Within kept outer) (ho : Opened kept outer w.buffer.toList)
    (hm : w'.margin = w.margin) (hb : w'.breakPoint = w.breakPoint) (hs : w'.atLineStart = false)
    {more : List UInt8} (hmore : newline ∉ more)
    (hbuffer : w'.buffer.toList = w.buffer.toList ++ more) : w'.Within kept outer := by
  have hopened : Opened kept outer w'.buffer.toList := by
    rw [hbuffer]
    exact ho.append hmore
  refine ⟨?_, ?_, fun _ _ => hs, ?_, ?_, hopened.enclosed, fun _ => hopened⟩
  · rw [hm]
    exact h.margin
  · rw [hm]
    exact h.begins
  · intro k hk
    rw [hb] at hk
    rw [hbuffer, List.drop_append]
    intro hn
    rcases List.mem_append.mp hn with hn | hn
    · exact h.tail k hk hn
    · exact hmore (List.mem_of_mem_drop hn)
  · intro k hk
    rw [hb] at hk
    rw [hbuffer, List.take_append]
    rcases Nat.le_or_le k w.buffer.toList.length with hle | hle
    · rw [Nat.sub_eq_zero_of_le hle, List.take_zero, List.append_nil]
      exact h.head k hk
    · rw [List.take_of_length_le hle]
      exact (ho.append fun hn => hmore (List.mem_of_mem_take hn)).newline

theorem placeGlyph (h : w.Within kept outer) (ho : Opened kept outer w.buffer.toList)
    (escapes : Bool) {c : Char} (hc : c ≠ '\n') (next : Option Char) :
    (w.placeGlyph escapes c next).Within kept outer := by
  have hglyph : newline ∉ String.utf8EncodeChar c := by
    have hone : '\n' ∉ [c] := by simpa using hc.symm
    simpa using Text.Utf8.newline_notMem_encode hone
  unfold Writer.placeGlyph
  dsimp only
  cases escapes && w.needsEscape c next with
  | true =>
    have hescaped : newline ∉ backslash :: String.utf8EncodeChar c := by
      simpa using ⟨by decide, hglyph⟩
    exact h.append ho rfl rfl rfl hescaped (by simp)
  | false => exact h.append ho rfl rfl rfl hglyph (by simp)

theorem place (h : w.Within kept outer) (ho : Opened kept outer w.buffer.toList)
    (policy : Policy) (c : Char) (next : Option Char) :
    (w.place policy c next).Within kept outer := by
  unfold Writer.place
  split
  · exact h.placeBlank ho
  · split
    · refine h.startLine rfl ?_
      rw [Array.toList_push]
      exact ho.newline
    · rename_i hc
      exact h.placeGlyph ho policy.escapes hc next

/-- What is moved to a new line is behind a margin there. -/
theorem settle (h : w.Within kept outer) : (w.leftBy settle).Within kept outer := by
  rcases leftBy_settle_cases w with hs | ⟨k, hk, hbroken⟩
  · rw [hs]
    exact h
  generalize w.leftBy Writer.settle = w' at hbroken
  obtain ⟨guard, hguard, hbuffer⟩ := hbroken.buffer
  rw [← List.singleton_append, ← List.append_assoc] at hbuffer
  have hmoved : newline ∉ w.margin.toList ++ (guard ++ w.buffer.toList.drop (k + 1)) := by
    simp [h.margin, hguard, h.tail k hk]
  have hopened : Opened kept outer w'.buffer.toList := by
    rw [hbuffer]
    exact (h.head k hk).append hmoved (h.begins.trans (List.prefix_append _ _))
  rcases hbroken.breakPoint with hnone | ⟨hsome, hstart, hlt⟩
  · exact h.of_breakPoint_none hbroken.margin hnone hopened.enclosed fun _ => hopened
  · -- The break point stays, and so does what stands before it.
    have hlength : (w.buffer.toList.take k).length = k := by
      rw [List.length_take, Array.length_toList]
      omega
    refine ⟨?_, ?_, fun _ _ => hstart, ?_, ?_, hopened.enclosed, fun _ => hopened⟩
    · rw [hbroken.margin]
      exact h.margin
    · rw [hbroken.margin]
      exact h.begins
    · intro k' hk'
      rw [hsome] at hk'
      cases hk'
      rw [hbuffer, List.drop_left' (by rw [List.length_append, hlength, List.length_singleton])]
      exact hmoved
    · intro k' hk'
      rw [hsome] at hk'
      cases hk'
      rw [hbuffer, List.append_assoc, List.take_left' hlength]
      exact h.head k hk

theorem put (h : w.Within kept outer) (policy : Policy) (c : Char) (next : Option Char) :
    (w.leftBy (put policy c next)).Within kept outer := by
  obtain ⟨hopen, ho⟩ := h.openLine
  exact (hopen.place ho policy c next).settle

/-- The breaks owed end an open line, and a blank line is in the outer margins. -/
theorem enclosed_breaksOwed (h : w.Within kept outer) :
    Enclosed kept outer (w.buffer.toList ++ w.breaksOwed.toList) := by
  have hblank : ∀ {octets : List UInt8}, Enclosed kept outer octets →
      Enclosed kept outer (octets ++ (w.margin.toList ++ [newline])) := by
    intro octets ho
    rw [← List.append_assoc]
    exact (ho.append h.margin h.begins).newline
  rw [toList_breaksOwed]
  cases w.owed with
  | nothing =>
    rw [List.append_nil]
    exact h.lines
  | lineEnd =>
    dsimp only
    split
    · rw [List.append_nil]
      exact h.lines
    · rename_i hl
      obtain ⟨hne, hl⟩ := not_or.mp hl
      exact (h.lines.opened hne hl).newline
  | blankLine =>
    dsimp only
    split
    · rw [List.append_nil]
      exact h.lines
    · rename_i hspaced
      split
      · exact hblank h.lines
      · rename_i hl
        rw [List.append_cons]
        exact hblank (h.lines.opened (fun hne => hspaced (.inl hne)) hl).newline

theorem flush (h : w.Within kept outer) : w.flush.Within kept outer := by
  unfold Writer.flush
  split
  · exact h
  · refine h.startLine rfl ?_
    rw [Array.toList_append]
    exact h.enclosed_breaksOwed

/-- What is written where does not depend on the margins. -/
theorem of_same_text {w' : Writer} (h : w.Within kept outer) (hbuffer : w'.buffer = w.buffer)
    (hb : w'.breakPoint = w.breakPoint) (hs : w'.atLineStart = w.atLineStart)
    (hw : w'.marginWritten = w.marginWritten) (hm : newline ∉ w'.margin.toList)
    (ho : outer <+: w'.margin.toList) : w'.Within kept outer := by
  refine ⟨hm, ho, ?_, ?_, ?_, ?_, ?_⟩
  · rw [hb, hs]
    exact h.begun
  · rw [hb, hbuffer]
    exact h.tail
  · rw [hb, hbuffer]
    exact h.head
  · rw [hbuffer]
    exact h.lines
  · rw [hbuffer, hs, hw]
    exact h.current

/-- What a step keeps that leaves the outer margins where they are. -/
theorem after (h : w.Within kept outer) (s : Step) (hm : newline ∉ (s.after w).margin.toList)
    (ho : outer <+: (s.after w).margin.toList) : (s.after w).Within kept outer := by
  cases s with
  | emit policy span =>
    rw [after_emit]
    exact leftBy_putAll (P := Within kept outer) (fun c next w' hw => hw.put _ c next) _ h.flush
  | flush => exact h.flush
  | startLine => exact h.startLine rfl h.lines
  | owe owed =>
    have hafter : (Step.owe owed).after w = w.owe owed := rfl
    rw [hafter]
    unfold Writer.owe
    split
    · exact h.of_same_text rfl rfl rfl rfl h.margin h.begins
    · exact h
  | pop expected =>
    rcases after_pop_cases expected w with he | ⟨inner, top, _, he⟩
    · rw [he]
      exact h
    · rw [he] at hm ho ⊢
      exact h.of_same_text rfl rfl rfl rfl hm ho
  | push segment | keepLines on | setWidth width => exact h.of_same_text rfl rfl rfl rfl hm ho

end Within

/-- In any writer that can be reached no line ends behind the break point. -/
theorem Reachable.within {w : Writer} (h : w.Reachable) : w.Within [] [] := by
  have henclosed : ∀ octets, Enclosed [] [] octets := fun octets =>
    ⟨newline :: octets, rfl, fun _ _ _ => .inr List.nil_prefix⟩
  have hopened : ∀ octets, Opened [] [] octets := fun octets =>
    ⟨newline :: octets, rfl, fun _ _ _ => List.nil_prefix⟩
  induction h with
  | fresh width =>
    refine ⟨List.not_mem_nil, List.nil_prefix, ?_, ?_, fun _ _ => henclosed _, henclosed _,
      fun _ => hopened _⟩
    · intro k hk
      cases hk
    · intro k hk
      cases hk
  | step hw hs ih => exact ih.after _ (hw.step hs).margined.newline_notMem List.nil_prefix
  | @detach w _ ih =>
    rcases leftBy_detach_cases w with hd | hd
    · rw [hd]
      exact ih
    · rw [hd]
      exact ⟨ih.margin, ih.begins, ih.begun, fun _ _ => by simp, fun _ _ => henclosed _,
        henclosed _, fun _ => hopened _⟩

/-- A line that was begun before may be anything. -/
theorem opened_of_unbroken {kept rest : List UInt8} (h : newline ∉ rest) (outer : List UInt8) :
    Opened (newline :: kept) outer (kept ++ rest) :=
  ⟨rest, rfl, fun before _ he =>
    absurd (he ▸ List.mem_append_right before List.mem_cons_self) h⟩

/-- The lines that have been ended, with their line ends. -/
def ended (w : Writer) : List UInt8 :=
  w.buffer.toList.rdropWhile (· ≠ newline)

/-- Nothing stands on the current line, and its margin is still to be written. -/
def LineUnbegun (w : Writer) : Prop :=
  w.ended = w.buffer.toList ∧ w.atLineStart = true ∧ w.marginWritten = false

theorem ended_cases (w : Writer) : w.ended = [] ∨ ∃ lines, w.ended = lines ++ [newline] := by
  by_cases hne : w.ended = []
  · exact .inl hne
  · have hlast : w.ended.getLast hne = newline := by
      have hnot := List.rdropWhile_last_not (· ≠ newline) w.buffer.toList hne
      exact of_not_not (mt decide_eq_true hnot)
    refine .inr ⟨w.ended.dropLast, ?_⟩
    rw [← hlast, List.dropLast_append_getLast]

namespace Within

variable {outer : List UInt8} {w : Writer}

/-- At first no line has been begun that would have to be in the outer margins. -/
theorem initial (h : w.Within [] []) (ho : outer <+: w.margin.toList) :
    w.Within (newline :: w.ended) outer := by
  have hbuffer : w.buffer.toList = w.ended ++ w.buffer.toList.rtakeWhile (· ≠ newline) :=
    List.rdropWhile_append_rtakeWhile.symm
  generalize hrest : w.buffer.toList.rtakeWhile (· ≠ newline) = rest at hbuffer
  have hunbroken : newline ∉ rest := by
    intro hm
    rw [← hrest] at hm
    simpa using List.mem_rtakeWhile_imp hm
  have hopened : Opened (newline :: w.ended) outer w.buffer.toList := by
    rw [hbuffer]
    exact opened_of_unbroken hunbroken outer
  refine ⟨h.margin, ho, h.begun, h.tail, fun k hk => ?_, hopened.enclosed, fun _ => hopened⟩
  rcases Nat.lt_or_ge k w.ended.length with hlt | hge
  · -- Only the last line end may be the break point itself.
    rcases w.ended_cases with hnil | ⟨lines, hended⟩
    · simp [hnil] at hlt
    have hk' : lines.length ≤ k := by
      refine Nat.le_of_not_lt fun hn => h.tail k hk ?_
      rw [hbuffer, hended, List.append_assoc, List.drop_append_of_le_length hn]
      exact List.mem_append_right _ List.mem_cons_self
    have hlength : lines.length = k := by
      rw [hended, List.length_append, List.length_singleton] at hlt
      omega
    rw [hbuffer, hended, List.append_assoc, List.take_left' hlength]
    exact ⟨[], by rw [List.append_nil], fun before after he => by simp at he⟩
  · rw [hbuffer, List.take_append, List.take_of_length_le hge]
    exact (opened_of_unbroken (fun hm => hunbroken (List.mem_of_mem_take hm)) outer).newline

/-- The current line is one of those that have to be, if it is not begun. Its line end is then not
among the octets kept. -/
theorem initial_of_lineUnbegun (h : w.Within [] []) (ho : outer <+: w.margin.toList)
    (hu : w.LineUnbegun) {kept : List UInt8} (hk : newline :: w.ended = kept ++ [newline]) :
    w.Within kept outer := by
  obtain ⟨hended, hstart, hmargin⟩ := hu
  have hnone : ∀ k, w.breakPoint ≠ some k := by
    intro k hs
    have hbegun := h.begun k hs
    rw [hstart] at hbegun
    cases hbegun
  refine ⟨h.margin, ho, h.begun, h.tail, fun k hs => absurd hs (hnone k), ?_, fun hc => ?_⟩
  · refine ⟨[newline], by rw [← hk, hended], fun before after he => .inl ?_⟩
    have hlength := congrArg List.length he
    simp only [List.length_append, List.length_cons, List.length_nil] at hlength
    exact List.length_eq_zero_iff.mp (by omega)
  · rw [hmargin] at hc
    cases hc hstart

end Within

/-- A writer that still has the outer margins, and has kept what was ended. -/
structure Holds (kept : List UInt8) (outer : List String) (w : Writer) : Prop where
  /-- The octets of the margins are those of the margins put down. -/
  margined : w.Margined
  /-- The outer margins are still there. -/
  segments : outer <+: w.segments
  /-- The lines are in the outer margins. -/
  within : w.Within kept (outer.flatMap Text.Utf8.octets)

/-- A step puts down a margin, takes one back or leaves the margins alone. -/
theorem segments_after_cases (s : Step) (w : Writer) :
    (s.after w).segments <+: w.segments ∨ w.segments <+: (s.after w).segments := by
  have hsame : ∀ {w' : Writer}, SameMargins w w' → w'.segments <+: w.segments := by
    intro w' h
    rw [h.segments]
  cases s with
  | emit policy span => exact .inl (hsame (.after_emit policy span w))
  | owe owed => exact .inl (hsame (.owe owed w))
  | flush => exact .inl (hsame (.flush w))
  | push segment => exact .inr (List.prefix_append w.segments [segment])
  | pop expected =>
    left
    rcases after_pop_cases expected w with he | ⟨inner, top, ho, he⟩
    · rw [he]
    · rw [he, ho]
      exact List.prefix_append inner [top]
  | keepLines on | startLine | setWidth width => exact .inl (List.prefix_refl w.segments)

theorem Margined.outer_prefix {w : Writer} (h : w.Margined) {outer : List String}
    (ho : outer <+: w.segments) : outer.flatMap Text.Utf8.octets <+: w.margin.toList := by
  obtain ⟨inner, hi⟩ := ho
  rw [h.octets, ← hi, List.flatMap_append]
  exact List.prefix_append _ _

namespace Holds

variable {kept : List UInt8} {outer : List String} {w : Writer}

/-- What a step keeps. -/
theorem after (h : w.Holds kept outer) {s : Step} (hs : s.onOneLine)
    (hd : outer.length ≤ (s.after w).depth) : (s.after w).Holds kept outer := by
  have hmargined := h.margined.after hs
  have hsegments : outer <+: (s.after w).segments := by
    rcases segments_after_cases s w with hp | hp
    · exact List.prefix_of_prefix_length_le h.segments hp hd
    · exact h.segments.trans hp
  exact ⟨hmargined, hsegments,
    h.within.after s hmargined.newline_notMem (hmargined.outer_prefix hsegments)⟩

/-- What a run keeps. -/
theorem run (h : w.Holds kept outer) {steps : List Step} (hs : ∀ s ∈ steps, s.onOneLine)
    (hd : ∀ more, more <+: steps → outer.length ≤ (w.run more).depth) :
    (w.run steps).Holds kept outer := by
  induction steps generalizing w with
  | nil => exact h
  | cons s steps ih =>
    obtain ⟨hfirst, hrest⟩ := List.forall_mem_cons.mp hs
    have hstep : outer.length ≤ (s.after w).depth := hd [s] ⟨steps, rfl⟩
    refine ih (h.after hfirst hstep) hrest fun more hm => ?_
    exact hd (s :: more) (List.cons_prefix_cons.mpr ⟨rfl, hm⟩)

end Holds

/-- What stands in front of a line without a line end stands in front of what the line holds. -/
theorem prefix_takeWhile_newline {outer octets : List UInt8} (ho : newline ∉ outer)
    (h : outer <+: octets) : outer <+: octets.takeWhile (· ≠ newline) := by
  obtain ⟨line, rfl⟩ := h
  rw [List.takeWhile_append_of_pos]
  · exact List.prefix_append _ _
  · intro b hb
    refine decide_eq_true fun hn => ho ?_
    rwa [← hn]

/-- Every line that is begun while the outer margins are not taken back begins with them, unless
nothing stands on it and it has not been ended. That is so for the lines behind a line end that is
written, and for the line that the writer was on if that was not begun. -/
theorem outer_prefix_takeWhile_run {w : Writer} (h : w.Reachable) {depth : Nat} {steps : List Step}
    (hs : ∀ s ∈ steps, s.onOneLine) (hd : ∀ more, more <+: steps → depth ≤ (w.run more).depth) :
    ∃ rest, (w.run steps).buffer.toList = w.ended ++ rest ∧
      (∀ before after, rest = before ++ newline :: after → after ≠ [] →
        (w.segments.take depth).flatMap Text.Utf8.octets <+: after.takeWhile (· ≠ newline)) ∧
      (w.LineUnbegun → rest ≠ [] →
        (w.segments.take depth).flatMap Text.Utf8.octets <+: rest.takeWhile (· ≠ newline)) := by
  have hprefix : w.segments.take depth <+: w.segments := List.take_prefix depth w.segments
  have houter := h.margined.outer_prefix hprefix
  have hnot : newline ∉ (w.segments.take depth).flatMap Text.Utf8.octets := fun hn =>
    h.margined.newline_notMem (houter.subset hn)
  have hrun : ∀ {kept : List UInt8},
      w.Within kept ((w.segments.take depth).flatMap Text.Utf8.octets) →
      Enclosed kept ((w.segments.take depth).flatMap Text.Utf8.octets)
        (w.run steps).buffer.toList := by
    intro kept hw
    have hinitial : w.Holds kept (w.segments.take depth) := ⟨h.margined, hprefix, hw⟩
    have hlength : (w.segments.take depth).length ≤ depth := List.length_take_le depth w.segments
    exact (hinitial.run hs fun more hm => hlength.trans (hd more hm)).within.lines
  obtain ⟨rest, hbuffer, hrest⟩ := hrun (h.within.initial houter)
  refine ⟨rest, (List.cons.inj hbuffer).2, fun before after he hne => ?_, fun hu hne => ?_⟩
  · exact prefix_takeWhile_newline hnot ((hrest before after he).resolve_left hne)
  · obtain ⟨kept, hkept⟩ : ∃ kept, newline :: w.ended = kept ++ [newline] := by
      rcases w.ended_cases with hnil | ⟨lines, hlines⟩
      · exact ⟨[], by rw [hnil, List.nil_append]⟩
      · exact ⟨newline :: lines, by rw [hlines, List.cons_append]⟩
    obtain ⟨rest', hbuffer', hrest'⟩ := hrun (h.within.initial_of_lineUnbegun houter hu hkept)
    have hsame : rest' = newline :: rest := by
      rw [hbuffer, hkept, List.append_assoc] at hbuffer'
      exact (List.append_cancel_left hbuffer').symm
    exact prefix_takeWhile_newline hnot ((hrest' [] rest hsame).resolve_left hne)

/-- A line that is broken in the middle of an inner margin, a blank line owed there, and line ends
in a span once the inner margin has been taken back. -/
theorem outer_prefix_takeWhile_run_quoted :
    ∃ (w : Writer) (steps : List Step),
      w = ({ width := 8 } : Writer).run [.push "> ", .emit .verbatim "a\n"] ∧
      steps = [.emit .prose "b cd", .push "- ", .emit .prose "efg", .owe .blankLine, .flush,
        .pop none, .emit .verbatim "h\n\ni"] ∧
      w.Reachable ∧ w.LineUnbegun ∧ (∀ s ∈ steps, s.onOneLine) ∧
      (∀ more, more <+: steps → 1 ≤ (w.run more).depth) ∧
      (w.run steps).buffer =
        (Text.Utf8.octets "> a\n> b\n> - cdefg\n> - \n> h\n> \n> i").toArray ∧
      ∃ rest, (w.run steps).buffer.toList = w.ended ++ rest ∧
        (∀ before after, rest = before ++ newline :: after → after ≠ [] →
          (w.segments.take 1).flatMap Text.Utf8.octets <+: after.takeWhile (· ≠ newline)) ∧
        (w.LineUnbegun → rest ≠ [] →
          (w.segments.take 1).flatMap Text.Utf8.octets <+: rest.takeWhile (· ≠ newline)) := by
  have hreachable : (({ width := 8 } : Writer).run [.push "> ", .emit .verbatim "a\n"]).Reachable :=
    (Reachable.fresh 8).run (by decide)
  have hsteps : ∀ s ∈ [Step.emit .prose "b cd", .push "- ", .emit .prose "efg", .owe .blankLine,
      .flush, .pop none, .emit .verbatim "h\n\ni"], s.onOneLine := by
    decide
  have hinits : ∀ more ∈ List.inits [Step.emit .prose "b cd", .push "- ", .emit .prose "efg",
      .owe .blankLine, .flush, .pop none, .emit .verbatim "h\n\ni"],
      1 ≤ ((({ width := 8 } : Writer).run [.push "> ", .emit .verbatim "a\n"]).run more).depth := by
    decide
  have hdepth := fun more hm => hinits more ((List.mem_inits more _).mpr hm)
  exact ⟨_, _, rfl, rfl, hreachable, ⟨by decide +kernel, rfl, rfl⟩, hsteps, hdepth,
    by decide +kernel, outer_prefix_takeWhile_run hreachable hsteps hdepth⟩

end MarkdownLayout.Writer
