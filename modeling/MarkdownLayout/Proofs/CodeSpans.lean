import Mathlib.Data.List.Destutter
import MarkdownLayout.Proofs.Draft.Script
import MarkdownLayout.Proofs.Runs

/-!
# Code within a line

Code within a line stands between two runs of ticks that are longer than any run of ticks in it. It
may be broken at its blanks, and the second run of ticks may come to stand on a line of its own, but
no line end is written in any other place and no backslash at all. The main statement is
`render_code`: the first run of ticks is answered by the last one and by none before it, and what
stands between is the code.

That lines are broken at blanks and nowhere else is `Draft.Flat.putAll`. A blank at the start of a
line would be lost; it does not come about because no two blanks are next to each other.
-/

namespace MarkdownLayout

/-- A line end counts as a blank. -/
def asBlank (c : Char) : Char :=
  if c = '\n' then ' ' else c

/-- All characters but line ends are read as they are. -/
theorem asBlank_of_ne {c : Char} (h : c ≠ '\n') : asBlank c = c :=
  if_neg h

/-- Characters that are neither blanks nor line ends are read as themselves. -/
theorem asBlank_eq_iff {e : Char} (hblank : e ≠ ' ') (hn : e ≠ '\n') (c : Char) :
    asBlank c = e ↔ c = e := by
  by_cases hc : c = '\n'
  · subst hc
    exact iff_of_false (Ne.symm hblank) (Ne.symm hn)
  · rw [asBlank_of_ne hc]

/-- Ticks are read as ticks, and so the runs of ticks in a text can be counted after it has been
broken. -/
theorem asBlank_eq_tick_iff (c : Char) : asBlank c = tick ↔ c = tick :=
  asBlank_eq_iff (by decide) (by decide) c

/-- However lines are broken, no character but blanks and line ends comes or goes. -/
theorem count_map_asBlank {e : Char} (hblank : e ≠ ' ') (hn : e ≠ '\n') (cs : List Char) :
    (cs.map asBlank).count e = cs.count e := by
  rw [List.count_eq_countP, List.count_eq_countP, List.countP_map]
  refine List.countP_congr fun c _ => ?_
  simp [asBlank_eq_iff hblank hn]

/-- Two neighbours that are not both blanks. -/
def NotBlanks (c d : Char) : Prop :=
  ¬ (c = ' ' ∧ d = ' ')

instance : DecidableRel NotBlanks := fun c d => inferInstanceAs (Decidable (¬ (c = ' ' ∧ d = ' ')))

/-- One blank in place of each run of blanks. -/
def collapseBlanks (cs : List Char) : List Char :=
  cs.destutter NotBlanks

/-- A blank on both sides of code that begins or ends with a tick. -/
def padTicks (cs : List Char) : List Char :=
  if cs.head? = some tick ∨ cs.getLast? = some tick then ' ' :: (cs ++ [' ']) else cs

/-- A run of `n` ticks in a text, between what is in front of it and what is behind. It is not part
of a longer one. -/
structure TickRun (n : Nat) (text front back : List Char) : Prop where
  /-- It stands there. -/
  eq : text = front ++ List.replicate n tick ++ back
  /-- There is no tick in front of it. -/
  before : front.getLast? ≠ some tick
  /-- There is none behind. -/
  after : back.head? ≠ some tick

/-- A text between two runs of ticks that are longer than its own has no other run as long. -/
theorem TickRun.outermost {n : Nat} {between front back : List Char}
    (h : TickRun n (List.replicate n tick ++ between ++ List.replicate n tick) front back)
    (hlong : longestRun tick between < n) : front = [] ∨ back = [] := by
  by_contra hnot
  obtain ⟨hfront, hback⟩ := not_or.mp hnot
  have hfirst : List.replicate n tick <+: front ++ List.replicate n tick ++ back :=
    ⟨between ++ List.replicate n tick, by rw [← h.eq, List.append_assoc]⟩
  have hlast : List.replicate n tick <:+ front ++ List.replicate n tick ++ back :=
    ⟨List.replicate n tick ++ between, h.eq⟩
  have hbegins : front <+: front ++ List.replicate n tick ++ back :=
    ⟨List.replicate n tick ++ back, by rw [List.append_assoc]⟩
  have hends : back <:+ front ++ List.replicate n tick ++ back :=
    ⟨front ++ List.replicate n tick, rfl⟩
  -- a part shorter than the first run, or the last one, would be ticks
  have hfrontLength : n ≤ front.length := by
    by_contra hlt
    have hwithin : front <+: List.replicate n tick :=
      List.prefix_of_prefix_length_le hbegins hfirst (by simp; omega)
    apply h.before
    rw [(List.prefix_replicate_iff.mp hwithin).2, List.getLast?_replicate,
      if_neg (by simpa using hfront)]
  have hbackLength : n ≤ back.length := by
    by_contra hlt
    have hwithin : back <:+ List.replicate n tick :=
      List.suffix_of_suffix_length_le hends hlast (by simp; omega)
    apply h.after
    rw [(List.suffix_replicate_iff.mp hwithin).2, List.head?_replicate,
      if_neg (by simpa using hback)]
  obtain ⟨inner, hinner⟩ :=
    List.prefix_of_prefix_length_le hfirst hbegins (by simpa using hfrontLength)
  obtain ⟨outer, houter⟩ := List.suffix_of_suffix_length_le hlast hends (by simpa using hbackLength)
  have hbetween : inner ++ List.replicate n tick ++ outer = between := by
    have heq := h.eq
    rw [← hinner, ← houter] at heq
    simp only [List.append_assoc, List.append_cancel_left_eq] at heq
    rw [← List.append_assoc, ← List.append_assoc, List.append_cancel_right_eq] at heq
    rw [heq, List.append_assoc]
  have hle : n ≤ longestRun tick between := le_longestRun_of_infix ⟨inner, outer, hbetween⟩
  omega

/-- A text between two runs of ticks, without ticks at its ends, leaves them as they are. -/
theorem TickRun.ends {between : List Char} (hne : between ≠ []) (hhead : between.head? ≠ some tick)
    (hlast : between.getLast? ≠ some tick) (n : Nat) :
    TickRun n (List.replicate n tick ++ between ++ List.replicate n tick) []
        (between ++ List.replicate n tick) ∧
      TickRun n (List.replicate n tick ++ between ++ List.replicate n tick)
        (List.replicate n tick ++ between) [] := by
  refine ⟨⟨by simp, by simp, ?_⟩, ⟨by simp, ?_, by simp⟩⟩
  · rwa [List.head?_append_of_ne_nil _ hne]
  · rwa [List.getLast?_append_of_ne_nil _ hne]

/-- Ticks are not read as anything else, nor is anything else read as a tick. -/
theorem eq_replicate_of_map_asBlank {n : Nat} {cs : List Char}
    (h : cs.map asBlank = List.replicate n tick) : cs = List.replicate n tick := by
  obtain ⟨hlength, hmem⟩ := List.eq_replicate_iff.mp h
  refine List.eq_replicate_iff.mpr ⟨by rw [← hlength, List.length_map], fun c hc => ?_⟩
  exact (asBlank_eq_tick_iff c).mp (hmem _ (List.mem_map_of_mem hc))

/-- Spans are squeezed by dropping a blank behind a blank. -/
theorem destutter'_notBlanks (c : Char) (cs : List Char) :
    cs.destutter' NotBlanks c = c :: Writer.squeezeAfter (c = ' ') cs := by
  induction cs generalizing c with
  | nil => rfl
  | cons d rest ih =>
    rw [List.destutter'_cons, Writer.squeezeAfter]
    by_cases hd : d = ' '
    · subst hd
      by_cases hc : c = ' '
      · subst hc
        rw [if_neg (by simp [NotBlanks]), ih]
        rfl
      · rw [if_pos (by simp [NotBlanks, hc]), ih, if_pos rfl, if_neg (by simpa using hc)]
        rfl
    · rw [if_pos (by simp [NotBlanks, hd]), ih, if_neg hd, decide_eq_false hd]

/-- A span is squeezed to one blank for each run of blanks, so the two notions are one. -/
theorem collapseBlanks_eq (cs : List Char) : collapseBlanks cs = Writer.squeeze cs := by
  cases cs with
  | nil => rfl
  | cons c rest =>
    rw [collapseBlanks, List.destutter_cons', destutter'_notBlanks, Writer.squeeze,
      Writer.squeezeAfter]
    by_cases hc : c = ' ' <;> simp [hc]

/-- Only blanks are dropped. -/
theorem count_squeezeAfter {e : Char} (he : e ≠ ' ') (after : Bool) (cs : List Char) :
    (Writer.squeezeAfter after cs).count e = cs.count e := by
  induction cs generalizing after with
  | nil => rfl
  | cons c rest ih =>
    rw [Writer.squeezeAfter]
    by_cases hc : c = ' '
    · subst hc
      cases after <;> simp [ih, Ne.symm he]
    · rw [if_neg hc, List.count_cons, List.count_cons, ih]

/-- No two blanks are left together. -/
theorem isChain_collapseBlanks (cs : List Char) : (collapseBlanks cs).IsChain NotBlanks :=
  List.isChain_destutter _ cs

namespace Draft

/-- The text reads as `written` when line ends are read as blanks. No backslash will be written, and
the current line has not begun only if there is nothing yet or a blank in front of it. -/
structure Flat (written : List Char) (d : Draft) : Prop where
  /-- There are no margins, nothing is owed, and lines may be broken. -/
  frame : d.frame = ({ width := d.width } : Draft).frame
  /-- What is read. -/
  reads : d.text.map asBlank = written
  /-- A line begins where nothing is written yet, or behind a blank. -/
  start : d.atLineStart = true → written = [] ∨ written.getLast? = some ' '
  /-- A tail that may be moved gets no backslash. -/
  bare : ∀ tail escapes, d.line = .loose tail escapes → tailGuard escapes tail = []

namespace Flat

variable {written : List Char} {d : Draft}

/-- A flat draft has no margins and owes nothing, and neither does one of the same frame. -/
theorem frame_eq (h : d.Flat written) {d' : Draft} (hf : d'.frame = d.frame) :
    d'.frame = ({ width := d'.width } : Draft).frame := by
  rw [hf, h.frame, width_of_frame hf]

/-- Lines without margins are opened by nothing. -/
theorem margin (h : d.Flat written) : d.margin = [] :=
  margin_of_frame h.frame

/-- A new draft is flat, and nothing has been written to it. -/
theorem initial (width : Int) : ({ width } : Draft).Flat [] :=
  ⟨rfl, rfl, fun _ => .inl rfl, fun _ _ hl => by cases hl⟩

/-- Opening a line adds no text, because there is no margin. -/
theorem openLine (h : d.Flat written) : d.openLine.Flat written := by
  by_cases hl : d.line = .fresh
  · have hopened : d.openLine.line = .opened := by simp [Draft.openLine, hl]
    refine ⟨h.frame_eq (frame_openLine d), ?_, fun _ => ?_, ?_⟩
    · rw [text_openLine_of_fresh hl, h.margin, List.append_nil, h.reads]
    · exact h.start (by simp [atLineStart, hl])
    · intro tail escapes hn
      rw [hopened] at hn
      cases hn
  · rw [openLine_of_ne_fresh hl]
    exact h

/-- A blank behind something else. -/
theorem placeBlank (h : d.Flat written) (hs : d.atLineStart = false) :
    d.placeBlank.Flat (written ++ [' ']) := by
  have hline := line_placeBlank hs
  refine ⟨h.frame_eq (frame_placeBlank d), ?_, fun _ => ?_, ?_⟩
  · rw [text_placeBlank hs, List.map_append, h.reads]
    rfl
  · exact .inr List.getLast?_concat
  · intro tail escapes hn
    rw [hline] at hn
    cases hn
    rfl

/-- Any other character. -/
theorem append (h : d.Flat written) {c : Char} (hc : c ≠ '\n') :
    (d.append false [c]).Flat (written ++ [c]) := by
  refine ⟨h.frame_eq (frame_append false [c] d), ?_, fun hn => ?_, ?_⟩
  · rw [text_append, List.map_append, h.reads, List.map_singleton, asBlank_of_ne hc]
  · rw [atLineStart_append] at hn
    cases hn
  · intro tail escapes hn
    rcases line_append_cases false [c] d with hl | ⟨front, first, hd, hl⟩ <;> rw [hl] at hn <;>
      cases hn
    cases front with
    | nil => rfl
    | cons t rest =>
      rw [if_neg (List.cons_ne_nil t rest)]
      exact h.bare (t :: rest) first hd

/-- A break puts a line end in the place of a blank, and the draft reads the same. Code has no
escapes, so nothing else is added. -/
theorem settle (h : d.Flat written) : d.settle.Flat written := by
  rcases settle_cases d with ⟨tail, escapes, hl, hs⟩ | ⟨hs, _⟩ <;> rw [hs]
  · have htext : (d.rewind tail escapes).text = Glyph.chars d.head ++ '\n' :: tail := by
      rw [text_rewind, h.margin, h.bare tail escapes hl, List.nil_append, List.nil_append]
    have hreads : (Glyph.chars d.head ++ ' ' :: tail).map asBlank = written := by
      rw [← text_of_loose hl, h.reads]
    have hmoved : (d.rewind tail escapes).text.map asBlank = written := by
      rw [htext, ← hreads, List.map_append, List.map_append]
      rfl
    refine ⟨h.frame, hmoved, fun hstart => .inr ?_, ?_⟩
    · rcases line_rewind_cases tail escapes d with ⟨rfl, _⟩ | ⟨_, hsolid⟩
      · rw [← hreads, List.map_append, List.map_singleton]
        exact List.getLast?_concat
      · simp [atLineStart, hsolid] at hstart
    · exact fun tail' escapes' hn => absurd hn (line_rewind_ne_loose tail escapes d tail' escapes')
  · exact h

/-- What one character does. -/
theorem put (h : d.Flat written) {policy : Policy} (hp : policy.escapes = false) {c : Char}
    (hc : c ≠ '\n') (hblank : c = ' ' → written ≠ [] ∧ written.getLast? ≠ some ' ')
    (next : Option Char) : (d.put policy c next).Flat (written ++ [c]) := by
  have hopen := h.openLine
  refine Flat.settle ?_
  rcases place_cases policy c next d.openLine with ⟨rfl, hplace⟩ | ⟨hn, _⟩ | ⟨_, hplace⟩
  · obtain ⟨hne, hlast⟩ := hblank rfl
    rw [hplace]
    refine hopen.placeBlank (Bool.eq_false_iff.mpr fun hs => ?_)
    exact (hopen.start hs).elim hne hlast
  · exact absurd hn hc
  · have hspelled : d.openLine.spelled policy.escapes c next = [c] := by
      rw [spelled, hp]
      rfl
    rw [hplace, hspelled, hp]
    exact hopen.append hc

/-- What a span does whose lines may be broken. -/
theorem putAll (h : d.Flat written) {policy : Policy} (hp : policy.escapes = false) {cs : List Char}
    (hn : '\n' ∉ cs) (hchain : (written ++ cs).IsChain NotBlanks)
    (hhead : (written ++ cs).head? ≠ some ' ') : (d.putAll policy cs).Flat (written ++ cs) := by
  induction cs generalizing d written with
  | nil =>
    rw [List.append_nil]
    exact h
  | cons c rest ih =>
    obtain ⟨hc, hrest⟩ := not_or.mp (mt List.mem_cons.mpr hn)
    have hblank : c = ' ' → written ≠ [] ∧ written.getLast? ≠ some ' ' := by
      rintro rfl
      refine ⟨?_, fun hlast => ?_⟩
      · rintro rfl
        exact hhead rfl
      · obtain ⟨_, _, hseam⟩ := List.isChain_append.mp hchain
        exact hseam ' ' hlast ' ' rfl ⟨rfl, rfl⟩
    have hput := h.put hp (Ne.symm hc) hblank rest.head?
    rw [List.append_cons] at hchain hhead ⊢
    exact ih hput hrest hchain hhead

/-- A span where nothing is owed. -/
theorem emit (h : d.Flat written) {policy : Policy} (hp : policy.escapes = false) {span : String}
    (hn : '\n' ∉ charsOf policy span) (hchain : (written ++ charsOf policy span).IsChain NotBlanks)
    (hhead : (written ++ charsOf policy span).head? ≠ some ' ') :
    (d.emit policy span).Flat (written ++ charsOf policy span) := by
  have hflush : d.flush = d := if_pos (owed_of_frame h.frame)
  have heffective : d.effective policy = policy := by
    rw [effective, keepsLines_of_frame h.frame, Bool.not_false, Bool.and_true]
  rw [Draft.emit, hflush, heffective]
  exact h.putAll hp hn hchain hhead

end Flat

end Draft

/-- The delimiter is one tick longer than the longest run of ticks in the code. -/
theorem toList_codeDelimiter (content : String) :
    (codeDelimiter content).toList = List.replicate (longestRun tick content.toList + 1) tick :=
  String.toList_ofList

/-- Code is padded in the way that its characters are. -/
theorem toList_paddedCode (content : String) :
    (paddedCode content).toList = padTicks content.toList := by
  unfold paddedCode padTicks
  split
  · simp
  · rfl

/-- Blanks around code leave its runs of ticks as they are. -/
theorem longestRun_padTicks (cs : List Char) :
    longestRun tick (padTicks cs) = longestRun tick cs := by
  unfold padTicks
  split
  · exact longestRun_padded (by decide) cs
  · rfl

/-- Nothing but blanks is added. -/
theorem count_padTicks {e : Char} (he : e ≠ ' ') (cs : List Char) :
    (padTicks cs).count e = cs.count e := by
  unfold padTicks
  split
  · simp [Ne.symm he]
  · rfl

/-- No tick at either end. -/
theorem padTicks_ends (cs : List Char) :
    (padTicks cs).head? ≠ some tick ∧ (padTicks cs).getLast? ≠ some tick := by
  unfold padTicks
  split
  · rw [← List.cons_append, List.getLast?_concat]
    exact ⟨by simp [tick], by simp [tick]⟩
  · exact not_or.mp ‹_›

/-- Code that is not empty is not so when it is padded. -/
theorem padTicks_ne_nil {cs : List Char} (h : cs ≠ []) : padTicks cs ≠ [] := by
  unfold padTicks
  split
  · exact List.cons_ne_nil _ _
  · exact h

/-- What reads as code has no ticks at its ends. -/
theorem ends_of_map_asBlank {between cs : List Char} (hne : cs ≠ [])
    (h : between.map asBlank = collapseBlanks (padTicks cs)) :
    between ≠ [] ∧ between.head? ≠ some tick ∧ between.getLast? ≠ some tick := by
  have hhead : (between.map asBlank).head? = (padTicks cs).head? := by
    rw [h, collapseBlanks_eq, Writer.head?_squeeze]
  have hlast : (between.map asBlank).getLast? = (padTicks cs).getLast? := by
    rw [h, collapseBlanks_eq]
    exact (Writer.getLast?_squeezeAfter _).1
  rw [List.head?_map] at hhead
  rw [List.getLast?_map] at hlast
  obtain ⟨hfirst, hsecond⟩ := padTicks_ends cs
  refine ⟨?_, fun hn => hfirst ?_, fun hn => hsecond ?_⟩
  · rintro rfl
    exact padTicks_ne_nil hne (List.head?_eq_none_iff.mp hhead.symm)
  · rw [← hhead, hn]
    rfl
  · rw [← hlast, hn]
    rfl

/-- Ticks around a text bring no two blanks together. -/
theorem isChain_delimited {cs : List Char} (h : cs.IsChain NotBlanks) (n : Nat) :
    (List.replicate n tick ++ cs ++ List.replicate n tick).IsChain NotBlanks := by
  have htick : ∀ c, NotBlanks tick c ∧ NotBlanks c tick := fun c => by
    simp [NotBlanks, tick]
  have hticks : (List.replicate n tick).IsChain NotBlanks :=
    List.isChain_replicate_of_rel n (htick tick).1
  have hlast : ∀ c ∈ (List.replicate n tick).getLast?, c = tick := fun c hc =>
    List.eq_of_mem_replicate (List.mem_of_getLast? hc)
  have hhead : ∀ c ∈ (List.replicate n tick).head?, c = tick := fun c hc =>
    List.eq_of_mem_replicate (List.mem_of_head? hc)
  refine List.isChain_append.mpr ⟨List.isChain_append.mpr ⟨hticks, h, ?_⟩, hticks, ?_⟩
  · intro c hc d _
    rw [hlast c hc]
    exact (htick d).1
  · intro c _ d hd
    rw [hhead d hd]
    exact (htick c).2

/-- Code on one line stays on it until the line is broken. -/
theorem newline_notMem_collapsed {cs : List Char} (h : '\n' ∉ cs) :
    '\n' ∉ collapseBlanks (padTicks cs) := by
  intro hn
  have hpadded : '\n' ∈ padTicks cs := (List.destutter_sublist NotBlanks _).subset hn
  unfold padTicks at hpadded
  split at hpadded <;> simp [h] at hpadded

/-- A span between two delimiters, as far as no two blanks come together. -/
theorem Draft.flat_delimited (width : Int) {delimiter code : String} {ticks cs : List Char}
    (hticks : charsOf .verbatim delimiter = ticks) (hcs : charsOf .flowing code = cs)
    (hhead : ticks.head? = some tick) (hn : '\n' ∉ ticks) (hn' : '\n' ∉ cs)
    (hchain : (ticks ++ cs ++ ticks).IsChain NotBlanks) :
    (((({ width } : Draft).emit .verbatim delimiter).emit .flowing code).emit .verbatim
      delimiter).Flat (ticks ++ cs ++ ticks) := by
  have hbegins : ∀ rest, (ticks ++ rest).head? ≠ some ' ' := by
    intro rest
    rw [List.head?_append, hhead, Option.some_or]
    decide
  subst hticks hcs
  have hopened :
      (({ width } : Draft).emit .verbatim delimiter).Flat (charsOf .verbatim delimiter) := by
    refine (Flat.initial width).emit rfl hn hchain.left_of_append.left_of_append ?_
    rw [List.nil_append, hhead]
    decide
  have hwithin := hopened.emit rfl hn' hchain.left_of_append (hbegins _)
  refine hwithin.emit rfl hn hchain ?_
  rw [List.append_assoc]
  exact hbegins _

/-- The draft of code reads as the code between its delimiters. -/
theorem Draft.flat_code (width : Int) {content : String} (hn : '\n' ∉ content.toList) :
    (((({ width } : Draft).emit .verbatim (codeDelimiter content)).emit .flowing
      (paddedCode content)).emit .verbatim (codeDelimiter content)).Flat
        (List.replicate (longestRun tick content.toList + 1) tick ++
          collapseBlanks (padTicks content.toList) ++
          List.replicate (longestRun tick content.toList + 1) tick) := by
  have hcode : charsOf .flowing (paddedCode content) =
      collapseBlanks (padTicks content.toList) := by
    rw [collapseBlanks_eq, ← toList_paddedCode]
    rfl
  have hticks : '\n' ∉ List.replicate (longestRun tick content.toList + 1) tick := by
    rw [← toList_codeDelimiter]
    exact newline_notMem_ticks _
  exact flat_delimited width (toList_codeDelimiter content) hcode rfl hticks
    (newline_notMem_collapsed hn) (isChain_delimited (isChain_collapseBlanks _) _)

/-- The text is cut where its delimiters end. -/
theorem Draft.Flat.exists_between {n : Nat} {cs : List Char} {d : Draft}
    (h : d.Flat (List.replicate n tick ++ cs ++ List.replicate n tick)) :
    ∃ between, d.text = List.replicate n tick ++ between ++ List.replicate n tick ∧
      between.map asBlank = cs := by
  obtain ⟨front, closing, htext, hfront, hclosing⟩ := List.map_eq_append_iff.mp h.reads
  obtain ⟨opening, between, rfl, hopening, hbetween⟩ := List.map_eq_append_iff.mp hfront
  refine ⟨between, ?_, hbetween⟩
  rw [htext, eq_replicate_of_map_asBlank hopening, eq_replicate_of_map_asBlank hclosing]

/-- Code within a line closes where it should. Its text is a run of ticks, the code and a run of as
many ticks. Neither run is part of a longer one, and there is no other run of that length. What is
between them is the code, with a blank on both sides if it begins or ends with a tick, and with one
blank in place of each run of blanks, some of which may have become line ends. There are no
backslashes but those of the code. -/
theorem render_code (settings : RenderSettings) {content : String} (hne : content ≠ "")
    (hn : '\n' ∉ content.toList) :
    ∃ (n : Nat) (between text : List Char),
      (Node.branch .document [.branch .paragraph [.leaf (.code content)]]).render settings =
        .ok (String.ofList (text ++ ['\n', '\n'])) ∧
      0 < n ∧
      TickRun n text [] (between ++ List.replicate n tick) ∧
      TickRun n text (List.replicate n tick ++ between) [] ∧
      (∀ front back, TickRun n text front back → front = [] ∨ back = []) ∧
      between.map asBlank = collapseBlanks (padTicks content.toList) ∧
      text.count '\\' = content.toList.count '\\' := by
  have hflat := Draft.flat_code settings.width hn
  generalize hd :
    (((({ width := settings.width } : Draft).emit .verbatim (codeDelimiter content)).emit
    .flowing (paddedCode content)).emit .verbatim (codeDelimiter content)) = d at hflat
  generalize hticks : longestRun tick content.toList + 1 = n at hflat
  have hdraft : draftOfVisits settings (Node.visitsUnder .paragraph 0 [.leaf (.code content)])
      { width := settings.width } = .ok d := by
    rw [← hd]
    rfl
  obtain ⟨hclosed, count, _, hconclude, _, hcount⟩ :=
    Draft.text_conclude (Draft.segments_of_frame hflat.frame)
  obtain ⟨between, htext, hbetween⟩ := hflat.exists_between
  have hlast : d.text.getLast? = some tick := by
    rw [htext, List.getLast?_append, ← hticks, List.getLast?_replicate, if_neg (by simp),
      Option.some_or]
  have htwo : count = 2 := by
    refine hcount (fun hnil => ?_) ?_
    · rw [hnil] at hlast
      cases hlast
    · rw [hlast]
      decide
  -- the delimiters are longer than the runs between them
  have hlong : longestRun tick between < n := by
    rw [← longestRun_map asBlank_eq_tick_iff, hbetween, collapseBlanks_eq,
      longestRun_squeeze (by decide), longestRun_padTicks]
    omega
  have hcode : content.toList ≠ [] := fun hnil => hne (String.toList_eq_nil_iff.mp hnil)
  obtain ⟨hne', hhead', hlast'⟩ := ends_of_map_asBlank hcode hbetween
  obtain ⟨hfirst, hsecond⟩ := TickRun.ends hne' hhead' hlast' n
  refine ⟨n, between, List.replicate n tick ++ between ++ List.replicate n tick, ?_, by omega,
    hfirst, hsecond, fun _ _ hrun => hrun.outermost hlong, hbetween, ?_⟩
  · rw [Node.render_paragraph hdraft hclosed, hconclude, htext, htwo]
    rfl
  · have hcount : between.count '\\' = content.toList.count '\\' := by
      rw [← count_map_asBlank (by decide) (by decide), hbetween, collapseBlanks_eq, Writer.squeeze,
        count_squeezeAfter (by decide), count_padTicks (by decide)]
    have hnone : (List.replicate n tick).count '\\' = 0 := by simp [List.count_replicate, tick]
    rw [List.count_append, List.count_append, hnone, hcount, Nat.zero_add, Nat.add_zero]

/-- Code that begins and ends with a tick and does not fit the line. -/
theorem render_code_broken :
    ∃ (n : Nat) (between text : List Char),
      (Node.branch .document [.branch .paragraph [.leaf (.code "\x60\x60  a\x60")]]).render
        { width := 4 } = .ok (String.ofList (text ++ ['\n', '\n'])) ∧
      TickRun n text [] (between ++ List.replicate n tick) ∧
      TickRun n text (List.replicate n tick ++ between) [] ∧
      (∀ front back, TickRun n text front back → front = [] ∨ back = []) ∧
      between.map asBlank = " \x60\x60 a\x60 ".toList := by
  obtain ⟨n, between, text, hrender, _, hfirst, hlast, honly, hbetween, _⟩ :=
    render_code { width := 4 } (show "\x60\x60  a\x60" ≠ "" by decide) (by decide)
  have hcode : collapseBlanks (padTicks "\x60\x60  a\x60".toList) = " \x60\x60 a\x60 ".toList := by
    decide
  exact ⟨n, between, text, hrender, hfirst, hlast, honly, hbetween.trans hcode⟩

end MarkdownLayout
