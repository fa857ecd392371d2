import MarkdownLayout.Proofs.Draft.Spelling
import MarkdownLayout.Proofs.Draft.Step
import MarkdownLayout.Proofs.Words

/-!
# The gist of a draft

There is a machine without a width that knows the words of a text and the breaks owed, and nothing
of lines. As long as a draft stands in no margin and may break its lines, every step does to this
machine what it does to the draft: this is `Flowing.apply`. The one thing to watch is a backslash
that makes up a word, for at the start of a line it would be taken for the guard of what comes next.
-/

namespace MarkdownLayout

/-- What a draft holds whatever its width is. -/
structure Gist where
  /-- The words that are complete. -/
  words : List (List Char) := []
  /-- The characters of a word that may go on. -/
  word : List Char := []
  /-- The line breaks owed before the next span. -/
  owed : Owed := .nothing
  deriving DecidableEq, Repr

namespace Gist

/-- The gist of a text. -/
def ofText (owed : Owed) (text : List Char) : Gist :=
  ⟨(Reader.read text).words, (Reader.read text).word, owed⟩

/-- Complete the word. -/
def close (g : Gist) : Gist :=
  ⟨addWord g.words g.word, [], g.owed⟩

/-- Go on with the word. -/
def extend (cs : List Char) (g : Gist) : Gist :=
  { g with word := g.word ++ cs }

/-- Write one character of a span. -/
def put (escapes : Bool) (c : Char) (next : Option Char) (g : Gist) : Gist :=
  if c = ' ' ∨ c = '\n' then g.close
  else g.extend (if escapes && marked g.word.getLast? c next then ['\\', c] else [c])

/-- Write the characters of a span. -/
def putAll (escapes : Bool) : List Char → Gist → Gist
  | [], g => g
  | c :: rest, g => putAll escapes rest (g.put escapes c rest.head?)

/-- Write the breaks owed. -/
def flush (g : Gist) : Gist :=
  if g.owed = .nothing then g else { g.close with owed := .nothing }

/-- What a step within a paragraph does. -/
def apply (g : Gist) : Step → Gist
  | .emit policy span => g.flush.putAll policy.escapes (Draft.charsOf policy span)
  | .owe owed => if g.owed.level < owed.level then { g with owed } else g
  | _ => g

/-- No character comes to stand right behind a backslash that makes up a word and would guard it. -/
def Accepts (escapes : Bool) : List Char → Gist → Prop
  | [], _ => True
  | c :: rest, g =>
    (g.word = ['\\'] → c ∉ Writer.opensBlock) ∧ Accepts escapes rest (g.put escapes c rest.head?)

/-- The steps within a paragraph, as far as they are accepted. -/
def Takes (g : Gist) : Step → Prop
  | .emit policy span => g.flush.Accepts policy.escapes (Draft.charsOf policy span)
  | .owe _ => True
  | _ => False

theorem ofText_append_blank (owed : Owed) (text : List Char) :
    ofText owed (text ++ [' ']) = (ofText owed text).close := by
  rw [ofText, Reader.read_append]
  rfl

theorem ofText_append_newline (owed : Owed) (text : List Char) :
    ofText owed (text ++ ['\n']) = (ofText owed text).close := by
  rw [ofText, Reader.read_append]
  rfl

theorem ofText_append_glyph {owed : Owed} {text : List Char} {c : Char} (hb : c ≠ ' ')
    (hn : c ≠ '\n') (hg : (ofText owed text).word = ['\\'] → c ∉ Writer.opensBlock) :
    ofText owed (text ++ [c]) = (ofText owed text).extend [c] := by
  obtain ⟨hw, hc⟩ := Reader.word_next (Reader.coherent_read text) hb hn hg
  rw [ofText, Reader.read_append, List.foldl_cons, List.foldl_nil, hw, hc]
  rfl

/-- A backslash and the character that it is for. -/
theorem ofText_append_escaped {owed : Owed} {text : List Char} {c : Char} (hb : c ≠ ' ')
    (hn : c ≠ '\n') (hc : c ∉ Writer.opensBlock) :
    ofText owed (text ++ ['\\', c]) = (ofText owed text).extend ['\\', c] := by
  have hback : '\\' ∉ Writer.opensBlock := by decide
  rw [List.append_cons, ofText_append_glyph hb hn fun _ => hc,
    ofText_append_glyph (by decide) (by decide) fun _ => hback]
  simp [extend]

/-- A guard at the start of a line is not part of the word. -/
theorem ofText_append_guard {owed : Owed} {text : List Char} {c : Char}
    (hs : (Reader.read text).place = .start) (hc : c ∈ Writer.opensBlock) :
    ofText owed (text ++ ['\\', c]) = (ofText owed text).extend [c] := by
  have hw := (Reader.coherent_read text).start hs
  have hr : Reader.read text = ⟨(Reader.read text).words, [], .start⟩ := by rw [← hw, ← hs]
  have hne : c ≠ '\n' ∧ c ≠ ' ' := by
    rcases Writer.eq_of_mem_opensBlock hc with rfl | rfl | rfl | rfl <;> decide
  rw [ofText, Reader.read_append, hr, Reader.foldl_next_guard hc]
  simp [Reader.next, hne, extend, ofText, hw]

/-- A tail keeps its words when it is moved to a new line. -/
theorem ofText_move {owed : Owed} {tail : List Char}
    (hg : ∀ c rest, tail = '\\' :: c :: rest → c ∉ Writer.opensBlock) (text : List Char)
    (escapes : Bool) :
    ofText owed (text ++ '\n' :: (Draft.tailGuard escapes tail ++ tail)) =
      ofText owed (text ++ ' ' :: tail) := by
  have hn : Reader.next (Reader.read text) '\n' =
      ⟨addWord (Reader.read text).words (Reader.read text).word, [], .start⟩ := rfl
  have hb : Reader.next (Reader.read text) ' ' =
      ⟨addWord (Reader.read text).words (Reader.read text).word, [], .within⟩ := rfl
  rw [ofText, ofText, Reader.read_append, Reader.read_append, List.foldl_cons, List.foldl_cons, hn,
    hb]
  unfold Draft.tailGuard
  split
  · rename_i h
    cases tail with
    | nil => simp at h
    | cons c rest =>
      have hc : c ∈ Writer.opensBlock := by simpa using h.2
      rw [List.singleton_append, Reader.foldl_next_guard hc]
  · obtain ⟨hw, hc⟩ := Reader.foldl_next_of_unguarded hg
    rw [List.nil_append, hw, hc]

end Gist

namespace Draft

/-- The gist of a draft. -/
def gist (d : Draft) : Gist :=
  Gist.ofText d.owed d.text

/-- A draft of a paragraph that stands in no margin. -/
structure Flowing (d : Draft) : Prop where
  /-- There are no margins. -/
  segments : d.segments = []
  /-- Lines may be broken. -/
  keepsLines : d.keepsLines = false
  /-- A reader sees the start of a line where the draft does. -/
  start : d.atLineStart → (Reader.read d.text).place = .start
  /-- No tail opens with a backslash that would be taken for a guard. -/
  tail : ∀ tail escapes, d.line = .loose tail escapes →
    ∀ c rest, tail = '\\' :: c :: rest → c ∉ Writer.opensBlock

namespace Flowing

variable {d : Draft}

theorem margin (h : d.Flowing) : d.margin = [] := by
  simp [Draft.margin, h.segments]

/-- There is no word to complete at the start of a line. -/
theorem close_gist (h : (Reader.read d.text).place = .start) : d.gist.close = d.gist := by
  have hw := (Reader.coherent_read d.text).start h
  simp [gist, Gist.close, Gist.ofText, hw, addWord]

theorem openLine (h : d.Flowing) : d.openLine.Flowing ∧ d.openLine.gist = d.gist := by
  by_cases hf : d.line = .fresh
  · have ht : d.openLine.text = d.text := by
      rw [text_openLine_of_fresh hf, h.margin, List.append_nil]
    have hs : d.atLineStart = true := by simp [atLineStart, hf]
    have hframe := frame_openLine d
    refine ⟨⟨?_, ?_, ?_, ?_⟩, ?_⟩
    · rw [segments_of_frame hframe, h.segments]
    · rw [keepsLines_of_frame hframe, h.keepsLines]
    · rw [ht]
      exact fun _ => h.start hs
    · intro tail escapes hl
      simp [Draft.openLine, hf] at hl
    · rw [gist, gist, ht, owed_of_frame hframe]
  · rw [openLine_of_ne_fresh hf]
    exact ⟨h, rfl⟩

/-- A breakable blank completes the word. -/
theorem placeBlank (h : d.Flowing) :
    d.placeBlank.Flowing ∧ d.placeBlank.gist = d.gist.close := by
  cases hs : d.atLineStart with
  | true =>
    rw [placeBlank_of_atLineStart hs]
    exact ⟨h, (close_gist (h.start hs)).symm⟩
  | false =>
    have hframe := frame_placeBlank d
    refine ⟨⟨?_, ?_, ?_, ?_⟩, ?_⟩
    · rw [segments_of_frame hframe, h.segments]
    · rw [keepsLines_of_frame hframe, h.keepsLines]
    · simp [atLineStart, line_placeBlank hs]
    · intro tail escapes hl c rest ht
      rw [line_placeBlank hs] at hl
      cases hl
      cases ht
    · rw [gist, text_placeBlank hs, owed_of_frame hframe, Gist.ofText_append_blank]
      rfl

/-- So does a line end. -/
theorem endLine (h : d.Flowing) :
    (d.endLine ['\n']).Flowing ∧ (d.endLine ['\n']).gist = d.gist.close := by
  refine ⟨⟨h.segments, h.keepsLines, ?_, nofun⟩, ?_⟩
  · rw [text_endLine, Reader.read_append]
    exact fun _ => rfl
  · rw [gist, text_endLine, Gist.ofText_append_newline]
    rfl

/-- A backslash that makes up a tail makes up the word. -/
theorem word_of_lone_tail {escapes : Bool} (hl : d.line = .loose ['\\'] escapes) :
    d.gist.word = ['\\'] := by
  rw [gist, text_of_loose hl, Gist.ofText, Reader.read_append]
  rfl

/-- A tail goes on without a guard in front. -/
theorem tail_append (h : d.Flowing) {c : Char} (hg : d.gist.word = ['\\'] → c ∉ Writer.opensBlock)
    (escapes : Bool) (next : Option Char) {tail : List Char} {first : Bool}
    (hl : d.line = .loose tail first) :
    ∀ e rest, tail ++ d.spelled escapes c next = '\\' :: e :: rest → e ∉ Writer.opensBlock := by
  have hs : d.atLineStart = false := by simp [atLineStart, hl]
  have hback : '\\' ∉ Writer.opensBlock := by decide
  intro e rest ht
  cases tail with
  | nil =>
    rcases spelled_cases escapes c next d with ⟨_, ho, hsp⟩ | ⟨_, _, hstart, _⟩ | ⟨_, hsp⟩
    · rw [hsp] at ht
      cases ht
      exact ho
    · rw [hs] at hstart
      cases hstart
    · rw [hsp] at ht
      cases ht
  | cons t tail =>
    cases tail with
    | nil =>
      obtain ⟨rfl, ht⟩ := List.cons.inj ht
      have hc := hg (word_of_lone_tail hl)
      rcases spelled_cases escapes c next d with ⟨_, _, hsp⟩ | ⟨_, _, _, hsp⟩ | ⟨_, hsp⟩ <;>
        rw [hsp] at ht <;> cases ht
      · exact hback
      · exact hback
      · exact hc
    | cons t' tail =>
      obtain ⟨rfl, hrest⟩ := List.cons.inj ht
      obtain ⟨rfl, _⟩ := List.cons.inj hrest
      exact h.tail _ first hl _ tail rfl

/-- A character goes on with the word, in the spelling that it has within a line. -/
theorem append (h : d.Flowing) {c : Char} (hn : c ≠ '\n')
    (hg : d.gist.word = ['\\'] → c ∉ Writer.opensBlock) (escapes : Bool) (next : Option Char) :
    (d.append escapes (d.spelled escapes c next)).Flowing ∧
      (d.append escapes (d.spelled escapes c next)).gist = d.gist.put escapes c next := by
  have hframe := frame_append escapes (d.spelled escapes c next) d
  have hmarked : marked d.text.getLast? c next = marked d.gist.word.getLast? c next :=
    marked_congr (Reader.isDigit_word d.text).symm c next
  refine ⟨⟨?_, ?_, ?_, ?_⟩, ?_⟩
  · rw [segments_of_frame hframe, h.segments]
  · rw [keepsLines_of_frame hframe, h.keepsLines]
  · simp [atLineStart_append]
  · intro tail' first' hl'
    rcases line_append_cases escapes (d.spelled escapes c next) d with hs | ⟨tail, first, hl, hs⟩
    · rw [hs] at hl'
      cases hl'
    · rw [hs] at hl'
      cases hl'
      exact h.tail_append hg escapes next hl
  · rw [gist, text_append, owed_of_frame hframe]
    by_cases hb : c = ' '
    · have hsp : d.spelled escapes c next = [' '] := by
        have hmarked : marked d.text.getLast? ' ' next = false := by simp [marked]
        have ho : ' ' ∉ Writer.opensBlock := by decide
        simp [hb, spelled, needsEscape_eq, hmarked, ho]
      rw [hsp, Gist.ofText_append_blank, Gist.put, if_pos (.inl hb)]
      rfl
    · rw [Gist.put, if_neg (by simp [hb, hn])]
      rcases spelled_cases escapes c next d with ⟨hm, ho, hsp⟩ | ⟨hm, ho, hs, hsp⟩ | ⟨hm, hsp⟩ <;>
        rw [hsp, ← hmarked, hm]
      · exact Gist.ofText_append_escaped hb hn ho
      · exact Gist.ofText_append_guard (h.start hs) ho
      · exact Gist.ofText_append_glyph hb hn hg

/-- A tail that is moved keeps its words. -/
theorem settle (h : d.Flowing) : d.settle.Flowing ∧ d.settle.gist = d.gist := by
  rcases settle_cases d with ⟨tail, escapes, hl, hs⟩ | ⟨hs, _⟩ <;> rw [hs]
  · have ht : (d.rewind tail escapes).text =
        Glyph.chars d.head ++ '\n' :: (tailGuard escapes tail ++ tail) := by
      rw [text_rewind, h.margin]
      rfl
    refine ⟨⟨h.segments, h.keepsLines, ?_, ?_⟩, ?_⟩
    · intro hstart
      rcases line_rewind_cases tail escapes d with ⟨rfl, _⟩ | ⟨_, hline⟩
      · have hguard : tailGuard escapes [] = [] := by simp [tailGuard]
        rw [ht, hguard, Reader.read_append]
        rfl
      · simp [atLineStart, hline] at hstart
    · exact fun tail' escapes' hn => absurd hn (line_rewind_ne_loose tail escapes d tail' escapes')
    · rw [gist, gist, ht, text_of_loose hl]
      exact Gist.ofText_move (h.tail tail escapes hl) _ _
  · exact ⟨h, rfl⟩

/-- One more character does to the gist what it does to the draft. -/
theorem put (h : d.Flowing) (policy : Policy) {c : Char} (next : Option Char)
    (hg : d.gist.word = ['\\'] → c ∉ Writer.opensBlock) :
    (d.put policy c next).Flowing ∧
      (d.put policy c next).gist = d.gist.put policy.escapes c next := by
  obtain ⟨hopen, hgist⟩ := h.openLine
  have hplace : (d.openLine.place policy c next).Flowing ∧
      (d.openLine.place policy c next).gist = d.gist.put policy.escapes c next := by
    rw [← hgist]
    rcases place_cases policy c next d.openLine with ⟨hc, hp⟩ | ⟨hc, hp⟩ | ⟨hc, hp⟩ <;> rw [hp]
    · rw [Gist.put, if_pos (.inl hc)]
      exact hopen.placeBlank
    · rw [Gist.put, if_pos (.inr hc)]
      exact hopen.endLine
    · exact hopen.append hc (by rw [hgist]; exact hg) policy.escapes next
  obtain ⟨hsettle, hsame⟩ := hplace.1.settle
  exact ⟨hsettle, hsame.trans hplace.2⟩

theorem putAll (h : d.Flowing) (policy : Policy) {cs : List Char}
    (hg : d.gist.Accepts policy.escapes cs) :
    (d.putAll policy cs).Flowing ∧ (d.putAll policy cs).gist = d.gist.putAll policy.escapes cs := by
  induction cs generalizing d with
  | nil => exact ⟨h, rfl⟩
  | cons c rest ih =>
    obtain ⟨hput, hgist⟩ := h.put policy rest.head? hg.1
    rw [Draft.putAll, Gist.putAll, ← hgist]
    exact ih hput (by rw [hgist]; exact hg.2)

/-- A reader stands at the start of a line after the breaks owed. -/
theorem read_breaksOwed (h : d.Flowing) (ho : d.owed ≠ .nothing) :
    Reader.read (d.text ++ d.breaksOwed) =
      ⟨addWord (Reader.read d.text).words (Reader.read d.text).word, [], .start⟩ := by
  rcases breaksOwed_cases ho with ⟨ht, hb | hb⟩ | ⟨_, hb | hb⟩
  · have hs := Reader.place_of_lineEnd ht
    have hw := (Reader.coherent_read d.text).start hs
    rw [hb, List.append_nil, hw, ← hs]
    show Reader.read d.text = ⟨(Reader.read d.text).words, [], _⟩
    rw [← hw]
  · rw [hb, h.margin, Reader.read_append]
    rfl
  · rw [hb, Reader.read_append]
    rfl
  · rw [hb, h.margin, Reader.read_append]
    rfl

/-- The breaks owed complete the word. -/
theorem flush (h : d.Flowing) : d.flush.Flowing ∧ d.flush.gist = d.gist.flush := by
  by_cases ho : d.owed = .nothing
  · have hd : d.flush = d := if_pos ho
    have hg : d.gist.flush = d.gist := if_pos ho
    rw [hd, hg]
    exact ⟨h, rfl⟩
  · have hd : d.flush = { d.endLine d.breaksOwed with owed := .nothing } := if_neg ho
    have hg : d.gist.flush = { d.gist.close with owed := .nothing } := if_neg ho
    have ht : d.flush.text = d.text ++ d.breaksOwed := by
      rw [hd]
      exact text_endLine d.breaksOwed d
    have hr := h.read_breaksOwed ho
    refine ⟨⟨?_, ?_, ?_, ?_⟩, ?_⟩
    · rw [hd]
      exact h.segments
    · rw [hd]
      exact h.keepsLines
    · rw [ht, hr]
      exact fun _ => rfl
    · rw [hd]
      exact nofun
    · rw [gist, ht, Gist.ofText, hr, hg, hd]
      rfl

/-- A step of a paragraph does to the gist what it does to the draft. -/
theorem apply (h : d.Flowing) {s : Step} (hs : d.gist.Takes s) :
    (d.apply s).Flowing ∧ (d.apply s).gist = d.gist.apply s := by
  cases s with
  | emit policy span =>
    obtain ⟨hflush, hgist⟩ := h.flush
    have he : d.effective policy = policy := by simp [effective, h.keepsLines]
    have happly : d.apply (.emit policy span) = d.flush.putAll policy (charsOf policy span) := by
      show d.flush.putAll (d.effective policy) (charsOf (d.effective policy) span) = _
      rw [he]
    have haccepts : d.flush.gist.Accepts policy.escapes (charsOf policy span) := by
      rw [hgist]
      exact hs
    obtain ⟨hput, hsame⟩ := hflush.putAll policy haccepts
    rw [happly, hsame, hgist]
    exact ⟨hput, rfl⟩
  | owe owed =>
    by_cases hl : d.owed.level < owed.level
    · have he : d.apply (.owe owed) = { d with owed } := if_pos hl
      have hg : d.gist.apply (.owe owed) = { d.gist with owed } := if_pos hl
      rw [he, hg]
      exact ⟨⟨h.segments, h.keepsLines, h.start, h.tail⟩, rfl⟩
    · have he : d.apply (.owe owed) = d := if_neg hl
      have hg : d.gist.apply (.owe owed) = d.gist := if_neg hl
      rw [he, hg]
      exact ⟨h, rfl⟩
  | _ => cases hs

end Flowing

end Draft

end MarkdownLayout
