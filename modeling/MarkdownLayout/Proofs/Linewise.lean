import MarkdownLayout.Proofs.Draft.Pieces
import MarkdownLayout.Proofs.Reachable

/-!
# Spans that are not wrapped

A span whose blanks are no break points is written as it stands, apart from backslashes, if the line
on which it begins has no break point either. Lines end where the span ends them and nowhere else,
and the margin stands in front of the first character of each. The main statement is
`Linewise.putAll`.

Such a line is there as soon as a break that was owed is paid, whatever the writer has been through
before, which is `linewise_flush`. So nothing has to be known of the writer but its margins.
-/

namespace MarkdownLayout

open Text.Utf8 (encode)

/-- A text with a margin behind every line end but a final one. -/
def hungBy (margin : List Char) : List Char → List Char
  | [] => []
  | c :: rest => c :: ((if c = '\n' ∧ rest ≠ [] then margin else []) ++ hungBy margin rest)

/-- A text as it is laid out in a margin. `fresh` tells whether it begins a line. -/
def laidOut (margin : List Char) (fresh : Bool) (cs : List Char) : List Char :=
  (if fresh = true ∧ cs ≠ [] then margin else []) ++ hungBy margin cs

@[simp] theorem laidOut_nil (margin : List Char) (fresh : Bool) : laidOut margin fresh [] = [] := by
  simp [laidOut, hungBy]

theorem laidOut_cons (margin : List Char) (fresh : Bool) (c : Char) (rest : List Char) :
    laidOut margin fresh (c :: rest) =
      (if fresh then margin else []) ++ c :: laidOut margin (c = '\n') rest := by
  simp [laidOut, hungBy]

theorem laidOut_false (margin cs : List Char) : laidOut margin false cs = hungBy margin cs := by
  simp [laidOut]

/-- Whether the second part of a text begins a line depends on the last character of the first. -/
theorem laidOut_append (margin : List Char) (fresh : Bool) (cs ds : List Char) :
    laidOut margin fresh (cs ++ ds) =
      laidOut margin fresh cs ++ laidOut margin (cs.getLast?.elim fresh fun c => c = '\n') ds := by
  induction cs generalizing fresh with
  | nil => rw [List.nil_append, laidOut_nil, List.nil_append, List.getLast?_nil, Option.elim_none]
  | cons c cs ih =>
    have hlast : ((c :: cs).getLast?.elim fresh fun e => decide (e = '\n')) =
        cs.getLast?.elim (decide (c = '\n')) fun e => decide (e = '\n') := by
      rw [List.getLast?_cons]
      cases cs.getLast? <;> rfl
    rw [List.cons_append, laidOut_cons, laidOut_cons, ih, hlast, List.append_assoc,
      List.cons_append]

/-- A line behind its margin. -/
theorem laidOut_line {cs : List Char} (hne : cs ≠ []) (h : '\n' ∉ cs) (margin : List Char)
    (fresh : Bool) : laidOut margin fresh cs = (if fresh then margin else []) ++ cs := by
  induction cs generalizing fresh with
  | nil => exact absurd rfl hne
  | cons c cs ih =>
    obtain ⟨hc, hcs⟩ := not_or.mp (mt List.mem_cons.mpr h)
    rw [laidOut_cons, decide_eq_false (Ne.symm hc)]
    cases cs with
    | nil => rfl
    | cons d cs =>
      rw [ih (List.cons_ne_nil d cs) hcs]
      rfl

/-- What follows something on a line does not begin one. -/
theorem elim_getLast?_of_line {cs : List Char} (hne : cs ≠ []) (h : '\n' ∉ cs) (fresh : Bool) :
    (cs.getLast?.elim fresh fun c => decide (c = '\n')) = false := by
  rw [List.getLast?_eq_some_getLast hne, Option.elim_some]
  refine decide_eq_false fun he => h ?_
  rw [← he]
  exact List.getLast_mem hne

/-- A line that ends. -/
theorem laidOut_append_newline {cs : List Char} (h : '\n' ∉ cs) (margin rest : List Char) :
    laidOut margin true (cs ++ '\n' :: rest) =
      margin ++ (cs ++ '\n' :: laidOut margin true rest) := by
  cases cs with
  | nil => rw [List.nil_append, laidOut_cons, decide_eq_true rfl, if_pos rfl, List.nil_append]
  | cons c cs =>
    have hne := List.cons_ne_nil c cs
    rw [laidOut_append, laidOut_line hne h, elim_getLast?_of_line hne h, laidOut_cons,
      decide_eq_true rfl, if_pos rfl, List.append_assoc]
    rfl

/-- Lines all of which end. -/
theorem laidOut_flatMap {lines : List (List Char)} (h : ∀ line ∈ lines, '\n' ∉ line)
    (margin : List Char) :
    laidOut margin true (lines.flatMap (· ++ ['\n'])) =
      lines.flatMap fun line => margin ++ (line ++ ['\n']) := by
  induction lines with
  | nil => rfl
  | cons line lines ih =>
    obtain ⟨hline, hlines⟩ := List.forall_mem_cons.mp h
    rw [List.flatMap_cons, List.flatMap_cons, List.append_assoc, List.singleton_append,
      laidOut_append_newline hline, ih hlines]
    simp

/-- A piece that a character of a span may become. A span without escapes has no backslashes but its
own, one with escapes puts a backslash in front of those, and none puts one in front of a line
end. -/
structure Piece.SpeltWith (escapes : Bool) (p : Piece) : Prop where
  /-- A backslash is put in front only where there are escapes. -/
  escaped : p.escaped = true → escapes = true
  /-- Where there are escapes it is put in front of every backslash. -/
  backslash : p.char = '\\' → p.escaped = escapes
  /-- It is never put in front of a line end. -/
  newline : p.char = '\n' → p.escaped = false

theorem Piece.speltWith_newline (escapes : Bool) : newline.SpeltWith escapes :=
  ⟨by simp [newline], by simp [newline], fun _ => rfl⟩

/-- Pieces without backslashes in front are the characters themselves. -/
theorem Piece.spellAll_of_not_escaped {ps : List Piece} (h : ∀ p ∈ ps, p.escaped = false) :
    spellAll ps = chars ps := by
  induction ps with
  | nil => rfl
  | cons p ps ih =>
    obtain ⟨hp, hps⟩ := List.forall_mem_cons.mp h
    rw [spellAll_cons, chars_cons, ih hps, spell, hp]
    rfl

namespace Writer

/-- One writer has become another by writing characters. -/
structure Wrote (cs : List Char) (w w' : Writer) : Prop where
  /-- The characters stand behind all others. -/
  buffer : w'.buffer.toList = w.buffer.toList ++ encode cs
  /-- The margins are the same. -/
  segments : w'.segments = w.segments
  /-- So are their octets. -/
  margin : w'.margin = w.margin
  /-- As much is owed as before. -/
  owed : w'.owed = w.owed

theorem Wrote.trans {cs ds : List Char} {w w' w'' : Writer} (h : Wrote cs w w')
    (h' : Wrote ds w' w'') : Wrote (cs ++ ds) w w'' where
  buffer := by rw [h'.buffer, h.buffer, Text.Utf8.encode_append, List.append_assoc]
  segments := h'.segments.trans h.segments
  margin := h'.margin.trans h.margin
  owed := h'.owed.trans h.owed

theorem Wrote.nil (w : Writer) : Wrote [] w w :=
  ⟨(List.append_nil _).symm, rfl, rfl, rfl⟩

/-- The current line cannot be broken. Either nothing of it has been written yet, its margin
included, or more than its margin stands on it. -/
structure Linewise (margin : List Char) (fresh : Bool) (w : Writer) : Prop where
  /-- The characters that open a line. -/
  margin : w.margin.toList = encode margin
  /-- There is no break point. -/
  breakPoint : w.breakPoint = none
  /-- The line has begun unless nothing of it has been written. -/
  atLineStart : w.atLineStart = fresh
  /-- Its margin is written when it has begun. -/
  marginWritten : w.marginWritten = !fresh
  /-- The text ends with a line end, or is empty, exactly if nothing of the line has been
  written. -/
  ended : w.buffer.toList = [] ∨ w.buffer.toList.getLast? = some newline ↔ fresh = true

/-- What ends with a character other than a line end has not ended a line. -/
theorem not_ended_append {cs : List Char} {c : Char} (hlast : cs.getLast? = some c) (hc : c ≠ '\n')
    (octets : List UInt8) :
    ¬ (octets ++ encode cs = [] ∨ (octets ++ encode cs).getLast? = some newline) := by
  have hsame := Text.Utf8.sameClass_newline.any_getLast? cs
  rw [hlast, Option.any_some, beq_eq_false_iff_ne.mpr hc] at hsame
  have hne : encode cs ≠ [] := by
    rw [ne_eq, Text.Utf8.encode_eq_nil_iff]
    rintro rfl
    cases hlast
  rw [List.getLast?_eq_some_getLast hne, Option.any_some, beq_eq_false_iff_ne] at hsame
  rintro (h | h)
  · exact hne (List.append_eq_nil_iff.mp h).2
  · rw [List.getLast?_append, List.getLast?_eq_some_getLast hne, Option.some_or] at h
    exact hsame (Option.some.inj h)

/-- A line that cannot be broken is left as it is. -/
theorem settle_of_breakPoint_none {w : Writer} (hb : w.breakPoint = none) :
    settle w = .ok () w := by
  unfold settle
  rw [hb]

namespace Linewise

variable {margin : List Char} {fresh : Bool} {w : Writer}

/-- A line that has not been opened gets its margin. -/
theorem openLine (h : w.Linewise margin fresh) :
    Wrote (if fresh then margin else []) w w.openLine ∧ w.openLine.breakPoint = none ∧
      w.openLine.marginWritten = true := by
  unfold Writer.openLine
  rw [h.atLineStart, h.marginWritten]
  cases fresh with
  | true =>
    rw [if_pos (by simp)]
    exact ⟨⟨by simp [h.margin], rfl, rfl, rfl⟩, h.breakPoint, rfl⟩
  | false =>
    rw [if_neg (by simp)]
    exact ⟨.nil w, h.breakPoint, h.marginWritten⟩

/-- What one character does. -/
theorem put (h : w.Linewise margin fresh) {policy : Policy} (hp : policy.wraps = false) (c : Char)
    (next : Option Char) :
    ∃ (p : Piece) (w' : Writer), p.char = c ∧ p.SpeltWith policy.escapes ∧
      put policy c next w = .ok () w' ∧
      Wrote ((if fresh then margin else []) ++ p.spell) w w' ∧ w'.Linewise margin (c = '\n') := by
  obtain ⟨hopened, hbreak, hwritten⟩ := h.openLine
  have hput : Writer.put policy c next w = settle (w.openLine.place policy c next) := rfl
  have hblank : ¬ (c = ' ' ∧ policy.wraps = true) := by simp [hp]
  rw [hput, Writer.place, if_neg hblank]
  by_cases hc : c = '\n'
  · -- the line ends
    subst hc
    have hnewline : encode ['\n'] = [newline] := by decide
    rw [if_pos rfl]
    refine ⟨Piece.newline, w.openLine.placeNewline, rfl, Piece.speltWith_newline _,
      settle_of_breakPoint_none rfl, hopened.trans ⟨?_, rfl, rfl, rfl⟩, ?_⟩
    · show (w.openLine.buffer.push newline).toList = w.openLine.buffer.toList ++ encode ['\n']
      rw [Array.toList_push, hnewline]
    · refine ⟨?_, rfl, rfl, rfl, ?_⟩
      · show w.openLine.margin.toList = encode margin
        rw [hopened.margin, h.margin]
      · show (w.openLine.buffer.push newline).toList = [] ∨
          (w.openLine.buffer.push newline).toList.getLast? = some newline ↔ _
        simp
  · -- a character behind its margin
    rw [if_neg hc]
    generalize hescaped : (policy.escapes && w.openLine.needsEscape c next) = escaped
    have hspell : ((if escaped then w.openLine.buffer.push backslash else w.openLine.buffer) ++
        String.utf8EncodeChar c).toList =
          w.openLine.buffer.toList ++ encode (⟨c, escaped⟩ : Piece).spell := by
      have hbackslash : String.utf8EncodeChar '\\' = [backslash] := by decide
      cases escaped <;> simp [Piece.spell, hbackslash]
    have hlast : (⟨c, escaped⟩ : Piece).spell.getLast? = some c := by
      cases escaped <;> rfl
    have hglyph : (w.openLine.placeGlyph policy.escapes c next).buffer.toList =
        w.openLine.buffer.toList ++ encode (⟨c, escaped⟩ : Piece).spell := by
      rw [← hspell, ← hescaped]
      rfl
    refine ⟨⟨c, escaped⟩, w.openLine.placeGlyph policy.escapes c next, rfl, ?_,
      settle_of_breakPoint_none hbreak, hopened.trans ⟨hglyph, rfl, rfl, rfl⟩, ?_⟩
    · refine ⟨fun he => ?_, fun hback => ?_, fun hn => absurd hn hc⟩
      · have htrue : escaped = true := he
        rw [htrue, Bool.and_eq_true] at hescaped
        exact hescaped.1
      · have hneeds : w.openLine.needsEscape c next = true := by
          have hchar : c = '\\' := hback
          simp [needsEscape, hchar, alwaysEscaped]
        show escaped = policy.escapes
        rw [← hescaped, hneeds, Bool.and_true]
    · refine ⟨?_, hbreak, ?_, ?_, ?_⟩
      · show w.openLine.margin.toList = encode margin
        rw [hopened.margin, h.margin]
      · rw [decide_eq_false hc]
        rfl
      · rw [decide_eq_false hc]
        exact hwritten
      · rw [hglyph, decide_eq_false hc]
        exact iff_of_false (not_ended_append hlast hc _) (by simp)

/-- A span is written as it stands, behind margins, with some backslashes if it has escapes. -/
theorem putAll (h : w.Linewise margin fresh) {policy : Policy} (hp : policy.wraps = false)
    (cs : List Char) :
    ∃ (ps : List Piece) (w' : Writer), Piece.chars ps = cs ∧
      (∀ p ∈ ps, p.SpeltWith policy.escapes) ∧ putAll policy cs w = .ok () w' ∧
      Wrote (laidOut margin fresh (Piece.spellAll ps)) w w' ∧
      w'.Linewise margin (cs.getLast?.elim fresh fun c => c = '\n') := by
  induction cs generalizing w fresh with
  | nil =>
    refine ⟨[], w, rfl, by simp, rfl, ?_, h⟩
    rw [Piece.spellAll_nil, laidOut_nil]
    exact .nil w
  | cons c rest ih =>
    obtain ⟨p, mid, rfl, hspelt, hput, hwrote, hmid⟩ := h.put hp c rest.head?
    obtain ⟨ps, w', rfl, hpieces, hrest, hwrote', hw'⟩ := ih hmid
    refine ⟨p :: ps, w', rfl, List.forall_mem_cons.mpr ⟨hspelt, hpieces⟩, ?_, ?_, ?_⟩
    · exact (bind_of_ok hput).trans hrest
    · have hlast : p.spell.getLast? = some p.char := by
        unfold Piece.spell
        split <;> rfl
      have hspell : laidOut margin fresh p.spell = (if fresh then margin else []) ++ p.spell := by
        by_cases hc : p.char = '\n'
        · rw [Piece.spell, hspelt.newline hc, if_neg (by simp), laidOut_cons, laidOut_nil]
        · have hn : '\n' ∉ p.spell := by
            unfold Piece.spell
            split <;> simp [Ne.symm hc]
          exact laidOut_line p.spell_ne_nil hn margin fresh
      have hlaid : laidOut margin fresh (Piece.spellAll (p :: ps)) =
          (if fresh then margin else []) ++ p.spell ++
            laidOut margin (p.char = '\n') (Piece.spellAll ps) := by
        rw [Piece.spellAll_cons, laidOut_append, hspell, hlast, Option.elim_some]
      rw [hlaid]
      exact hwrote.trans hwrote'
    · rw [List.getLast?_cons]
      cases hlast : (Piece.chars ps).getLast? with
      | none =>
        rw [hlast] at hw'
        exact hw'
      | some c =>
        rw [hlast] at hw'
        exact hw'

end Linewise

/-- A span that is not wrapped is written after the breaks owed. -/
theorem emit_of_not_wraps {policy : Policy} (hp : policy.wraps = false) (span : String)
    (w : Writer) : emit policy span w = putAll policy span.toList w.flush := by
  have heffective : w.effective policy = policy := by
    rw [effective, hp, Bool.false_and, ← hp]
  show putAll (w.effective policy) (if (w.effective policy).wraps then squeeze span.toList
    else span.toList) w.flush = _
  rw [heffective, hp, if_neg (by simp)]

theorem flush_of_owed_nothing {w : Writer} (h : w.owed = .nothing) : w.flush = w :=
  if_pos h

/-- Octets behind a break that has been paid. -/
theorem toList_buffer_flush {w : Writer} (h : w.owed ≠ .nothing) :
    w.flush.buffer.toList = w.buffer.toList ++ w.breaksOwed.toList := by
  rw [flush, if_neg h]
  exact Array.toList_append

/-- A break that was owed leaves a line of which nothing has been written. -/
theorem linewise_flush {w : Writer} {margin : List Char} (hm : w.margin.toList = encode margin)
    (h : w.owed ≠ .nothing) : w.flush.Linewise margin true := by
  have hbuffer := toList_buffer_flush h
  have hended : w.flush.buffer.toList = [] ∨ w.flush.buffer.toList.getLast? = some newline := by
    rw [hbuffer, toList_breaksOwed]
    cases ho : w.owed with
    | nothing => exact absurd ho h
    | lineEnd =>
      dsimp only
      split
      · rename_i hended
        rwa [List.append_nil]
      · exact .inr List.getLast?_concat
    | blankLine =>
      dsimp only
      split
      · rename_i hspaced
        rw [List.append_nil]
        rcases hspaced with hnil | hone | hpair
        · exact .inl hnil
        · rw [hone]
          exact .inr rfl
        · exact .inr (getLast?_of_pair_suffix hpair)
      · right
        split
        · rw [← List.append_assoc, List.getLast?_concat]
        · rw [← List.cons_append, ← List.append_assoc, List.getLast?_concat]
  rw [flush, if_neg h] at hended ⊢
  exact ⟨hm, rfl, rfl, rfl, iff_of_true hended rfl⟩

/-- A line that is to be ended is ended unless it has not begun. -/
theorem Linewise.flush_lineEnd {w : Writer} {margin : List Char} {fresh : Bool}
    (h : w.Linewise margin fresh) (ho : w.owed = .lineEnd) :
    w.flush.Linewise margin true ∧
      w.flush.buffer.toList = w.buffer.toList ++ encode (if fresh then [] else ['\n']) := by
  have howed : w.owed ≠ .nothing := by simp [ho]
  refine ⟨linewise_flush h.margin howed, ?_⟩
  rw [toList_buffer_flush howed, toList_breaksOwed, ho]
  dsimp only
  cases fresh with
  | true => rw [if_pos (h.ended.mpr rfl)]; rfl
  | false => rw [if_neg fun hn => by cases h.ended.mp hn]; rfl

/-- A span pays the breaks owed, or finds them paid. -/
theorem emit_flush {policy : Policy} (hp : policy.wraps = false) (span : String) (w : Writer) :
    emit policy span w = emit policy span w.flush := by
  rw [emit_of_not_wraps hp, emit_of_not_wraps hp, flush_flush]

namespace Linewise

variable {margin : List Char} {fresh : Bool} {w : Writer}

/-- A span where nothing is owed. -/
theorem emit (h : w.Linewise margin fresh) (ho : w.owed = .nothing) {policy : Policy}
    (hp : policy.wraps = false) (span : String) :
    ∃ (ps : List Piece) (w' : Writer), Piece.chars ps = span.toList ∧
      (∀ p ∈ ps, p.SpeltWith policy.escapes) ∧ Writer.emit policy span w = .ok () w' ∧
      Wrote (laidOut margin fresh (Piece.spellAll ps)) w w' ∧
      w'.Linewise margin (span.toList.getLast?.elim fresh fun c => c = '\n') := by
  rw [emit_of_not_wraps hp, flush_of_owed_nothing ho]
  exact h.putAll hp span.toList

theorem verbatim_not_wraps : Policy.verbatim.wraps = false := rfl

/-- Markup where nothing is owed. -/
theorem emit_verbatim (h : w.Linewise margin fresh) (ho : w.owed = .nothing) (span : String) :
    ∃ w' : Writer, Writer.emit .verbatim span w = .ok () w' ∧
      Wrote (laidOut margin fresh span.toList) w w' ∧
      w'.Linewise margin (span.toList.getLast?.elim fresh fun c => c = '\n') := by
  obtain ⟨ps, w', hchars, hspelt, hemit, hwrote, hline⟩ := h.emit ho verbatim_not_wraps span
  have hplain : ∀ p ∈ ps, p.escaped = false := by
    intro p hp
    cases he : p.escaped with
    | false => rfl
    | true => cases (hspelt p hp).escaped he
  rw [Piece.spellAll_of_not_escaped hplain, hchars] at hwrote
  exact ⟨w', hemit, hwrote, hline⟩

end Linewise

end Writer

end MarkdownLayout
