import Mathlib.Data.List.Basic
import MarkdownLayout.Proofs.CodeBlocks

/-!
# Titles

A link or an image ends with its destination and its title, and both go through the escapes of
running text. The title is cut at its quotes, and its parts are escaped one by one. It can be read
back nevertheless, which is `write_titled_destination`: a backslash stands in front of every quote
and every backslash of the title, so it ends at the quote behind it.

Where lines are not broken and there is no margin, all that escapes depend on is the character in
front, and what is written is `Piece.behind`. Nothing is asked of what the writer has been through
before.
-/

namespace MarkdownLayout

open Text.Utf8 (encode)

namespace Piece

/-- Whether a character of text with escapes gets a backslash right behind another one. -/
def escapedBehind (prev c : Char) (next : Option Char) : Bool :=
  marked (some prev) c next || (decide (c ∈ Writer.opensBlock) && decide (prev = '\n'))

/-- The pieces of a span behind a character. -/
def behind (escapes : Bool) (prev : Char) : List Char → List Piece
  | [] => []
  | c :: rest => ⟨c, escapes && escapedBehind prev c rest.head?⟩ :: behind escapes c rest

@[simp] theorem chars_behind (escapes : Bool) (prev : Char) (cs : List Char) :
    chars (behind escapes prev cs) = cs := by
  induction cs generalizing prev with
  | nil => rfl
  | cons c rest ih => rw [behind, chars_cons, ih]

/-- A span without escapes is written as it stands. -/
theorem spellAll_behind_false (prev : Char) (cs : List Char) :
    spellAll (behind false prev cs) = cs := by
  induction cs generalizing prev with
  | nil => rfl
  | cons c rest ih =>
    rw [behind, spellAll_cons, ih]
    rfl

/-- A backslash has a backslash in front. -/
theorem escaped_of_mem_behind {prev : Char} {cs : List Char} :
    ∀ p ∈ behind true prev cs, p.char = '\\' → p.escaped = true := by
  induction cs generalizing prev with
  | nil => simp [behind]
  | cons c rest ih =>
    refine List.forall_mem_cons.mpr ⟨fun hc => ?_, ih⟩
    have hback : c = '\\' := hc
    simp [escapedBehind, marked, hback]

end Piece

namespace Draft

/-- A text of one character. -/
def endingWith (c : Char) : Draft :=
  { head := [⟨c, false⟩], line := if c = '\n' then .fresh else .solid }

theorem getLast?_endingWith (c : Char) : (endingWith c).text.getLast? = some c := by
  unfold text glyphs
  by_cases hc : c = '\n' <;> simp [endingWith, hc]

theorem atLineStart_endingWith (c : Char) : (endingWith c).atLineStart = decide (c = '\n') := by
  unfold atLineStart
  by_cases hc : c = '\n' <;> simp [endingWith, hc]

end Draft

namespace Writer

/-- Lines are not broken and nothing is owed. For all that escapes depend on, the text ends with
`prev`. -/
structure EndsWith (prev : Char) (w : Writer) : Prop where
  /-- Lines are not broken. -/
  width : w.width = 0
  /-- Nothing is owed. -/
  owed : w.owed = .nothing
  /-- The last octet is a digit if the character is one. -/
  digit : w.buffer.back?.any isDigitOctet = prev.isDigit
  /-- The line has begun unless the character ends one. -/
  start : w.atLineStart = decide (prev = '\n')

theorem settle_of_width_zero {w : Writer} (h : w.width = 0) : settle w = .ok () w := by
  unfold settle
  split
  · rw [if_neg (by simp [h])]
  · rfl

theorem width_openLine (w : Writer) : w.openLine.width = w.width := by
  unfold openLine
  split <;> rfl

theorem owed_openLine (w : Writer) : w.openLine.owed = w.owed := by
  unfold openLine
  split <;> rfl

/-- What a character does where lines are not broken. -/
theorem exists_put {w : Writer} (hw : w.width = 0) (ho : w.owed = .nothing) {policy : Policy}
    (hp : policy.wraps = false) (c : Char) (next : Option Char) :
    ∃ w', put policy c next w = .ok () w' ∧
      Wrote (⟨c, policy.escapes && w.openLine.needsEscape c next⟩ : Piece).spell w.openLine w' ∧
      w'.EndsWith c := by
  have hwidth : w.openLine.width = 0 := (width_openLine w).trans hw
  have howed : w.openLine.owed = .nothing := (owed_openLine w).trans ho
  have hblank : ¬ (c = ' ' ∧ policy.wraps = true) := by simp [hp]
  have hput : put policy c next w = settle (w.openLine.place policy c next) := rfl
  rw [hput, place, if_neg hblank]
  generalize w.openLine = opened at hwidth howed
  by_cases hc : c = '\n'
  · subst hc
    have hplain : opened.needsEscape '\n' next = false := by
      simp [needsEscape, alwaysEscaped, opensBlock, endsNumber]
    rw [if_pos rfl, hplain, Bool.and_false]
    refine ⟨opened.placeNewline, settle_of_width_zero hwidth, ⟨?_, rfl, rfl, rfl⟩, hwidth, howed,
      ?_, rfl⟩
    · have hnewline : encode ['\n'] = [newline] := by decide
      show (opened.buffer.push newline).toList = opened.buffer.toList ++ encode ['\n']
      rw [Array.toList_push, hnewline]
    · show (opened.buffer.push newline).back?.any isDigitOctet = _
      rw [Array.back?_push]
      rfl
  · rw [if_neg hc]
    generalize hescaped : (policy.escapes && opened.needsEscape c next) = escaped
    have hbuffer : (opened.placeGlyph policy.escapes c next).buffer.toList =
        opened.buffer.toList ++ encode (⟨c, escaped⟩ : Piece).spell := by
      have hbackslash : String.utf8EncodeChar '\\' = [backslash] := by decide
      have hglyph : (opened.placeGlyph policy.escapes c next).buffer =
          (if escaped then opened.buffer.push backslash else opened.buffer) ++
            String.utf8EncodeChar c := by
        rw [← hescaped]
        rfl
      rw [hglyph]
      cases escaped <;> simp [Piece.spell, hbackslash]
    have hlast : (⟨c, escaped⟩ : Piece).spell.getLast? = some c := by
      cases escaped <;> rfl
    refine ⟨opened.placeGlyph policy.escapes c next, settle_of_width_zero hwidth,
      ⟨hbuffer, rfl, rfl, rfl⟩, hwidth, howed, ?_, (decide_eq_false hc).symm⟩
    -- The writer looks at the last octet, which is a digit only if the last character is.
    have hdigit := Text.Utf8.sameClass_digit.any_getLast? (⟨c, escaped⟩ : Piece).spell
    have hne : encode (⟨c, escaped⟩ : Piece).spell ≠ [] := by
      rw [ne_eq, Text.Utf8.encode_eq_nil_iff]
      exact Piece.spell_ne_nil _
    rw [← Array.getLast?_toList, hbuffer, List.getLast?_append_of_ne_nil _ hne, hdigit, hlast]
    rfl

namespace EndsWith

variable {prev : Char} {w : Writer}

/-- Where the line has begun, or has no margin, nothing is written to open it. -/
theorem openLine (h : w.EndsWith prev) (hm : prev = '\n' → w.margin = #[]) :
    w.openLine.EndsWith prev ∧ Wrote [] w w.openLine := by
  unfold Writer.openLine
  split
  · rename_i hopen
    have hmargin : w.margin = #[] := by
      refine hm ?_
      rw [h.start, decide_eq_true_eq] at hopen
      exact hopen.1
    have hbuffer : w.buffer ++ w.margin = w.buffer := by rw [hmargin, Array.append_empty]
    refine ⟨⟨h.width, h.owed, ?_, h.start⟩, ⟨?_, rfl, rfl, rfl⟩⟩
    · show (w.buffer ++ w.margin).back?.any isDigitOctet = _
      rw [hbuffer]
      exact h.digit
    · show (w.buffer ++ w.margin).toList = _
      rw [hbuffer]
      simp
  · exact ⟨h, .nil w⟩

/-- What escapes depend on is the character in front. -/
theorem needsEscape_eq (h : w.EndsWith prev) (c : Char) (next : Option Char) :
    w.needsEscape c next = Piece.escapedBehind prev c next := by
  have hsame : w.needsEscape c next = (Draft.endingWith prev).needsEscape c next := by
    unfold Writer.needsEscape Draft.needsEscape
    rw [h.digit, h.start, Draft.getLast?_endingWith, Draft.atLineStart_endingWith]
    rfl
  rw [hsame, Draft.needsEscape_eq, Draft.getLast?_endingWith, Draft.atLineStart_endingWith]
  rfl

/-- A span is written in pieces that depend on the character in front. -/
theorem putAll (h : w.EndsWith prev) {policy : Policy} (hp : policy.wraps = false) {cs : List Char}
    (hm : '\n' ∈ prev :: cs → w.margin = #[]) :
    ∃ w', Writer.putAll policy cs w = .ok () w' ∧
      Wrote (Piece.spellAll (Piece.behind policy.escapes prev cs)) w w' ∧
      w'.EndsWith (cs.getLast?.getD prev) := by
  induction cs generalizing w prev with
  | nil => exact ⟨w, rfl, .nil w, h⟩
  | cons c rest ih =>
    obtain ⟨hopened, hopen⟩ := h.openLine fun he => hm (he ▸ List.mem_cons_self)
    obtain ⟨mid, hput, hwrote, hmid⟩ := exists_put h.width h.owed hp c rest.head?
    have hmargin : mid.margin = w.margin := hwrote.margin.trans hopen.margin
    obtain ⟨w', hrest, hwrote', hw'⟩ := ih hmid fun hn => by
      rw [hmargin]
      exact hm (List.mem_cons_of_mem prev hn)
    rw [hopened.needsEscape_eq] at hwrote
    refine ⟨w', ?_, ?_, ?_⟩
    · exact (bind_of_ok hput).trans hrest
    · exact (hopen.trans hwrote).trans hwrote'
    · rw [List.getLast?_cons]
      exact hw'

/-- A span with escapes behind a character. -/
theorem emit_guarded (h : w.EndsWith prev) (span : String)
    (hm : '\n' ∈ prev :: span.toList → w.margin = #[]) :
    ∃ w', emit .guarded span w = .ok () w' ∧
      Wrote (Piece.spellAll (Piece.behind true prev span.toList)) w w' ∧
      w'.EndsWith (span.toList.getLast?.getD prev) := by
  rw [emit_of_not_wraps (show Policy.guarded.wraps = false from rfl), flush_of_owed_nothing h.owed]
  exact h.putAll rfl hm

/-- Markup behind a character. -/
theorem literal (h : w.EndsWith prev) (span : String)
    (hm : '\n' ∈ prev :: span.toList → w.margin = #[]) :
    ∃ w', Writer.literal span w = .ok () w' ∧ Wrote span.toList w w' ∧
      w'.EndsWith (span.toList.getLast?.getD prev) := by
  rw [Writer.literal, emit_of_not_wraps (show Policy.verbatim.wraps = false from rfl),
    flush_of_owed_nothing h.owed]
  have hspan := h.putAll (show Policy.verbatim.wraps = false from rfl) hm
  rwa [show Policy.verbatim.escapes = false from rfl, Piece.spellAll_behind_false] at hspan

end EndsWith

/-- Markup on one line, wherever the text stands: the breaks owed are paid and the line is opened
first. -/
theorem exists_literal {w : Writer} (hw : w.width = 0) {span : String} {c : Char}
    {rest : List Char} (hspan : span.toList = c :: rest) (hn : '\n' ∉ c :: rest) :
    ∃ w', literal span w = .ok () w' ∧ Wrote (c :: rest) w.flush.openLine w' ∧
      w'.EndsWith (rest.getLast?.getD c) := by
  have hwidth : w.flush.width = 0 := by
    unfold flush
    split
    · exact hw
    · exact hw
  rw [literal, emit_of_not_wraps (show Policy.verbatim.wraps = false from rfl), hspan]
  obtain ⟨mid, hput, hwrote, hmid⟩ :=
    exists_put hwidth (owed_flush w) (show Policy.verbatim.wraps = false from rfl) c rest.head?
  obtain ⟨w', hrest, hwrote', hw'⟩ :=
    hmid.putAll (show Policy.verbatim.wraps = false from rfl) fun hm => absurd hm hn
  rw [show Policy.verbatim.escapes = false from rfl, Piece.spellAll_behind_false] at hwrote'
  exact ⟨w', (bind_of_ok hput).trans hrest, hwrote.trans hwrote', hw'⟩

end Writer

/-- A part between two marks does not hold the mark. -/
theorem Text.mark_notMem_of_mem_cutAt {mark : Char} {cs part : List Char}
    (h : part ∈ cutAt mark cs) : mark ∉ part := by
  induction cs generalizing part with
  | nil =>
    rw [List.mem_singleton.mp h]
    exact List.not_mem_nil
  | cons c rest ih =>
    obtain ⟨first, parts, hcut⟩ := List.exists_cons_of_ne_nil (cutAt_ne_nil mark rest)
    by_cases hc : c = mark
    · rw [cutAt, if_pos hc] at h
      rcases List.mem_cons.mp h with rfl | h
      · exact List.not_mem_nil
      · exact ih h
    · rw [cutAt, if_neg hc, hcut] at h
      rcases List.mem_cons.mp h with rfl | h
      · have hfirst : mark ∉ first := ih (hcut ▸ List.mem_cons_self)
        simp [Ne.symm hc, hfirst]
      · exact ih (hcut ▸ List.mem_cons_of_mem first h)

/-- A text that can stand between double quotes and is read as a title. A backslash and the
character behind it are read as one. -/
structure QuotesTitle (title text : List Char) : Prop where
  /-- No quote stands without a backslash. -/
  unclosed : ⟨'"', false⟩ ∉ Piece.read text
  /-- The text does not end with a backslash that would take along the next character. -/
  whole : ⟨'\\', false⟩ ∉ Piece.read text
  /-- Without the backslashes it is the title. -/
  chars : Piece.chars (Piece.read text) = title

/-- The pieces of a title between its quotes. Each part between two quotes is escaped by itself. -/
def titlePieces : List (List Char) → List Piece
  | [] => []
  | [part] => Piece.behind true '"' part
  | part :: rest => Piece.behind true '"' part ++ ⟨'"', true⟩ :: titlePieces rest

theorem chars_titlePieces (parts : List (List Char)) :
    Piece.chars (titlePieces parts) = List.intercalate ['"'] parts := by
  fun_induction titlePieces parts with
  | case1 => rfl
  | case2 part => simp [List.intercalate]
  | case3 part rest hne ih =>
    obtain ⟨next, parts, rfl⟩ := List.exists_cons_of_ne_nil hne
    rw [Piece.chars_append, Piece.chars_cons, ih, Piece.chars_behind]
    simp [List.intercalate]

/-- Every quote and every backslash of a title has a backslash in front. -/
theorem escaped_of_mem_titlePieces (parts : List (List Char)) (h : ∀ part ∈ parts, '"' ∉ part) :
    ∀ p ∈ titlePieces parts, p.char = '"' ∨ p.char = '\\' → p.escaped = true := by
  have hpart : ∀ part, '"' ∉ part → ∀ p ∈ Piece.behind true '"' part,
      p.char = '"' ∨ p.char = '\\' → p.escaped = true := by
    rintro part hquote p hp (hc | hc)
    · have hmem : p.char ∈ Piece.chars (Piece.behind true '"' part) := List.mem_map_of_mem hp
      rw [hc, Piece.chars_behind] at hmem
      exact absurd hmem hquote
    · exact Piece.escaped_of_mem_behind p hp hc
  fun_induction titlePieces parts with
  | case1 => simp
  | case2 part => exact hpart part (h part List.mem_cons_self)
  | case3 part rest hne ih =>
    obtain ⟨hfirst, hrest⟩ := List.forall_mem_cons.mp h
    refine List.forall_mem_append.mpr ⟨hpart part hfirst, ?_⟩
    exact List.forall_mem_cons.mpr ⟨fun _ => rfl, ih hrest⟩

/-- The pieces of a title can be read back. -/
theorem quotesTitle_titlePieces (title : List Char) :
    QuotesTitle title (Piece.spellAll (titlePieces (Text.cutAt '"' title))) := by
  have hescaped := escaped_of_mem_titlePieces (Text.cutAt '"' title) fun _ hp =>
    Text.mark_notMem_of_mem_cutAt hp
  have hread := Piece.read_spellAll fun p hp hc => hescaped p hp (.inr hc)
  refine ⟨fun hp => ?_, fun hp => ?_, ?_⟩
  · rw [hread] at hp
    cases hescaped _ hp (.inl rfl)
  · rw [hread] at hp
    cases hescaped _ hp (.inr rfl)
  · rw [hread, chars_titlePieces, Text.intercalate_cutAt]

namespace Writer

variable {w : Writer}

/-- The parts of a title are written by their pieces. -/
theorem EndsWith.writeTitleParts (h : w.EndsWith '"') (hm : w.margin = #[])
    {parts : List (List Char)} (hne : parts ≠ []) :
    ∃ (last : Char) (w' : Writer), MarkdownLayout.writeTitleParts parts w = .ok () w' ∧
      Wrote (Piece.spellAll (titlePieces parts)) w w' ∧ w'.EndsWith last := by
  rw [writeTitleParts_eq]
  fun_induction titlePieces parts generalizing w with
  | case1 => exact absurd rfl hne
  | case2 part =>
    obtain ⟨w', hemit, hwrote, hw'⟩ := h.emit_guarded (String.ofList part) fun _ => hm
    rw [String.toList_ofList] at hwrote
    refine ⟨_, w', ?_, hwrote, hw'⟩
    rw [titlePartSteps, forM_emit_cons hemit]
    rfl
  | case3 part rest hrest ih =>
    obtain ⟨mid, hemit, hwrote, hmid⟩ := h.emit_guarded (String.ofList part) fun _ => hm
    rw [String.toList_ofList] at hwrote
    have hmargin : mid.margin = #[] := hwrote.margin.trans hm
    obtain ⟨quoted, hquote, hwrote', hquoted⟩ := hmid.literal "\\\"" fun _ => hmargin
    obtain ⟨last, w', hparts, hwrote'', hw'⟩ := ih hquoted (hwrote'.margin.trans hmargin) hrest
    refine ⟨last, w', ?_, ?_, hw'⟩
    · rw [titlePartSteps, forM_emit_cons hemit, forM_emit_cons hquote]
      · exact hparts
      · exact hrest
    · rw [Piece.spellAll_append]
      exact hwrote.trans (hwrote'.trans hwrote'')

/-- The destination is opened wherever the text stands, and is written by its pieces. -/
theorem exists_open_destination (hw : w.width = 0) (url : String)
    (hm : '\n' ∈ url.toList → w.margin = #[]) :
    ∃ (opened w' : Writer), literal "](" w = .ok () opened ∧ emit .guarded url opened = .ok () w' ∧
      Wrote ("](".toList ++ Piece.spellAll (Piece.behind true '(' url.toList)) w.flush.openLine w' ∧
      w'.margin = w.margin ∧ w'.EndsWith (url.toList.getLast?.getD '(') := by
  obtain ⟨opened, hliteral, hwrote, hopened⟩ :=
    exists_literal hw (show "](".toList = [']', '('] from rfl) (by decide)
  have hmargin : opened.margin = w.margin := by
    rw [hwrote.margin]
    unfold openLine flush
    split <;> split <;> rfl
  have hopen : w.flush.openLine.margin = w.margin := hwrote.margin.symm.trans hmargin
  obtain ⟨w', hurl, hwrote', hw'⟩ := hopened.emit_guarded url fun hn => by
    rw [hmargin]
    exact hm ((List.mem_cons.mp hn).resolve_left (by decide))
  exact ⟨opened, w', hliteral, hurl, hwrote.trans hwrote',
    (hwrote'.margin.trans hwrote.margin).trans hopen, hw'⟩

end Writer

/-- A link or an image with a title ends with its destination and its title between quotes. Where
lines are not broken, there is no margin and nothing is owed, this is all that is written. The title
has no quote without a backslash, does not end within a pair of a backslash and a character, and is
read back as it was. -/
theorem write_titled_destination (settings : RenderSettings) (slot : Slot) {w : Writer}
    (hwidth : w.width = 0) (hmargin : w.margin = #[]) (howed : w.owed = .nothing) (url : String)
    {title : String} (htitle : title ≠ "") {container : Container}
    (hcontainer : container ∈ [Container.link url (some title), .image url (some title)]) :
    ∃ (w' : Writer) (text : List Char),
      Visit.write settings ⟨.exit, .container container, slot⟩ w = .ok () w' ∧
      w'.buffer.toList = w.buffer.toList ++
        encode ("](".toList ++ Piece.spellAll (Piece.behind true '(' url.toList) ++ " \"".toList ++
          text ++ "\")".toList) ∧
      QuotesTitle title.toList text := by
  have hwrite : Visit.write settings ⟨.exit, .container container, slot⟩ w =
      closeDestination url (some title) w := by
    simp only [List.mem_cons, List.not_mem_nil, or_false] at hcontainer
    rcases hcontainer with rfl | rfl <;> rfl
  have hopen : w.flush.openLine.buffer = w.buffer := by
    rw [Writer.flush_of_owed_nothing howed]
    unfold Writer.openLine
    split
    · show w.buffer ++ w.margin = w.buffer
      rw [hmargin, Array.append_empty]
    · rfl
  obtain ⟨opened, placed, hliteral, hurl, hwrote, hplacedMargin, hplaced⟩ :=
    Writer.exists_open_destination hwidth url fun _ => hmargin
  have hplacedBare := hplacedMargin.trans hmargin
  obtain ⟨quoted, hquote, hwroteQuote, hquoted⟩ := hplaced.literal " \"" fun _ => hplacedBare
  have hquotedBare := hwroteQuote.margin.trans hplacedBare
  obtain ⟨last, titled, hparts, hwroteParts, htitled⟩ :=
    hquoted.writeTitleParts hquotedBare (Text.cutAt_ne_nil '"' title.toList)
  have htitledBare := hwroteParts.margin.trans hquotedBare
  obtain ⟨closed, hclose, hwroteClose, hclosed⟩ := htitled.literal "\"" fun _ => htitledBare
  obtain ⟨w', hend, hwroteEnd, _⟩ :=
    hclosed.literal ")" fun _ => hwroteClose.margin.trans htitledBare
  have hempty : ¬ title.isEmpty = true := by simpa using htitle
  have hwriteTitle : writeTitle (some title) placed = .ok () closed := by
    rw [writeTitle, if_neg hempty, bind_of_ok hquote, bind_of_ok hparts]
    exact hclose
  have hall := (((hwrote.trans hwroteQuote).trans hwroteParts).trans hwroteClose).trans hwroteEnd
  refine ⟨w', _, ?_, ?_, quotesTitle_titlePieces title.toList⟩
  · rw [hwrite, closeDestination, bind_of_ok hliteral, bind_of_ok hurl,
      bind_of_ok hwriteTitle]
    exact hend
  · rw [hall.buffer, hopen]
    simp only [List.append_assoc]
    rfl

/-- Quotes next to backslashes and to each other, a number with a dot and a line end. -/
theorem write_titled_destination_quotes :
    ∃ (w' : Writer) (text : List Char),
      Visit.write {} ⟨.exit, .container (.link "a_b" (some "\"\\\"\n-1.\"")), .stray⟩
        { width := 0 } = .ok () w' ∧
      w'.buffer.toList = ({ width := 0 } : Writer).buffer.toList ++
        encode ("](".toList ++ Piece.spellAll (Piece.behind true '(' "a_b".toList) ++
          " \"".toList ++ text ++ "\")".toList) ∧
      QuotesTitle "\"\\\"\n-1.\"".toList text :=
  write_titled_destination {} .stray rfl rfl rfl "a_b" (by decide) List.mem_cons_self

end MarkdownLayout
